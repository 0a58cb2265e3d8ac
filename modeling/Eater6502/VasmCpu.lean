import Eater6502.VasmExpr
import Eater6502.VasmMnemonics

/-!
# The 6502 module of the assembler

How an instruction becomes bytes (`cpu.c`), all sections being absolute. An
instruction is a row of the table and its operands. In every pass it is optimized for
the place where it stands and the values its operands have there
(`optimizeInstruction`): an absolute mode becomes a zero-page one where the address
allows it, and with `-opt-branch` a branch that does not reach its destination becomes
one on the opposite condition over a jump. The passes only want to know how many bytes
that makes (`instructionSize`). The last one writes them (`evalInstruction`), together
with what there is to complain of.
-/

namespace Vasm

variable {L : Type}

/-- The prefixes that select a byte of a value, or an addressing mode. -/
structure Selector where
  /-- `<`: low byte, or 8-bit addressing -/
  lo : Bool
  /-- `>`: high byte, or 16/24-bit addressing -/
  hi : Bool
  /-- `^`: bank byte -/
  bk : Bool
  /-- `!`: 16-bit addressing -/
  wa : Bool
  deriving Repr, DecidableEq

/-- An operand. Only that of the accumulator has no value. -/
structure Operand (L : Type) where
  type : OpType
  flags : Selector
  value : Option (Expr L)
  deriving Repr, DecidableEq

/-- **An instruction**: the number of its row in the table, and its operands. -/
structure Instruction (L : Type) where
  code : ℕ
  op : List (Operand L)
  deriving Repr, DecidableEq

/-- What the command line and the directives ask for. -/
structure Options where
  cpuType : Cpu
  /-- `-opt-branch` -/
  branchopt : Bool
  /-- `-am`: values are cut off to what fits. -/
  autoMask : Bool
  /-- The page that is addressed by one byte. -/
  dpage : BitVec 16
  deriving Repr, DecidableEq

namespace Options

def has (o : Options) (cpu : Cpu) : Bool := o.cpuType &&& cpu != 0

end Options

/-- The row of a number. -/
def mnemonic (code : ℕ) : Mnemonic := mnemonics.getD code ⟨"", [], 0, 0, 0, 0⟩

/-- The last row that is available and satisfies a condition (`init_cpu`). -/
def lastRow (cpu : Cpu) (p : Mnemonic → Bool) : ℕ :=
  (mnemonics.zipIdx.findRev? fun r => r.1.availableOn cpu && p r.1).elim 0 Prod.snd

/-- The first one. -/
def firstRow (cpu : Cpu) (p : Mnemonic → Bool) : ℕ :=
  (mnemonics.zipIdx.find? fun r => r.1.availableOn cpu && p r.1).elim 0 Prod.snd

def OC_JMPABS (cpu : Cpu) : ℕ :=
  lastRow cpu fun m => m.name == "jmp" && m.operandType.head? == some .abs

def OC_BRA (cpu : Cpu) : ℕ := lastRow cpu fun m => m.name == "bra"

def OC_FIRSTMV (cpu : Cpu) : ℕ := firstRow cpu fun m => m.name == "mvn"

def OC_LASTMV (cpu : Cpu) : ℕ := lastRow cpu fun m => m.name == "mvp"

/-! ## Optimization -/

/-- A value is in the page that is addressed by one byte. -/
def Options.inDpage (o : Options) (val : Taddr) : Bool :=
  o.dpage.toNat ≤ val.toNat && val.toNat ≤ o.dpage.toNat + 0xff

/-- The mode an absolute operand gets. -/
def absType (o : Options) (mnemo : Mnemonic) (f : Selector) (val : Taddr) (type : OpType) :
    OpType :=
  if mnemo.zpOpcode != 0 && (f.lo || (!(f.hi || f.wa) && o.inDpage val)) then type.toDpage
  else if o.has WDC65816 && mnemo.alOpcode != 0
      && (f.hi || (!(f.wa || f.lo) && decide (0xffff < val.toInt))) then type.toLabs
  else type

/-- The distance of a branch is one that a byte can hold, from behind two bytes. -/
def near (pc val : Taddr) : Bool :=
  decide (-0x80 ≤ (val - (pc + 2)).toInt) && decide ((val - (pc + 2)).toInt ≤ 0x7f)

/-- What becomes of an operand that has a value, and of the code of the instruction,
which `mnemo` was the row of. -/
def optimizeOperand (o : Options) (mnemo : Mnemonic) (pc val : Taddr) (code : ℕ)
    (op : Operand L) : ℕ × OpType :=
  if op.type.isAbs then (code, absType o mnemo op.flags val op.type)
  else if o.branchopt then
    if op.type == .rel8 && !near pc val then
      -- a BRA becomes a JMP, another branch a B!cc/JMP combination
      if mnemo.opcode == 0x80 || mnemo.opcode == 0x12 then (OC_JMPABS o.cpuType, .abs)
      else (code, .reljmp)
    else if code == OC_JMPABS o.cpuType && o.has (DTV ||| M65C02)
        && decide (-0x80 ≤ (val - (pc + 2)).toInt) && decide ((val - (pc + 2)).toInt ≤ 0x80) then
      (OC_BRA o.cpuType, .rel8)
    else (code, op.type)
  else (code, op.type)

/-- The operands one after the other. -/
def optimizeOperands (o : Options) (mnemo : Mnemonic) (env : L → Taddr) (pc : Taddr) :
    ℕ → List (Operand L) → Instruction L
  | code, [] => ⟨code, []⟩
  | code, op :: ops =>
    match op.value with
    | none =>
      let ip := optimizeOperands o mnemo env pc code ops
      { ip with op := op :: ip.op }
    | some e =>
      let (code, type) := optimizeOperand o mnemo pc (e.eval env pc) code op
      let ip := optimizeOperands o mnemo env pc code ops
      { ip with op := { op with type := type } :: ip.op }

/-- **An instruction optimized** for where it stands. -/
def optimizeInstruction (o : Options) (env : L → Taddr) (pc : Taddr) (ip : Instruction L) :
    Instruction L :=
  optimizeOperands o (mnemonic ip.code) env pc ip.code ip.op

/-- The labels an instruction is about. -/
def Instruction.labels (ip : Instruction L) : List L :=
  ip.op.flatMap fun op => op.value.elim [] Expr.labels

theorem optimizeOperands_congr {o : Options} {mnemo : Mnemonic} {env env' : L → Taddr}
    {pc : Taddr} {code : ℕ} {ops : List (Operand L)}
    (h : ∀ op ∈ ops, ∀ l ∈ op.value.elim [] Expr.labels, env l = env' l) :
    optimizeOperands o mnemo env pc code ops = optimizeOperands o mnemo env' pc code ops := by
  induction ops generalizing code with
  | nil => rfl
  | cons op ops ih =>
    have hrest := fun op' hop' => h op' (List.mem_cons_of_mem op hop')
    have hop := h op List.mem_cons_self
    unfold optimizeOperands
    cases hv : op.value with
    | none => rw [ih hrest]
    | some e =>
      rw [hv] at hop
      have heval : e.eval env pc = e.eval env' pc := Expr.eval_congr hop
      simp only [heval, ih hrest]

/-- **What becomes of an instruction depends on its labels only.** -/
theorem optimizeInstruction_congr {o : Options} {env env' : L → Taddr} {pc : Taddr}
    {ip : Instruction L} (h : ∀ l ∈ ip.labels, env l = env' l) :
    optimizeInstruction o env pc ip = optimizeInstruction o env' pc ip :=
  optimizeOperands_congr fun _ hop l hl => h l (List.mem_flatMap_of_mem hop hl)

/-- What it complains of the first time it is done for good. -/
def optimizeComplaints (o : Options) (env : L → Taddr) (pc : Taddr) (ip : Instruction L) :
    List Complaint :=
  ip.op.flatMap fun op =>
    op.value.elim [] (Expr.complaints env pc)
      ++ if op.value.isSome && op.type.isAbs then
          -- zero/direct-page, or absolute-long, addressing not available
          (if op.flags.lo && (mnemonic ip.code).zpOpcode == 0 then [.cpu 10] else [])
            ++ if o.has WDC65816 && op.flags.hi && (mnemonic ip.code).alOpcode == 0 then
                [.cpu 12]
              else []
        else []

/-- The bytes of an instruction. -/
def getInstSize (ip : Instruction L) : ℕ :=
  1 + (ip.op.map fun op => op.type.opsize).sum
    + if (mnemonic ip.code).available &&& M45GS02Q != 0 then 2 else 0

/-- **How many bytes an instruction takes**, where it stands. -/
def instructionSize (o : Options) (env : L → Taddr) (pc : Taddr) (ip : Instruction L) : ℕ :=
  getInstSize (optimizeInstruction o env pc ip)

/-! ## Evaluation -/

namespace OpType

/-- The modes with an address in the zero page. -/
def isDpage : OpType → Bool
  | dpage | dpagex | dpagey | dpagez | dpindx | dpindy | dpindz | dpind | ldpindy | qdpindz
  | ldpind | qdpind => true
  | _ => false

/-- The modes with an address of two bytes. -/
def isWord : OpType → Bool
  | abs | absx | absy | absz | indir | indirx | lindir | reljmp => true
  | _ => false

end OpType

/-- The byte, or the two bytes, a prefix selects from an immediate value. -/
def select (o : Options) (f : Selector) (mask val : Taddr) : Taddr :=
  if f.bk then val.sshiftRight 16 &&& mask
  else if f.hi then val.sshiftRight 8 &&& mask
  else if f.lo || o.autoMask then val &&& mask
  else val

/-- The value that is written for an operand, `offs` bytes behind the beginning of the
instruction. -/
def operandValue (o : Options) (pc : Taddr) (offs : ℕ) (f : Selector) (val : Taddr)
    (type : OpType) : Taddr :=
  if type.isDpage then if f.lo then val &&& 0xff else val - o.dpage.setWidth 32
  else if type.isWord then if o.has WDC65816 || f.hi || f.wa then val &&& 0xffff else val
  else match type with
    | .labs | .labsx => val &&& 0xffffff
    | .rel8 => val - (pc + BitVec.ofNat 32 offs + 1)
    | .rel16 => val - (pc + BitVec.ofNat 32 offs + 2)
    | .mvbank => val.sshiftRight 16 &&& 0xff
    | .immed8 => select o f 0xff val
    | .immed16 => select o f 0xffff val
    | _ => val

/-- A prefix that means nothing where it stands is ignored, with a warning. -/
def prefixIgnored (o : Options) (f : Selector) (type : OpType) : List Complaint :=
  let ignored :=
    if type.isDpage then f.hi || f.wa
    else if type.isWord then !(o.has WDC65816 || f.hi || f.wa) && f.lo
    else match type with
      | .labs | .labsx => f.lo || f.wa
      | .mvbank | .sr | .srindy => f.lo || f.wa || f.hi
      | _ => false
  if ignored then [.cpu 2] else []

/-- The values that do not fit (`rangecheck`). -/
def rangecheck (val : Taddr) (type : OpType) : List Complaint :=
  let outside (low high : Int) (c : Complaint) :=
    if val.toInt < low ∨ high < val.toInt then [c] else []
  if type.isDpage then outside 0 0xff (.cpu 11)
  else if type.isWord then outside 0 0xffff (.cpu 5)
  else match type with
    | .sr | .srindy => outside 0 0xff (.cpu 5)
    | .immed8 => outside (-0x80) 0xff (.cpu 5)
    | .immed16 => outside (-0x8000) 0xffff (.cpu 5)
    | .rel8 => outside (-0x80) 0x7f (.cpu 6)
    | .rel16 => outside (-0x8000) 0x7fff (.cpu 6)
    | .wbit => outside 0 7 (.cpu 7)
    | _ => []

/-- The lowest bytes of a value, the lowest of them first. -/
def setval : ℕ → Taddr → List Byte
  | 0, _ => []
  | n + 1, val => val.setWidth 8 :: setval n (val >>> 8)

/-- An operand behind the bytes there are. -/
def writeOperand (type : OpType) (val : Taddr) (d : List Byte) : List Byte :=
  match type with
  | .absx | .absy | .absz | .abs | .indir | .indirx | .lindir | .rel16 | .immed16 =>
    d ++ setval 2 val
  | .labs | .labsx => d ++ setval 3 val
  -- a prefix goes in front of the last byte
  | .qdpind | .qdpindz => d.dropLast ++ 0xea :: d.getLast?.toList ++ setval 1 val
  | .dpage | .dpagex | .dpagey | .dpagez | .ldpind | .ldpindy | .dpind | .dpindx | .dpindy
  | .dpindz | .immed8 | .rel8 | .sr | .srindy | .mvbank => d ++ setval 1 val
  -- B!cc *+3 and JMP
  | .reljmp => d ++ 3 :: 0x4c :: setval 2 val
  -- the bit number goes into the opcode
  | .wbit => d.modifyHead (· ||| ((val &&& 7) <<< 4).setWidth 8)
  | _ => d

/-- What is wrong with writing an operand there. -/
def writeComplaints (type : OpType) (d : List Byte) : List Complaint :=
  match type with
  -- STX/STY allow only the zero-page mode
  | .absx | .absy | .absz => if d.head? = some 0 then [.cpu 0] else []
  | .reljmp => if 1 < d.length then [.internal] else []
  | .implied | .dataop | .immed | .immedx | .accu => [.internal]
  | _ => []

/-- The bytes of an instruction, as far as they are written, and what was complained
of. -/
structure Emission where
  data : List Byte
  complaints : List Complaint
  deriving Repr, DecidableEq

/-- An operand evaluated and written. -/
def evalOperand (o : Options) (env : L → Taddr) (pc : Taddr) (d : Emission) (op : Operand L) :
    Emission :=
  match op.value with
  | none => d
  | some e =>
    let val := operandValue o pc d.data.length op.flags (e.eval env pc) op.type
    ⟨writeOperand op.type val d.data,
      d.complaints ++ e.complaints env pc ++ prefixIgnored o op.flags op.type
        ++ rangecheck val op.type ++ writeComplaints op.type d.data⟩

/-- The opcode of an instruction, given the modes of its operands. -/
def opcodeOf (mnemo : Mnemonic) (types : List OpType) : Byte :=
  types.foldl (fun oc type =>
    match type with
    | .labs | .labsx => mnemo.alOpcode
    | .dpage | .dpagex | .dpagey | .dpagez => mnemo.zpOpcode
    -- B!cc branch
    | .reljmp => oc ^^^ 0x20
    | _ => oc) mnemo.opcode

/-- The operands in the order they are written in: those of a block move are swapped. -/
def writtenOrder (o : Options) (ip : Instruction L) : List (Operand L) :=
  match ip.op with
  | a :: b :: ops =>
    if OC_FIRSTMV o.cpuType ≤ ip.code ∧ ip.code ≤ OC_LASTMV o.cpuType then b :: a :: ops
    else a :: b :: ops
  | ops => ops

/-- The bytes of an optimized instruction. -/
def emit (o : Options) (env : L → Taddr) (pc : Taddr) (ip : Instruction L) : Emission :=
  let mnemo := mnemonic ip.code
  let oc := opcodeOf mnemo (ip.op.map Operand.type)
  if mnemo.available &&& M45GS02Q != 0 then
    ip.op.foldl (evalOperand o env pc) ⟨[0x42, 0x42, oc], []⟩
  else (writtenOrder o ip).foldl (evalOperand o env pc) ⟨[oc], []⟩

/-- **The bytes of an instruction**, where it stands. -/
def evalInstruction (o : Options) (env : L → Taddr) (pc : Taddr) (ip : Instruction L) :
    Emission :=
  let d := emit o env pc (optimizeInstruction o env pc ip)
  { d with complaints := optimizeComplaints o env pc ip ++ d.complaints }

/-! ## What is written takes as many bytes as were counted -/

section Size

variable {o : Options} {env : L → Taddr} {pc : Taddr}

/-- An operand without a value, that is the accumulator, takes no bytes. -/
def Operand.Valued (op : Operand L) : Prop := op.value = none → op.type.opsize = 0

/-- All operands are as the parser makes them. -/
def Instruction.Valued (ip : Instruction L) : Prop := ∀ op ∈ ip.op, op.Valued

theorem length_setval (n : ℕ) (val : Taddr) : (setval n val).length = n := by
  induction n generalizing val with
  | zero => rfl
  | succ n ih => rw [setval, List.length_cons, ih]

/-- **An operand takes the bytes its mode says**, if it can be written at all. -/
theorem length_writeOperand {type : OpType} {val : Taddr} {d : List Byte} (hd : d ≠ [])
    (hw : Complaint.internal ∉ writeComplaints type d) :
    (writeOperand type val d).length = d.length + type.opsize := by
  have hpos : 0 < d.length := List.length_pos_iff.mpr hd
  cases type with
  | implied | dataop | immed | immedx | accu => exact absurd List.mem_cons_self hw
  | wbit => exact List.length_modifyHead
  | qdpind | qdpindz =>
    have hlast : d.getLast?.toList.length = 1 := by
      rw [List.getLast?_eq_some_getLast hd]
      rfl
    show (d.dropLast ++ 0xea :: d.getLast?.toList ++ setval 1 val).length = d.length + 2
    simp only [List.length_append, List.length_cons, List.length_dropLast, hlast, length_setval]
    omega
  | reljmp =>
    show (d ++ 3 :: 0x4c :: setval 2 val).length = d.length + 4
    simp only [List.length_append, List.length_cons, length_setval]
  | _ =>
    refine List.length_append.trans ?_
    rw [length_setval]
    rfl

theorem ne_nil_writeOperand {type : OpType} {val : Taddr} {d : List Byte} (hd : d ≠ []) :
    writeOperand type val d ≠ [] := by
  cases type with
  | wbit =>
    intro h
    exact hd (List.modifyHead_eq_nil_iff.mp h)
  | qdpind | qdpindz => simp [writeOperand]
  | _ => simp [writeOperand, hd]

/-- What was complained of is not forgotten. -/
theorem mem_foldl_complaints {c : Complaint} {ops : List (Operand L)} {d : Emission}
    (hc : c ∈ d.complaints) : c ∈ (ops.foldl (evalOperand o env pc) d).complaints := by
  induction ops generalizing d with
  | nil => exact hc
  | cons op ops ih =>
    refine ih ?_
    unfold evalOperand
    cases op.value with
    | none => exact hc
    | some e => simp [hc]

/-- **The operands take the bytes their modes say.** -/
theorem length_foldl_evalOperand {ops : List (Operand L)} {d : Emission} (hd : d.data ≠ [])
    (hops : ∀ op ∈ ops, op.Valued)
    (hc : Complaint.internal ∉ (ops.foldl (evalOperand o env pc) d).complaints) :
    (ops.foldl (evalOperand o env pc) d).data.length
      = d.data.length + (ops.map fun op => op.type.opsize).sum := by
  induction ops generalizing d with
  | nil => rfl
  | cons op ops ih =>
    have hop := hops op List.mem_cons_self
    have hrest := fun op' hop' => hops op' (List.mem_cons_of_mem op hop')
    rw [List.foldl_cons] at hc ⊢
    rw [List.map_cons, List.sum_cons]
    cases hv : op.value with
    | none =>
      have heval : evalOperand o env pc d op = d := by rw [evalOperand, hv]
      rw [heval] at hc ⊢
      rw [ih hd hrest hc, hop hv, Nat.zero_add]
    | some e =>
      have hwrite : Complaint.internal ∉ writeComplaints op.type d.data := by
        intro hmem
        refine hc (mem_foldl_complaints ?_)
        simp only [evalOperand, hv]
        exact List.mem_append_right _ hmem
      have hlen : (evalOperand o env pc d op).data.length = d.data.length + op.type.opsize := by
        simp only [evalOperand, hv]
        exact length_writeOperand hd hwrite
      have hne : (evalOperand o env pc d op).data ≠ [] := by
        simp only [evalOperand, hv]
        exact ne_nil_writeOperand hd
      rw [ih hne hrest hc, hlen, Nat.add_assoc]

/-- To optimize does not touch an operand that has no value. -/
theorem valued_optimizeOperands {mnemo : Mnemonic} {code : ℕ} {ops : List (Operand L)}
    (hops : ∀ op ∈ ops, op.Valued) : (optimizeOperands o mnemo env pc code ops).Valued := by
  induction ops generalizing code with
  | nil => exact fun _ hop => absurd hop List.not_mem_nil
  | cons op ops ih =>
    have hrest := fun op' hop' => hops op' (List.mem_cons_of_mem op hop')
    unfold optimizeOperands
    cases hv : op.value with
    | none =>
      intro op' hop'
      rcases List.mem_cons.mp hop' with rfl | hop'
      · exact hops op' List.mem_cons_self
      · exact ih hrest op' hop'
    | some e =>
      intro op' hop'
      rcases List.mem_cons.mp hop' with rfl | hop'
      · exact fun hnone => absurd hnone (Option.some_ne_none e)
      · exact ih hrest op' hop'

/-- The order in which the operands are written does not matter for their size. -/
theorem writtenOrder_perm (o : Options) (ip : Instruction L) :
    (writtenOrder o ip).Perm ip.op := by
  unfold writtenOrder
  split
  · rename_i a b ops hop
    rw [hop]
    split
    · exact List.Perm.swap a b ops
    · exact .refl _
  · exact .refl _

theorem length_emit {ip : Instruction L} (hip : ip.Valued)
    (hc : Complaint.internal ∉ (emit o env pc ip).complaints) :
    (emit o env pc ip).data.length = getInstSize ip := by
  unfold emit at hc ⊢
  unfold getInstSize
  by_cases hq : (mnemonic ip.code).available &&& M45GS02Q ≠ 0
  · simp only [bne_iff_ne.mpr hq, if_true] at hc ⊢
    rw [length_foldl_evalOperand (List.cons_ne_nil _ _) hip hc, List.length_cons,
      List.length_cons, List.length_singleton]
    omega
  · simp only [bne_iff_ne, hq, if_false] at hc ⊢
    have hperm := writtenOrder_perm o ip
    rw [length_foldl_evalOperand (List.cons_ne_nil _ _)
      (fun op hop => hip op (hperm.mem_iff.mp hop)) hc, List.length_singleton,
      (hperm.map fun op => op.type.opsize).sum_nat]
    rfl

/-- **An instruction takes as many bytes as were counted for it**, in the same place and
with the same values, if the assembler does not give up on it. -/
theorem length_evalInstruction {ip : Instruction L} (hip : ip.Valued)
    (hc : Complaint.internal ∉ (evalInstruction o env pc ip).complaints) :
    (evalInstruction o env pc ip).data.length = instructionSize o env pc ip :=
  length_emit (valued_optimizeOperands hip) fun hmem => hc (List.mem_append_right _ hmem)

end Size

end Vasm
