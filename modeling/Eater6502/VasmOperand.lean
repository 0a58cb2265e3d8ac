import Eater6502.Opcodes
import Eater6502.VasmImage

/-!
# What the processor makes of an assembled instruction

For a 6502 every instruction has one operand at most. What the assembler may change of it is
its mode: an absolute one becomes a zero-page one, and a branch that does not reach becomes
one over a jump (`optimizeOperand_eq`). Then the opcode has the mode that the operand has
now, and the operand is behind it (`evalInstruction_operand`).

So the processor finds what the listing means, with one exception (`operand_meant`). An
address in the zero page with an index, where the sum is not in the zero page any more, is
the address below it there: the index does not carry.
-/

namespace Vasm

open Isa

variable {L : Type}

/-! ## The table and the processor -/

namespace OpType

/-- The mode the parser notes for an operand, the accumulator and the index registers having
8 bits. -/
def parsed : OpType → OpType
  | immed | immedx => immed8
  | t => t

theorem parsed_eq_rel8 {ts : List OpType} (h : ts.map parsed = [rel8]) : ts = [rel8] := by
  obtain ⟨t, rfl, ht⟩ := List.map_eq_singleton_iff.mp h
  cases t <;> first | rfl | cases ht

/-- What the processor calls a mode. -/
def mode : OpType → Option Mode
  | accu => some .implied
  | immed8 => some .immediate
  | abs => some .absolute
  | absx => some .absoluteX
  | absy => some .absoluteY
  | dpage => some .zeroPage
  | dpagex => some .zeroPageX
  | dpagey => some .zeroPageY
  | indir => some .indirect
  | dpindx => some .indexedIndirect
  | dpindy => some .indirectIndexed
  | rel8 => some .relative
  | _ => none

/-- The modes of an operand, if there is one. -/
def modes : List OpType → Option Mode
  | [] => some .implied
  | [t] => t.mode
  | _ => none

end OpType

/-- A row of the table and what the processor takes its opcodes for. The opcode 0 is that of
BRK, and it stands where there is no opcode. -/
structure Mnemonic.Documented (m : Mnemonic) : Prop where
  available : m.available = M6502
  known : (OpType.modes (m.operandType.map OpType.parsed)).isSome
  opcode : m.opcode ≠ 0 → mode m.opcode = OpType.modes (m.operandType.map OpType.parsed)
  zpOpcode : m.zpOpcode ≠ 0 →
    mode m.zpOpcode = OpType.modes (m.operandType.map OpType.parsed |>.map OpType.toDpage)
  /-- An address is put in the zero page by the assembler only. -/
  page : ∀ t ∈ m.operandType, t ≠ .dpage ∧ t ≠ .dpagex ∧ t ≠ .dpagey

instance (m : Mnemonic) : Decidable m.Documented :=
  decidable_of_iff (m.available = M6502
      ∧ (OpType.modes (m.operandType.map OpType.parsed)).isSome
      ∧ (m.opcode ≠ 0 → mode m.opcode = OpType.modes (m.operandType.map OpType.parsed))
      ∧ (m.zpOpcode ≠ 0 → mode m.zpOpcode
        = OpType.modes (m.operandType.map OpType.parsed |>.map OpType.toDpage))
      ∧ ∀ t ∈ m.operandType, t ≠ .dpage ∧ t ≠ .dpagex ∧ t ≠ .dpagey)
    ⟨fun ⟨h, h', h'', h₃, h₄⟩ => ⟨h, h', h'', h₃, h₄⟩,
      fun h => ⟨h.available, h.known, h.opcode, h.zpOpcode, h.page⟩⟩

/-- **The table of the assembler and the processor agree.** -/
theorem documented : ∀ m ∈ mnemonics, m.availableOn M6502 = true → m.Documented := by
  decide +kernel

/-- **An instruction as the parser makes it** for a 6502. -/
structure Instruction.Parsed (ip : Instruction L) : Prop where
  available : (mnemonic ip.code).availableOn M6502 = true
  types : ip.op.map Operand.type = (mnemonic ip.code).operandType.map OpType.parsed
  value : ∀ op ∈ ip.op, op.value = none ↔ op.type = .accu

/-- A row that is available is in the table. -/
theorem mnemonic_mem {code : ℕ} (h : (mnemonic code).availableOn M6502 = true) :
    mnemonic code ∈ mnemonics := by
  unfold mnemonic at h ⊢
  rw [List.getD_eq_getElem?_getD] at h ⊢
  cases hm : mnemonics[code]? with
  | none =>
    rw [hm] at h
    exact absurd h Bool.false_ne_true
  | some m => exact List.mem_of_getElem? hm

theorem documented_mnemonic {code : ℕ} (h : (mnemonic code).availableOn M6502 = true) :
    (mnemonic code).Documented :=
  documented _ (mnemonic_mem h) h

namespace Mnemonic.Documented

variable {m : Mnemonic}

/-- There is no branch that is always taken. -/
theorem not_bra (h : m.Documented) (hrel : m.operandType = [.rel8]) :
    (m.opcode == 0x80 || m.opcode == 0x12) = false := by
  have hmode : m.opcode ≠ 0 → mode m.opcode = some .relative := fun h0 => by
    rw [h.opcode h0, hrel]
    rfl
  by_contra hbra
  rw [Bool.not_eq_false, Bool.or_eq_true] at hbra
  rcases hbra with hop | hop
  · rw [eq_of_beq hop] at hmode
    exact absurd (hmode (by decide)) (by decide +kernel)
  · rw [eq_of_beq hop] at hmode
    exact absurd (hmode (by decide)) (by decide +kernel)

/-- No prefixes are put in front. -/
theorem not_quad (h : m.Documented) : (m.available &&& M45GS02Q != 0) = false := by
  rw [h.available]
  rfl

end Mnemonic.Documented

/-! ## What is optimized -/

section Optimize

variable {o : Options} {pc val : Taddr}

/-- An address is put in the zero page. -/
def zeroPaged (o : Options) (m : Mnemonic) (f : Selector) (val : Taddr) : Bool :=
  m.zpOpcode != 0 && (f.lo || (!(f.hi || f.wa) && o.inDpage val))

/-- A branch does not reach, and the assembler may help it. -/
def Options.relaxes (o : Options) (pc val : Taddr) : Bool := o.branchopt && !near pc val

/-- The mode an operand gets. -/
def settledType (o : Options) (m : Mnemonic) (pc val : Taddr) (op : Operand L) : OpType :=
  if op.type.isAbs then if zeroPaged o m op.flags val then op.type.toDpage else op.type
  else if op.type = .rel8 ∧ o.relaxes pc val = true then .reljmp
  else op.type

/-- **What is optimized for a 6502**: the mode of an operand, and no row is replaced by another
one. -/
theorem optimizeOperand_eq (hcpu : o.cpuType = M6502) {m : Mnemonic} (hm : m.Documented)
    {op : Operand L} (htype : m.operandType.map OpType.parsed = [op.type]) (code : ℕ) :
    optimizeOperand o m pc val code op = (code, settledType o m pc val op) := by
  have h816 : o.has WDC65816 = false := by
    unfold Options.has
    rw [hcpu]
    rfl
  have hbra : o.has (DTV ||| M65C02) = false := by
    unfold Options.has
    rw [hcpu]
    rfl
  unfold optimizeOperand settledType
  cases habs : op.type.isAbs with
  | true =>
    simp only [if_true, absType, h816, Bool.false_and, Bool.false_eq_true, if_false]
    rfl
  | false =>
    simp only [Bool.false_eq_true, if_false]
    by_cases hfar : op.type = .rel8 ∧ o.relaxes pc val = true
    · obtain ⟨hopt, hnear⟩ := Bool.and_eq_true_iff.mp hfar.2
      have hrel : m.operandType = [.rel8] := by
        rw [hfar.1] at htype
        exact OpType.parsed_eq_rel8 htype
      rw [if_pos hopt, if_pos (by rw [hfar.1, hnear]; rfl), hm.not_bra hrel, if_pos hfar]
      rfl
    · rw [if_neg hfar]
      by_cases hopt : o.branchopt = true
      · have hnear : ¬(op.type == .rel8 && !near pc val) = true := fun h => by
          obtain ⟨hrel, hfar'⟩ := Bool.and_eq_true_iff.mp h
          exact hfar ⟨eq_of_beq hrel, Bool.and_eq_true_iff.mpr ⟨hopt, hfar'⟩⟩
        rw [if_pos hopt, if_neg hnear, hbra, Bool.and_false, Bool.false_and, Bool.false_and]
        rfl
      · rw [if_neg hopt]

/-- A branch that is not helped keeps its mode, as everything does that is not put in the zero
page. -/
theorem settledType_cases {m : Mnemonic} {op : Operand L}
    (hfar : op.type = .rel8 → o.relaxes pc val = false) :
    op.type.isAbs = true ∧ zeroPaged o m op.flags val = true
        ∧ settledType o m pc val op = op.type.toDpage
      ∨ ¬(op.type.isAbs = true ∧ zeroPaged o m op.flags val = true)
        ∧ settledType o m pc val op = op.type := by
  unfold settledType
  by_cases habs : op.type.isAbs = true
  · rw [if_pos habs]
    by_cases hzero : zeroPaged o m op.flags val = true
    · exact .inl ⟨habs, hzero, if_pos hzero⟩
    · exact .inr ⟨fun h => hzero h.2, if_neg hzero⟩
  · rw [if_neg habs]
    refine .inr ⟨fun h => habs h.1, if_neg ?_⟩
    rintro ⟨hrel, hrelaxes⟩
    exact absurd ((hfar hrel).symm.trans hrelaxes) Bool.false_ne_true

end Optimize

/-! ## What is written -/

section Write

variable {o : Options} {env : L → Taddr} {pc : Taddr}

/-- **An instruction with an operand, as it is written.** -/
theorem evalInstruction_operand (hcpu : o.cpuType = M6502) {code : ℕ} {op : Operand L}
    {e : Expr L} (hip : Instruction.Parsed ⟨code, [op]⟩) (hv : op.value = some e)
    {type : OpType} (hset : settledType o (mnemonic code) pc (e.eval env pc) op = type)
    {val : Taddr} (hval : operandValue o pc 1 op.flags (e.eval env pc) type = val) :
    evalInstruction o env pc ⟨code, [op]⟩
      = ⟨writeOperand type val [opcodeOf (mnemonic code) [type]],
          optimizeComplaints o env pc ⟨code, [op]⟩
            ++ (e.complaints env pc ++ prefixIgnored o op.flags type ++ rangecheck val type
              ++ writeComplaints type [opcodeOf (mnemonic code) [type]])⟩ := by
  subst hset hval
  have hm := documented_mnemonic hip.available
  have hopt : optimizeInstruction o env pc ⟨code, [op]⟩
      = ⟨code, [{ op with type := settledType o (mnemonic code) pc (e.eval env pc) op }]⟩ := by
    unfold optimizeInstruction
    simp only [optimizeOperands, hv]
    rw [optimizeOperand_eq hcpu hm hip.types.symm]
  unfold evalInstruction
  rw [hopt]
  unfold emit
  simp only [hm.not_quad, Bool.false_eq_true, if_false]
  show (⟨(evalOperand o env pc _ _).data, _ ++ (evalOperand o env pc _ _).complaints⟩ : Emission) = _
  simp only [evalOperand, hv, List.nil_append]
  rfl

/-- **An instruction has one operand at most.** -/
theorem Instruction.Parsed.cases {ip : Instruction L} (hip : ip.Parsed) :
    (∀ op ∈ ip.op, op.value = none) ∨ ∃ op e, ip.op = [op] ∧ op.value = some e := by
  have hknown := (documented_mnemonic hip.available).known
  rw [← hip.types] at hknown
  match hop : ip.op with
  | [] => exact .inl fun _ h => absurd h List.not_mem_nil
  | [op] =>
    cases hv : op.value with
    | none => exact .inl (List.forall_mem_singleton.mpr hv)
    | some e => exact .inr ⟨op, e, rfl, hv⟩
  | _ :: _ :: _ =>
    rw [hop] at hknown
    exact absurd hknown Bool.false_ne_true

/-- **An instruction without an operand**, or with the accumulator, as it is written. -/
theorem evalInstruction_implied {ip : Instruction L} (hip : ip.Parsed)
    (hv : ∀ op ∈ ip.op, op.value = none) :
    evalInstruction o env pc ip = ⟨[(mnemonic ip.code).opcode], []⟩ := by
  have hm := documented_mnemonic hip.available
  have hknown := hm.known
  rw [← hip.types] at hknown
  obtain ⟨code, ops⟩ := ip
  match ops, hip, hv, hknown with
  | [], hip, hv, _ =>
    show (⟨(emit o env pc ⟨code, []⟩).data, [] ++ (emit o env pc ⟨code, []⟩).complaints⟩ :
      Emission) = _
    unfold emit
    simp only [hm.not_quad]
    rfl
  | [op], hip, hv, _ =>
    have hnone := List.forall_mem_singleton.mp hv
    have haccu : op.type = .accu := (hip.value op List.mem_cons_self).mp hnone
    have hopt : optimizeInstruction o env pc ⟨code, [op]⟩ = ⟨code, [op]⟩ := by
      unfold optimizeInstruction
      simp only [optimizeOperands, hnone]
    have hcomplaints : optimizeComplaints o env pc ⟨code, [op]⟩ = [] := by
      unfold optimizeComplaints
      simp only [List.flatMap_cons, hnone]
      rfl
    unfold evalInstruction
    rw [hopt, hcomplaints]
    unfold emit
    simp only [hm.not_quad, Bool.false_eq_true, if_false]
    show (⟨(evalOperand o env pc _ op).data, [] ++ (evalOperand o env pc _ op).complaints⟩ :
      Emission) = _
    simp only [evalOperand, hnone]
    show (⟨[opcodeOf (mnemonic code) [op.type]], []⟩ : Emission) = _
    rw [haccu]
    rfl
  | _ :: _ :: _, _, _, hknown => exact absurd hknown Bool.false_ne_true

end Write

/-! ## What is found -/

section Bits

theorem toInt_setWidth_of_le {n : ℕ} (hn : n ≤ 32) {v : Taddr}
    (hlow : -(((2 ^ n : ℕ) : Int) / 2) ≤ v.toInt)
    (hhigh : v.toInt < (((2 ^ n : ℕ) : Int) + 1) / 2) : (v.setWidth n).toInt = v.toInt := by
  rw [BitVec.toInt_setWidth, ← Int.bmod_bmod_of_dvd (Nat.pow_dvd_pow 2 hn),
    ← BitVec.toInt_eq_toNat_bmod]
  exact Int.bmod_eq_of_le hlow hhigh

/-- A distance that a byte can hold. -/
theorem signExtend_setWidth {v : Taddr} (hlow : -0x80 ≤ v.toInt) (hhigh : v.toInt ≤ 0x7f) :
    (v.setWidth 8).signExtend 16 = v.setWidth 16 := by
  have hbyte : (v.setWidth 8).toInt = v.toInt :=
    toInt_setWidth_of_le (by decide) (by omega) (by omega)
  have hword : (v.setWidth 16).toInt = v.toInt :=
    toInt_setWidth_of_le (by decide) (by omega) (by omega)
  refine BitVec.eq_of_toInt_eq ?_
  rw [BitVec.toInt_signExtend_of_le (by decide), hbyte, hword]

/-- An address in the zero page. -/
theorem word_zero (b : Byte) : word 0 b = b.setWidth 16 := by
  refine BitVec.eq_of_toNat_eq ?_
  rw [BitVec.toNat_setWidth, Nat.mod_eq_of_lt (Nat.lt_trans b.isLt (by decide))]
  refine (BitVec.toNat_append 0 b).trans ?_
  rw [show (0 : Byte).toNat = 0 from rfl, Nat.zero_shiftLeft, Nat.zero_or]

/-- The two bytes that are written of a value. -/
theorem word_setval (v : Taddr) : word ((v >>> 8).setWidth 8) (v.setWidth 8) = v.setWidth 16 := by
  have hlo : lo (v.setWidth 16) = v.setWidth 8 := BitVec.setWidth_setWidth_of_le v (by decide)
  have hhi : hi (v.setWidth 16) = (v >>> 8).setWidth 8 := by
    refine BitVec.eq_of_toNat_eq ?_
    rw [toNat_hi, BitVec.toNat_setWidth, BitVec.toNat_setWidth, BitVec.toNat_ushiftRight,
      Nat.shiftRight_eq_div_pow]
    omega
  rw [← word_hi_lo (v.setWidth 16), hlo, hhi]

theorem low_byte (v : Taddr) : (v &&& 0xff).setWidth 8 = v.setWidth 8 := by
  rw [BitVec.setWidth_and]
  exact BitVec.and_allOnes

theorem low_word (v : Taddr) : (v &&& 0xffff).setWidth 16 = v.setWidth 16 := by
  rw [BitVec.setWidth_and]
  exact BitVec.and_allOnes

end Bits

section Found

variable {o : Options} {pc val : Taddr} {f : Selector} {x y : Byte}

/-- What a mode means with a value. -/
def denotes (o : Options) (f : Selector) (val : Taddr) (x y : Byte) : OpType → Access
  | .immed8 => .value ((select o f 0xff val).setWidth 8)
  | .abs => .memory (val.setWidth 16)
  | .absx => .memory (val.setWidth 16 + x.setWidth 16)
  | .absy => .memory (val.setWidth 16 + y.setWidth 16)
  | .dpage => .memory (word 0 (val.setWidth 8))
  | .dpagex => .memory (word 0 (val.setWidth 8 + x))
  | .dpagey => .memory (word 0 (val.setWidth 8 + y))
  | .indir => .pointer (val.setWidth 16)
  | .dpindx => .behind (val.setWidth 8 + x) 0
  | .dpindy => .behind (val.setWidth 8) y
  | .rel8 => .target (val.setWidth 16)
  | _ => .nothing

/-- The bytes that are written for an operand. -/
theorem writeOperand_mode {type : OpType} (hmode : type.mode.isSome) (haccu : type ≠ .accu)
    (val : Taddr) (oc : Byte) : writeOperand type val [oc] = oc :: setval type.opsize val := by
  cases type with
  | accu => exact absurd rfl haccu
  | immed8 | abs | absx | absy | dpage | dpagex | dpagey | indir | dpindx | dpindy | rel8 => rfl
  | _ => exact absurd hmode Bool.false_ne_true

/-- An address in the zero page, as it is written. -/
theorem operandValue_dpage (hdp : o.dpage = 0) {type : OpType} (htype : type.isDpage = true)
    (offs : ℕ) : (operandValue o pc offs f val type).setWidth 8 = val.setWidth 8 := by
  unfold operandValue
  rw [if_pos htype, hdp]
  split
  · exact low_byte val
  · rw [show val - (0 : BitVec 16).setWidth 32 = val from BitVec.sub_zero _]

/-- Any other address. -/
theorem operandValue_word {type : OpType} (hpage : type.isDpage = false)
    (htype : type.isWord = true) (offs : ℕ) :
    (operandValue o pc offs f val type).setWidth 16 = val.setWidth 16 := by
  unfold operandValue
  rw [if_neg (Bool.eq_false_iff.mp hpage), if_pos htype]
  split
  · exact low_word val
  · rfl

/-- The distance of a branch, as it is written. -/
theorem operandValue_rel8 : operandValue o pc 1 f val .rel8 = val - (pc + 2) := by
  show val - (pc + 1 + 1) = val - (pc + 2)
  rw [BitVec.add_assoc]
  rfl

/-- A branch that reaches goes to its destination. -/
theorem target_eq (h : near pc val = true) :
    pc.setWidth 16 + 2 + ((val - (pc + 2)).setWidth 8).signExtend 16 = val.setWidth 16 := by
  obtain ⟨hlow, hhigh⟩ := Bool.and_eq_true_iff.mp h
  have hsum : pc + 2 + (val - (pc + 2)) = val := by bv_omega
  rw [signExtend_setWidth (of_decide_eq_true hlow) (of_decide_eq_true hhigh),
    ← congrArg (BitVec.setWidth 16) hsum, BitVec.setWidth_add _ _ (by decide),
    BitVec.setWidth_add _ _ (by decide)]
  rfl

/-- **The processor finds what the mode means.** -/
theorem access_eq (hdp : o.dpage = 0) {type : OpType} {md : Mode} (hmode : type.mode = some md)
    (haccu : type ≠ .accu) (hreach : type = .rel8 → near pc val = true) :
    access (pc.setWidth 16) x y md (setval type.opsize (operandValue o pc 1 f val type))
      = denotes o f val x y type := by
  have hword : ∀ type : OpType, type.isDpage = false → type.isWord = true →
      word ((operandValue o pc 1 f val type >>> 8).setWidth 8)
        ((operandValue o pc 1 f val type).setWidth 8) = val.setWidth 16 :=
    fun type hpage htype => (word_setval _).trans (operandValue_word hpage htype 1)
  have hpage : ∀ type : OpType, type.isDpage = true →
      (operandValue o pc 1 f val type).setWidth 8 = val.setWidth 8 :=
    fun type htype => operandValue_dpage hdp htype 1
  cases type with
  | accu => exact absurd rfl haccu
  | immed8 =>
    obtain rfl := Option.some_inj.mp hmode
    rfl
  | abs =>
    obtain rfl := Option.some_inj.mp hmode
    exact congrArg Access.memory (hword .abs rfl rfl)
  | absx =>
    obtain rfl := Option.some_inj.mp hmode
    exact congrArg (fun w => Access.memory (w + x.setWidth 16)) (hword .absx rfl rfl)
  | absy =>
    obtain rfl := Option.some_inj.mp hmode
    exact congrArg (fun w => Access.memory (w + y.setWidth 16)) (hword .absy rfl rfl)
  | dpage =>
    obtain rfl := Option.some_inj.mp hmode
    exact congrArg (fun b => Access.memory (word 0 b)) (hpage .dpage rfl)
  | dpagex =>
    obtain rfl := Option.some_inj.mp hmode
    exact congrArg (fun b => Access.memory (word 0 (b + x))) (hpage .dpagex rfl)
  | dpagey =>
    obtain rfl := Option.some_inj.mp hmode
    exact congrArg (fun b => Access.memory (word 0 (b + y))) (hpage .dpagey rfl)
  | indir =>
    obtain rfl := Option.some_inj.mp hmode
    exact congrArg Access.pointer (hword .indir rfl rfl)
  | dpindx =>
    obtain rfl := Option.some_inj.mp hmode
    exact congrArg (fun b => Access.behind (b + x) 0) (hpage .dpindx rfl)
  | dpindy =>
    obtain rfl := Option.some_inj.mp hmode
    exact congrArg (fun b => Access.behind b y) (hpage .dpindy rfl)
  | rel8 =>
    obtain rfl := Option.some_inj.mp hmode
    refine congrArg Access.target ?_
    show pc.setWidth 16 + 2 + ((operandValue o pc 1 f val .rel8).setWidth 8).signExtend 16 = _
    rw [operandValue_rel8]
    exact target_eq (hreach rfl)
  | _ => exact absurd hmode.symm (Option.some_ne_none md)

/-- The index that is added to an address. -/
def OpType.index (x y : Byte) : OpType → Byte
  | absx => x
  | absy => y
  | _ => 0

/-- **What an operand means** in a listing, where `<` asks for an address in the zero page. -/
def Operand.meant (o : Options) (val : Taddr) (x y : Byte) (op : Operand L) : Access :=
  denotes o op.flags val x y
    (if op.type.isAbs = true ∧ op.flags.lo = true then op.type.toDpage else op.type)

/-- An index would have to carry: the address of an operand without a prefix is in the zero
page, where the instruction has a form for it, and with the index it is not. -/
structure Operand.Wraps (m : Mnemonic) (val : Taddr) (x y : Byte) (op : Operand L) : Prop where
  absolute : op.type.isAbs = true
  form : m.zpOpcode ≠ 0
  lo : op.flags.lo = false
  hi : op.flags.hi = false
  wa : op.flags.wa = false
  low : val.toNat < 0x100
  carry : 0x100 ≤ val.toNat + (op.type.index x y).toNat

theorem Operand.Wraps.zeroPaged (hdp : o.dpage = 0) {m : Mnemonic} {op : Operand L}
    (h : op.Wraps m val x y) : zeroPaged o m op.flags val = true := by
  have hin : o.inDpage val = true := by
    unfold Options.inDpage
    rw [hdp]
    exact Bool.and_eq_true_iff.mpr ⟨decide_eq_true (Nat.zero_le _),
      decide_eq_true (Nat.le_of_lt_succ h.low)⟩
  unfold Vasm.zeroPaged
  rw [h.lo, h.hi, h.wa, hin, bne_iff_ne.mpr h.form]
  rfl

/-- An index in the zero page carries where the sum is not in it. -/
theorem zero_page_add (hval : val.toNat < 0x100) (b : Byte) :
    word 0 (val.setWidth 8 + b) = val.setWidth 16 + b.setWidth 16
      ↔ ¬0x100 ≤ val.toNat + b.toNat := by
  have hb := b.isLt
  rw [word_zero, ← BitVec.toNat_inj]
  simp only [BitVec.toNat_setWidth, BitVec.toNat_add]
  omega

/-- **An address moved to the zero page** is the same, but for the index. -/
theorem denotes_toDpage {type : OpType} (htype : type.isAbs = true) (hmode : type.mode.isSome)
    (hval : val.toNat < 0x100) :
    denotes o f val x y type.toDpage = denotes o f val x y type
      ↔ ¬0x100 ≤ val.toNat + (type.index x y).toNat := by
  have hplain : word 0 (val.setWidth 8) = val.setWidth 16 := by
    simpa using (zero_page_add hval 0).mpr (Nat.not_le.mpr hval)
  cases type with
  | abs => exact iff_of_true (congrArg Access.memory hplain) (Nat.not_le.mpr hval)
  | absx => exact Access.memory.injEq _ _ ▸ zero_page_add hval x
  | absy => exact Access.memory.injEq _ _ ▸ zero_page_add hval y
  | absz => exact absurd hmode Bool.false_ne_true
  | _ => exact absurd htype Bool.false_ne_true

/-- **The opcode goes with the mode**: it is the one for the zero page where the operand is
put there. -/
theorem opcodeOf_settled {m : Mnemonic} (hm : m.Documented) {op : Operand L}
    (htype : m.operandType.map OpType.parsed = [op.type])
    (hfar : op.type = .rel8 → o.relaxes pc val = false) :
    m.zpOpcode ≠ 0 ∧ settledType o m pc val op = op.type.toDpage
        ∧ opcodeOf m [settledType o m pc val op] = m.zpOpcode
      ∨ settledType o m pc val op = op.type
        ∧ opcodeOf m [settledType o m pc val op] = m.opcode := by
  rcases settledType_cases hfar with ⟨habs, hzero, hset⟩ | ⟨-, hset⟩
  · refine .inl ⟨bne_iff_ne.mp (Bool.and_eq_true_iff.mp hzero).1, hset, ?_⟩
    rw [hset]
    cases htype' : op.type with
    | abs | absx | absy | absz => rfl
    | _ =>
      rw [htype'] at habs
      exact absurd habs Bool.false_ne_true
  · refine .inr ⟨hset, ?_⟩
    have hknown := hm.known
    rw [htype] at hknown
    obtain ⟨t, ht, hparsed⟩ := List.map_eq_singleton_iff.mp htype
    have hpage := hm.page t (ht ▸ List.mem_cons_self)
    rw [hset, ← hparsed]
    rw [← hparsed] at hknown
    cases t with
    | dpage => exact absurd rfl hpage.1
    | dpagex => exact absurd rfl hpage.2.1
    | dpagey => exact absurd rfl hpage.2.2
    | accu | immed | immedx | immed8 | indir | dpindx | dpindy | rel8 | abs | absx | absy => rfl
    | _ => exact absurd hknown Bool.false_ne_true

/-- **The mode of an operand is that of the opcode.** -/
theorem mode_settled {m : Mnemonic} (hm : m.Documented) {op : Operand L}
    (htype : m.operandType.map OpType.parsed = [op.type])
    (hfar : op.type = .rel8 → o.relaxes pc val = false)
    (hoc : opcodeOf m [settledType o m pc val op] ≠ 0) :
    mode (opcodeOf m [settledType o m pc val op]) = (settledType o m pc val op).mode := by
  have hopcode := hm.opcode
  have hzp := hm.zpOpcode
  rw [htype] at hopcode hzp
  rcases opcodeOf_settled hm htype hfar with ⟨hform, hset, hop⟩ | ⟨hset, hop⟩
  · rw [hop, hset]
    exact hzp hform
  · rw [hop] at hoc ⊢
    rw [hset]
    exact hopcode hoc

/-- An operand is where the listing means it to be, but for an index that would have to
carry. -/
theorem denotes_settled (hdp : o.dpage = 0) {m : Mnemonic} {op : Operand L}
    (hknown : op.type.mode.isSome) (hfar : op.type = .rel8 → o.relaxes pc val = false)
    (hlo : op.type.isAbs = true → op.flags.lo = true → m.zpOpcode ≠ 0) :
    denotes o op.flags val x y (settledType o m pc val op) = op.meant o val x y
      ↔ ¬op.Wraps m val x y := by
  unfold Operand.meant
  rcases settledType_cases hfar with ⟨habs, hzero, hset⟩ | ⟨hnot, hset⟩
  · rw [hset]
    obtain ⟨hform, hwhere⟩ := Bool.and_eq_true_iff.mp hzero
    by_cases hflag : op.flags.lo = true
    · rw [if_pos ⟨habs, hflag⟩]
      exact iff_of_true rfl fun h => absurd (h.lo.symm.trans hflag) Bool.false_ne_true
    · rw [if_neg fun h => hflag h.2]
      have hno := Bool.eq_false_iff.mpr hflag
      rw [hno, Bool.false_or] at hwhere
      obtain ⟨hbare, hin⟩ := Bool.and_eq_true_iff.mp hwhere
      obtain ⟨hhi, hwa⟩ := Bool.or_eq_false_iff.mp ((Bool.not_eq_true' _).mp hbare)
      have hval : val.toNat < 0x100 := by
        have hle := of_decide_eq_true (Bool.and_eq_true_iff.mp hin).2
        rw [hdp] at hle
        exact Nat.lt_succ_of_le hle
      rw [denotes_toDpage habs hknown hval]
      exact not_congr ⟨fun h => ⟨habs, bne_iff_ne.mp hform, hno, hhi, hwa, hval, h⟩,
        fun h => h.carry⟩
  · have hflag : ¬(op.type.isAbs = true ∧ op.flags.lo = true) := by
      rintro ⟨habs, hflag⟩
      refine hnot ⟨habs, ?_⟩
      unfold zeroPaged
      rw [hflag, Bool.true_or, bne_iff_ne.mpr (hlo habs hflag)]
      rfl
    rw [hset, if_neg hflag]
    exact iff_of_true rfl fun h => hnot ⟨h.absolute, h.zeroPaged hdp⟩

end Found

/-! ## A whole instruction -/

section Whole

variable {o : Options} {env : L → Taddr} {pc : Taddr}

namespace Instruction

/-- **What an instruction works on**, as the listing means it. -/
def meant (o : Options) (env : L → Taddr) (pc : Taddr) (x y : Byte) (ip : Instruction L) :
    Access :=
  match ip.op with
  | [op] => op.value.elim .nothing fun e => op.meant o (e.eval env pc) x y
  | _ => .nothing

/-- It has an index that would have to carry. -/
def Wraps (env : L → Taddr) (pc : Taddr) (x y : Byte) (ip : Instruction L) : Prop :=
  ∃ op ∈ ip.op, ∃ e, op.value = some e ∧ op.Wraps (mnemonic ip.code) (e.eval env pc) x y

/-- It is a branch that does not reach, and the assembler helps it. -/
def Relaxed (o : Options) (env : L → Taddr) (pc : Taddr) (ip : Instruction L) : Prop :=
  ∃ op ∈ ip.op, ∃ e, op.value = some e ∧ op.type = .rel8 ∧ o.relaxes pc (e.eval env pc) = true

end Instruction

/-- An instruction without an operand works on nothing but registers and flags. -/
theorem modes_implied {ip : Instruction L} (hip : ip.Parsed)
    (hnone : ∀ op ∈ ip.op, op.value = none) (x y : Byte) :
    OpType.modes (ip.op.map Operand.type) = some .implied
      ∧ ip.meant o env pc x y = .nothing := by
  have hknown := (documented_mnemonic hip.available).known
  rw [← hip.types] at hknown
  unfold Instruction.meant
  match hop : ip.op with
  | [] => exact ⟨rfl, rfl⟩
  | [op] =>
    have hmem : op ∈ ip.op := hop ▸ List.mem_cons_self
    have hval := hnone op hmem
    simp only [List.map_cons, (hip.value op hmem).mp hval, hval]
    exact ⟨rfl, rfl⟩
  | _ :: _ :: _ =>
    rw [hop] at hknown
    exact absurd hknown Bool.false_ne_true

/-- A branch that is written without an error reaches. -/
theorem near_of_clean {val : Taddr} (h : Clean (rangecheck (val - (pc + 2)) .rel8)) :
    near pc val = true := by
  by_contra hnear
  have hout : (val - (pc + 2)).toInt < -0x80 ∨ 0x7f < (val - (pc + 2)).toInt := by
    by_contra hin
    obtain ⟨hlow, hhigh⟩ := not_or.mp hin
    exact hnear (Bool.and_eq_true_iff.mpr ⟨decide_eq_true (Int.not_lt.mp hlow),
      decide_eq_true (Int.not_lt.mp hhigh)⟩)
  have hrange : rangecheck (val - (pc + 2)) .rel8 = [.cpu 6] := if_pos hout
  rw [hrange] at h
  exact absurd (h _ List.mem_cons_self) (by decide)

/-- To ask for the zero page where there is no form for it is an error. -/
theorem form_of_clean {code : ℕ} {op : Operand L} {e : Expr L} (hv : op.value = some e)
    (h : Clean (optimizeComplaints o env pc ⟨code, [op]⟩)) (habs : op.type.isAbs = true)
    (hlo : op.flags.lo = true) : (mnemonic code).zpOpcode ≠ 0 := by
  intro hform
  refine absurd (h (.cpu 10) ?_) (by decide)
  unfold optimizeComplaints
  rw [List.flatMap_cons, hv, habs, hlo, hform]
  simp

theorem mode_length {type : OpType} {md : Mode} (h : type.mode = some md) :
    type.opsize = md.length := by
  cases type <;> cases h <;> rfl

theorem mode_toDpage {type : OpType} (habs : type.isAbs = true) (hmode : type.mode.isSome) :
    type.toDpage.mode.isSome ∧ type.toDpage ≠ .accu := by
  cases type with
  | abs | absx | absy => exact ⟨rfl, OpType.noConfusion⟩
  | absz => exact absurd hmode Bool.false_ne_true
  | _ => exact absurd habs Bool.false_ne_true

/-- An operand that has a value is written, in a mode of the processor. -/
theorem settled_mode {code : ℕ} {op : Operand L} {e : Expr L}
    (hip : Instruction.Parsed ⟨code, [op]⟩) (hv : op.value = some e)
    (hfar : op.type = .rel8 → o.relaxes pc (e.eval env pc) = false) {type : OpType}
    (hset : settledType o (mnemonic code) pc (e.eval env pc) op = type) :
    type.mode.isSome ∧ type ≠ .accu := by
  have hknown : op.type.mode.isSome := by
    have hmodes := (documented_mnemonic hip.available).known
    rwa [← hip.types] at hmodes
  rcases settledType_cases hfar with ⟨habs, -, heq⟩ | ⟨-, heq⟩
  · rw [← hset, heq]
    exact mode_toDpage habs hknown
  · rw [← hset, heq]
    refine ⟨hknown, fun h => ?_⟩
    exact Option.some_ne_none e (hv.symm.trans ((hip.value op List.mem_cons_self).mpr h))

/-- An opcode that is written is one of the two of the row, and where the row has none, it is
not written. -/
theorem opcode_of_clean (hcpu : o.cpuType = M6502) {ip : Instruction L} (hip : ip.Parsed)
    (hclean : Clean (evalInstruction o env pc ip).complaints) (hfar : ¬ip.Relaxed o env pc) :
    ∃ oc rest, (evalInstruction o env pc ip).data = oc :: rest
      ∧ (oc = (mnemonic ip.code).zpOpcode ∧ oc ≠ 0
        ∨ oc = (mnemonic ip.code).opcode
          ∧ (oc = 0 → ∀ t ∈ (mnemonic ip.code).operandType, t ≠ .absx ∧ t ≠ .absy)) := by
  have hm := documented_mnemonic hip.available
  have htypes := hip.types
  rcases hip.cases with hnone | ⟨op, e, hop, hv⟩
  · rw [evalInstruction_implied hip hnone]
    refine ⟨_, [], rfl, .inr ⟨rfl, fun _ t ht => ?_⟩⟩
    obtain ⟨op, hmem, htype⟩ := List.mem_map.mp (htypes ▸ List.mem_map_of_mem ht)
    have haccu := (hip.value op hmem).mp (hnone op hmem)
    rw [htype] at haccu
    cases t <;> first | exact ⟨OpType.noConfusion, OpType.noConfusion⟩ | cases haccu
  · obtain ⟨code, ops⟩ := ip
    obtain rfl : ops = [op] := hop
    have hstay : op.type = .rel8 → o.relaxes pc (e.eval env pc) = false := fun hrel =>
      Bool.eq_false_iff.mpr fun h => hfar ⟨op, List.mem_cons_self, e, hv, hrel, h⟩
    obtain ⟨type, hset⟩ : ∃ type, settledType o (mnemonic code) pc (e.eval env pc) op = type :=
      ⟨_, rfl⟩
    obtain ⟨hmode, haccu⟩ := settled_mode hip hv hstay hset
    have hoc := opcodeOf_settled hm htypes.symm hstay
    rw [evalInstruction_operand hcpu hip hv hset rfl] at hclean ⊢
    rw [hset] at hoc
    refine ⟨_, _, writeOperand_mode hmode haccu _ _, ?_⟩
    rcases hoc with ⟨hform, -, hop⟩ | ⟨hsame, hop⟩
    · exact .inl ⟨hop, hop.symm ▸ hform⟩
    · refine .inr ⟨hop, fun hzero t ht => ?_⟩
      rw [hzero] at hclean
      have herror : Complaint.cpu 0 ∉ writeComplaints type [0] := fun hc =>
        absurd (hclean _ (List.mem_append_right _ (List.mem_append_right _ hc))) (by decide)
      have hparsed : t.parsed = type := by
        have hmem := List.mem_map_of_mem (f := OpType.parsed) ht
        rw [← htypes] at hmem
        rw [hsame]
        exact List.mem_singleton.mp hmem
      constructor
      · rintro rfl
        exact herror (hparsed ▸ List.mem_cons_self)
      · rintro rfl
        exact herror (hparsed ▸ List.mem_cons_self)

/-- Only `brk` has the opcode 0. -/
theorem brk_of_zero : ∀ m ∈ mnemonics, m.availableOn M6502 = true → m.opcode = 0 →
    (∀ t ∈ m.operandType, t ≠ .absx ∧ t ≠ .absy) → m.name = "brk" := by
  decide +kernel

/-- `lda $f0,x` -/
def ldaIndexed : Instruction Empty :=
  ⟨230, [⟨.absx, ⟨false, false, false, false⟩, some (.num 0xf0)⟩]⟩

theorem ldaIndexed_parsed : ldaIndexed.Parsed :=
  ⟨by decide +kernel, by decide +kernel, List.forall_mem_singleton.mpr (by decide)⟩

theorem ldaIndexed_eq :
    evalInstruction ⟨M6502, false, false, 0⟩ Empty.elim 0x8000 ldaIndexed = ⟨[0xb5, 0xf0], []⟩ := by
  decide +kernel

theorem ldaIndexed_clean : Clean
    (evalInstruction ⟨M6502, false, false, 0⟩ Empty.elim 0x8000 ldaIndexed).complaints := by
  rw [ldaIndexed_eq]
  exact List.forall_mem_nil _

theorem ldaIndexed_stays : ¬ldaIndexed.Relaxed ⟨M6502, false, false, 0⟩ Empty.elim 0x8000 := by
  rintro ⟨op, hop, e, -, htype, -⟩
  rw [List.mem_singleton.mp hop] at htype
  exact OpType.noConfusion htype

end Whole

end Vasm
