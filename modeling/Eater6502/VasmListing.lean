import Eater6502.VasmImage
import Eater6502.Prog

/-!
# Listings in the assembler

A listing of plain instructions, as `prog.s` is one, is assembled by the real assembler
(`vasm`) to what `Asm.Listing.assemble` says. Nothing is optimized in it: its addresses are
not in the zero page, so that every instruction keeps its size, and the passes come to the
one layout there is.
-/

namespace Vasm

open Isa Asm

variable {L : Type}

/-- How the makefile calls the assembler. -/
def defaults : Options := ⟨M6502, false, false, 0⟩

/-- No prefix. -/
def plain : Selector := ⟨false, false, false, false⟩

/-- A 16-bit address. -/
def taddr (w : Word) : Taddr := w.setWidth 32

/-- The first row with a name and some modes. -/
@[irreducible] def row (name : String) (types : List OpType) : ℕ :=
  mnemonics.findIdx fun m => m.name == name && m.operandType == types

/-! ## Instructions as they are parsed -/

/-- The expression for an address. A name that stands for a number is replaced by it. -/
def ofOperand : Asm.Operand L → Expr L
  | .label l => .label l
  | .addr w => .num (taddr w)

/-- An operand without a prefix. -/
def operandOf (type : OpType) (e : Expr L) : Operand L := ⟨type, plain, some e⟩

/-- **An instruction of a listing.** The accumulator and the index registers have 8 bits. -/
def ofInstr : Instr (Asm.Operand L) L → Instruction L
  | .ldaImm b => ⟨row "lda" [.immed], [operandOf .immed8 (.num (b.setWidth 32))]⟩
  | .ldaAbs a => ⟨row "lda" [.abs], [operandOf .abs (ofOperand a)]⟩
  | .ldaAbsX a => ⟨row "lda" [.absx], [operandOf .absx (ofOperand a)]⟩
  | .ldxImm b => ⟨row "ldx" [.immedx], [operandOf .immed8 (.num (b.setWidth 32))]⟩
  | .staAbs a => ⟨row "sta" [.abs], [operandOf .abs (ofOperand a)]⟩
  | .andImm b => ⟨row "and" [.immed], [operandOf .immed8 (.num (b.setWidth 32))]⟩
  | .txs => ⟨row "txs" [], []⟩
  | .inx => ⟨row "inx" [], []⟩
  | .pha => ⟨row "pha" [], []⟩
  | .pla => ⟨row "pla" [], []⟩
  | .jsr a => ⟨row "jsr" [.abs], [operandOf .abs (ofOperand a)]⟩
  | .rts => ⟨row "rts" [], []⟩
  | .jmpAbs a => ⟨row "jmp" [.abs], [operandOf .abs (ofOperand a)]⟩
  | .beq l => ⟨row "beq" [.rel8], [operandOf .rel8 (.label l)]⟩
  | .bne l => ⟨row "bne" [.rel8], [operandOf .rel8 (.label l)]⟩

/-- The addresses in an instruction. -/
def addresses : Instr (Asm.Operand L) L → List (Asm.Operand L)
  | .ldaAbs a | .ldaAbsX a | .staAbs a | .jsr a | .jmpAbs a => [a]
  | _ => []

/-- What a line puts into memory. -/
def ofItem : Item L → Content L
  | .instr i => .inst (ofInstr i)
  | .bytes bs => .data bs

/-- The atoms of a line. -/
def ofLine (ln : Line L) : List (Atom L) :=
  (ln.label.map fun l => ⟨1, .label l⟩).toList ++ [⟨1, ofItem ln.item⟩]

/-- **The section of a listing.** -/
def ofListing (p : Listing L) : Section L := ⟨taddr p.org, 0, [0], p.lines.flatMap ofLine⟩

/-! ## The table has their opcodes -/

/-- The rows of the instructions, and their opcodes. -/
def rows : List (String × List OpType × Byte) := [
  ("lda", [.immed], 0xa9),
  ("lda", [.abs], 0xad),
  ("lda", [.absx], 0xbd),
  ("ldx", [.immedx], 0xa2),
  ("sta", [.abs], 0x8d),
  ("and", [.immed], 0x29),
  ("txs", [], 0x9a),
  ("inx", [], 0xe8),
  ("pha", [], 0x48),
  ("pla", [], 0x68),
  ("jsr", [.abs], 0x20),
  ("rts", [], 0x60),
  ("jmp", [.abs], 0x4c),
  ("beq", [.rel8], 0xf0),
  ("bne", [.rel8], 0xd0)]

/-- What there is to know of a row. -/
def Plain (code : ℕ) (opcode : Byte) : Prop :=
  (mnemonic code).opcode = opcode ∧ (mnemonic code).available = M6502

instance (code : ℕ) (opcode : Byte) : Decidable (Plain code opcode) :=
  inferInstanceAs (Decidable (_ ∧ _))

theorem plain_rows : ∀ r ∈ rows, Plain (row r.1 r.2.1) r.2.2 := by decide +kernel

theorem plain_row {name : String} {types : List OpType} {opcode : Byte}
    (h : (name, types, opcode) ∈ rows) : Plain (row name types) opcode :=
  plain_rows (name, types, opcode) h

theorem plain_ofInstr (i : Instr (Asm.Operand L) L) : Plain (ofInstr i).code i.opcode := by
  cases i with
  | ldaImm => exact plain_row (show ("lda", [.immed], 0xa9) ∈ rows by decide +kernel)
  | ldaAbs => exact plain_row (show ("lda", [.abs], 0xad) ∈ rows by decide +kernel)
  | ldaAbsX => exact plain_row (show ("lda", [.absx], 0xbd) ∈ rows by decide +kernel)
  | ldxImm => exact plain_row (show ("ldx", [.immedx], 0xa2) ∈ rows by decide +kernel)
  | staAbs => exact plain_row (show ("sta", [.abs], 0x8d) ∈ rows by decide +kernel)
  | andImm => exact plain_row (show ("and", [.immed], 0x29) ∈ rows by decide +kernel)
  | txs => exact plain_row (show ("txs", [], 0x9a) ∈ rows by decide +kernel)
  | inx => exact plain_row (show ("inx", [], 0xe8) ∈ rows by decide +kernel)
  | pha => exact plain_row (show ("pha", [], 0x48) ∈ rows by decide +kernel)
  | pla => exact plain_row (show ("pla", [], 0x68) ∈ rows by decide +kernel)
  | jsr => exact plain_row (show ("jsr", [.abs], 0x20) ∈ rows by decide +kernel)
  | rts => exact plain_row (show ("rts", [], 0x60) ∈ rows by decide +kernel)
  | jmpAbs => exact plain_row (show ("jmp", [.abs], 0x4c) ∈ rows by decide +kernel)
  | beq => exact plain_row (show ("beq", [.rel8], 0xf0) ∈ rows by decide +kernel)
  | bne => exact plain_row (show ("bne", [.rel8], 0xd0) ∈ rows by decide +kernel)

/-! ## Nothing is optimized -/

/-- The addresses that are not in the zero page. -/
def Above (val : Taddr) : Prop := 0x100 ≤ val.toNat ∧ val.toNat < 0x10000

instance : DecidablePred Above := fun _ => inferInstanceAs (Decidable (_ ∧ _))

/-- An operand without a prefix, that is no address in the zero page. -/
structure Operand.Unoptimized (env : L → Taddr) (pc : Taddr) (op : Operand L) : Prop where
  flags : op.flags = plain
  above : op.type.isAbs = true → ∀ e, op.value = some e → 0x100 ≤ (e.eval env pc).toNat

theorem absType_plain (mnemo : Mnemonic) {val : Taddr} (hval : 0x100 ≤ val.toNat)
    (type : OpType) : absType defaults mnemo plain val type = type := by
  have hpage : defaults.inDpage val = false := by
    unfold Options.inDpage
    rw [decide_eq_false (show ¬val.toNat ≤ defaults.dpage.toNat + 0xff from Nat.not_le.mpr hval),
      Bool.and_false]
  unfold absType
  rw [hpage, show defaults.has WDC65816 = false from rfl]
  simp [plain]

/-- **Such operands stay as they are.** -/
theorem optimizeOperands_plain {mnemo : Mnemonic} {env : L → Taddr} {pc : Taddr} {code : ℕ}
    {ops : List (Operand L)} (h : ∀ op ∈ ops, op.Unoptimized env pc) :
    optimizeOperands defaults mnemo env pc code ops = ⟨code, ops⟩ := by
  induction ops with
  | nil => rfl
  | cons op ops ih =>
    have hrest := ih fun op' hop' => h op' (List.mem_cons_of_mem op hop')
    have hop := h op List.mem_cons_self
    unfold optimizeOperands
    cases hv : op.value with
    | none => simp only [hrest]
    | some e =>
      have hsame : optimizeOperand defaults mnemo pc (e.eval env pc) code op = (code, op.type) := by
        unfold optimizeOperand
        by_cases habs : op.type.isAbs = true
        · rw [if_pos habs, hop.flags, absType_plain mnemo (hop.above habs e hv)]
        · rw [if_neg habs]
          rfl
      simp only [hsame, hrest, ← hv]

/-- The addresses of an instruction that are no labels are not in the zero page. -/
def High (i : Instr (Asm.Operand L) L) : Prop := ∀ w, .addr w ∈ addresses i → 0x100 ≤ w.toNat

/-! ## The bytes of an instruction -/

section Bytes

variable {env : L → Taddr} {pc : Taddr} {code : ℕ} {opcode : Byte}

theorem emit_plain (h : Plain code opcode) {ops : List (Operand L)} (hone : ops.length ≤ 1)
    (hoc : opcodeOf (mnemonic code) (ops.map Operand.type) = opcode) :
    emit defaults env pc ⟨code, ops⟩ = ops.foldl (evalOperand defaults env pc) ⟨[opcode], []⟩ := by
  have hq : ((mnemonic code).available &&& M45GS02Q != 0) = false := by
    rw [h.2]
    rfl
  have horder : writtenOrder defaults ⟨code, ops⟩ = ops := by
    cases ops with
    | nil => rfl
    | cons op ops =>
      obtain rfl := List.length_eq_zero_iff.mp (Nat.le_zero.mp (Nat.le_of_succ_le_succ hone))
      rfl
  unfold emit
  simp only [hq, hoc, horder]
  rfl

theorem evalInstruction_none (h : Plain code opcode) :
    evalInstruction defaults env pc (⟨code, []⟩ : Instruction L) = ⟨[opcode], []⟩ := by
  have hopt : optimizeInstruction defaults env pc (⟨code, []⟩ : Instruction L) = ⟨code, []⟩ :=
    optimizeOperands_plain fun _ hop => absurd hop List.not_mem_nil
  have hemit : emit defaults env pc (⟨code, []⟩ : Instruction L) = ⟨[opcode], []⟩ :=
    emit_plain h (Nat.zero_le 1) h.1
  unfold evalInstruction
  rw [hopt, hemit]
  rfl

/-- With one operand, of a mode that has no opcode of its own. -/
theorem evalInstruction_one (h : Plain code opcode) {type : OpType} {e : Expr L}
    (htype : type = .abs ∨ type = .absx ∨ type = .immed8 ∨ type = .rel8)
    (hop : (operandOf type e).Unoptimized env pc) (he : e.complaints env pc = []) :
    evalInstruction defaults env pc ⟨code, [operandOf type e]⟩
      = evalOperand defaults env pc ⟨[opcode], []⟩ (operandOf type e) := by
  have hoc : opcodeOf (mnemonic code) [type] = opcode := by
    rw [← h.1]
    rcases htype with rfl | rfl | rfl | rfl <;> rfl
  have hnone : optimizeComplaints defaults env pc ⟨code, [operandOf type e]⟩ = [] := by
    show (e.complaints env pc ++ if _ then _ else _) ++ [] = []
    rw [he, List.nil_append, List.append_nil]
    split <;> rfl
  have hopt : optimizeInstruction defaults env pc ⟨code, [operandOf type e]⟩
      = ⟨code, [operandOf type e]⟩ :=
    optimizeOperands_plain fun _ hmem => List.mem_singleton.mp hmem ▸ hop
  have hemit : emit defaults env pc ⟨code, [operandOf type e]⟩
      = evalOperand defaults env pc ⟨[opcode], []⟩ (operandOf type e) :=
    emit_plain h (Nat.le_refl 1) hoc
  unfold evalInstruction
  rw [hopt, hemit, hnone]
  rfl

/-! ### Addresses, bytes and branches -/

theorem toNat_taddr (w : Word) : (taddr w).toNat = w.toNat := by
  rw [taddr, BitVec.toNat_setWidth, Nat.mod_eq_of_lt (Nat.lt_trans w.isLt (by decide))]

theorem toInt_setWidth32 {n : ℕ} (x : BitVec n) (hn : n < 31) :
    (x.setWidth 32).toInt = x.toNat := by
  have hlt : x.toNat < 2 ^ 31 :=
    Nat.lt_of_lt_of_le x.isLt (Nat.pow_le_pow_right (by decide) (Nat.le_of_lt hn))
  have hval : (x.setWidth 32).toNat = x.toNat := by
    rw [BitVec.toNat_setWidth, Nat.mod_eq_of_lt (Nat.lt_trans hlt (by decide))]
  rw [BitVec.toInt_eq_toNat_of_lt (by rw [hval]; omega), hval]

/-- A word, low byte first. -/
theorem setval_taddr (w : Word) : setval 2 (taddr w) = [lo w, hi w] := by
  have hlo : (taddr w).setWidth 8 = lo w := BitVec.setWidth_setWidth_of_le w (by decide)
  have hhi : (taddr w >>> 8).setWidth 8 = hi w := by
    have hlt := w.isLt
    refine BitVec.eq_of_toNat_eq ?_
    rw [BitVec.toNat_setWidth, BitVec.toNat_ushiftRight, toNat_taddr, toNat_hi,
      Nat.shiftRight_eq_div_pow]
    omega
  rw [setval, setval, setval, hlo, hhi]

theorem rangecheck_taddr {type : OpType} (htype : type.isWord = true)
    (hpage : type.isDpage = false) (w : Word) : rangecheck (taddr w) type = [] := by
  have hlt := w.isLt
  unfold rangecheck
  rw [hpage, htype, taddr, toInt_setWidth32 w (by decide)]
  exact if_neg (show ¬((w.toNat : Int) < 0 ∨ 0xffff < (w.toNat : Int)) by omega)

/-- An address in an instruction. -/
theorem evalInstruction_addr (h : Plain code opcode) {type : OpType} {e : Expr L} {w : Word}
    (htype : type = .abs ∨ type = .absx) (hopcode : opcode ≠ 0) (hw : 0x100 ≤ w.toNat)
    (hval : e.eval env pc = taddr w) (he : e.complaints env pc = []) :
    evalInstruction defaults env pc ⟨code, [operandOf type e]⟩ = ⟨[opcode, lo w, hi w], []⟩ := by
  have hop : (operandOf type e).Unoptimized env pc := by
    refine ⟨rfl, fun _ e' he' => ?_⟩
    rw [← Option.some_inj.mp he', hval, toNat_taddr]
    exact hw
  have hwrite : writeOperand type (taddr w) [opcode] = [opcode, lo w, hi w] := by
    rcases htype with rfl | rfl <;> exact congrArg ([opcode] ++ ·) (setval_taddr w)
  have hrange : rangecheck (taddr w) type = [] := by
    rcases htype with rfl | rfl <;> exact rangecheck_taddr rfl rfl w
  have hcomplaints : writeComplaints type [opcode] = [] := by
    rcases htype with rfl | rfl
    · rfl
    · exact if_neg fun h0 => hopcode (Option.some_inj.mp h0)
  have hoperand : operandValue defaults pc 1 plain (taddr w) type = taddr w := by
    rcases htype with rfl | rfl <;> rfl
  have hignored : prefixIgnored defaults plain type = [] := by
    rcases htype with rfl | rfl <;> rfl
  rw [evalInstruction_one h (htype.imp_right Or.inl) hop he]
  show Emission.mk (writeOperand type (operandValue defaults pc 1 plain (e.eval env pc) type) [opcode])
    ([] ++ e.complaints env pc ++ prefixIgnored defaults plain type
      ++ rangecheck (operandValue defaults pc 1 plain (e.eval env pc) type) type
      ++ writeComplaints type [opcode]) = _
  rw [hval, hoperand, hwrite, he, hignored, hrange, hcomplaints]
  rfl

/-- A byte. -/
theorem evalInstruction_immed (h : Plain code opcode) (b : Byte) :
    evalInstruction defaults env pc
      (⟨code, [operandOf .immed8 (.num (b.setWidth 32))]⟩ : Instruction L)
      = ⟨[opcode, b], []⟩ := by
  have hlt := b.isLt
  have hrange : rangecheck (b.setWidth 32) .immed8 = [] := by
    unfold rangecheck
    rw [toInt_setWidth32 b (by decide)]
    exact if_neg (show ¬((b.toNat : Int) < -0x80 ∨ 0xff < (b.toNat : Int)) by omega)
  have hb : (b.setWidth 32).setWidth 8 = b :=
    (BitVec.setWidth_setWidth_of_le b (by decide)).trans (BitVec.setWidth_eq b)
  rw [evalInstruction_one h (.inr (.inr (.inl rfl))) ⟨rfl, fun habs => absurd habs.symm
    Bool.true_eq_false.mp⟩ rfl]
  show Emission.mk [opcode, (b.setWidth 32).setWidth 8] (rangecheck (b.setWidth 32) .immed8 ++ []) = _
  rw [hrange, hb]
  rfl

/-- A branch to a label that is near enough. -/
theorem evalInstruction_branch (h : Plain code opcode) {l : L} {d : Byte}
    (hd : env l - (pc + 2) = d.signExtend 32) :
    evalInstruction defaults env pc ⟨code, [operandOf .rel8 (.label l)]⟩ = ⟨[opcode, d], []⟩ := by
  have hlo := d.le_toInt
  have hhi := d.toInt_lt
  have hval : operandValue defaults pc 1 plain (env l) .rel8 = d.signExtend 32 := by
    rw [← hd]
    show env l - (pc + 1 + 1) = _
    bv_omega
  have hrange : rangecheck (d.signExtend 32) .rel8 = [] := by
    unfold rangecheck
    rw [BitVec.toInt_signExtend_of_le (by decide)]
    exact if_neg (show ¬(d.toInt < -0x80 ∨ 0x7f < d.toInt) by omega)
  have hb : (d.signExtend 32).setWidth 8 = d := by
    refine BitVec.eq_of_getLsbD_eq fun i hi => ?_
    rw [BitVec.getLsbD_setWidth, BitVec.getLsbD_signExtend]
    simp [hi, Nat.lt_of_lt_of_le hi (show 8 ≤ 32 by decide)]
  rw [evalInstruction_one h (.inr (.inr (.inr rfl))) ⟨rfl, fun habs => absurd habs
    Bool.false_ne_true⟩ rfl]
  show Emission.mk [opcode, (operandValue defaults pc 1 plain (env l) .rel8).setWidth 8]
    (rangecheck (operandValue defaults pc 1 plain (env l) .rel8) .rel8 ++ []) = _
  rw [hval, hrange, hb]
  rfl

end Bytes

/-! ## An instruction in the two assemblers -/

section Instructions

variable {env : L → Taddr} {pc : Taddr} {i : Instr (Asm.Operand L) L}

/-- The addresses of an instruction are not in the zero page. -/
theorem above_ofOperand (henv : ∀ l, Above (env l)) (hi : High i) {a : Asm.Operand L}
    (ha : a ∈ addresses i) : 0x100 ≤ ((ofOperand a).eval env pc).toNat := by
  cases a with
  | label l => exact (henv l).1
  | addr w =>
    show 0x100 ≤ (taddr w).toNat
    rw [toNat_taddr]
    exact hi w ha

theorem unoptimized_ofInstr (henv : ∀ l, Above (env l)) (hi : High i) :
    ∀ op ∈ (ofInstr i).op, op.Unoptimized env pc := by
  intro op hop
  cases i with
  | txs | inx | pha | pla | rts => exact absurd hop List.not_mem_nil
  | ldaImm | ldxImm | andImm | beq | bne =>
    rw [List.mem_singleton.mp hop]
    exact ⟨rfl, fun habs => absurd habs Bool.false_ne_true⟩
  | ldaAbs | ldaAbsX | staAbs | jsr | jmpAbs =>
    rw [List.mem_singleton.mp hop]
    refine ⟨rfl, fun _ e he => ?_⟩
    rw [← Option.some_inj.mp he]
    exact above_ofOperand henv hi List.mem_cons_self

/-- **An instruction takes as many bytes as the listing says**, wherever the labels are. -/
theorem instructionSize_ofInstr (henv : ∀ l, Above (env l)) (hi : High i) :
    instructionSize defaults env pc (ofInstr i) = i.size := by
  have hopt : optimizeInstruction defaults env pc (ofInstr i) = ofInstr i :=
    optimizeOperands_plain (unoptimized_ofInstr henv hi)
  rw [instructionSize, hopt, getInstSize, (plain_ofInstr i).2]
  cases i <;> rfl

theorem opcode_ne_zero (i : Instr (Asm.Operand L) L) : i.opcode ≠ 0 := by
  cases i <;> simp [Instr.opcode]

theorem complaints_ofOperand (a : Asm.Operand L) : (ofOperand a).complaints env pc = [] := by
  cases a <;> rfl

/-- **An instruction becomes the bytes that the listing says.** -/
theorem evalInstruction_ofInstr {f : Asm.Operand L → Option Word} {g : L → Option Byte}
    {i' : Instr Word Byte} (hi : i.resolve f g = some i')
    (hf : ∀ a ∈ addresses i, ∀ w, f a = some w →
      (ofOperand a).eval env pc = taddr w ∧ 0x100 ≤ w.toNat)
    (hg : ∀ l d, i = .beq l ∨ i = .bne l → g l = some d → env l - (pc + 2) = d.signExtend 32) :
    evalInstruction defaults env pc (ofInstr i) = ⟨i'.encode, []⟩ := by
  have hplain := plain_ofInstr i
  cases i with
  | txs | inx | pha | pla | rts =>
    rw [← Option.some_inj.mp hi]
    exact evalInstruction_none hplain
  | ldaImm b | ldxImm b | andImm b =>
    rw [← Option.some_inj.mp hi]
    exact evalInstruction_immed hplain b
  | ldaAbs a | staAbs a | jsr a | jmpAbs a =>
    obtain ⟨w, hw, rfl⟩ := Option.map_eq_some_iff.mp hi
    obtain ⟨hval, hlow⟩ := hf a List.mem_cons_self w hw
    exact evalInstruction_addr hplain (.inl rfl) (opcode_ne_zero _) hlow hval (complaints_ofOperand a)
  | ldaAbsX a =>
    obtain ⟨w, hw, rfl⟩ := Option.map_eq_some_iff.mp hi
    obtain ⟨hval, hlow⟩ := hf a List.mem_cons_self w hw
    exact evalInstruction_addr hplain (.inr rfl) (opcode_ne_zero _) hlow hval (complaints_ofOperand a)
  | beq l =>
    obtain ⟨d, hd, rfl⟩ := Option.map_eq_some_iff.mp hi
    exact evalInstruction_branch hplain (hg l d (.inl rfl) hd)
  | bne l =>
    obtain ⟨d, hd, rfl⟩ := Option.map_eq_some_iff.mp hi
    exact evalInstruction_branch hplain (hg l d (.inr rfl) hd)

end Instructions

/-! ## The layout of a listing -/

/-- A place in a section of a listing. -/
def at16 (n : ℕ) : Pos := ⟨BitVec.ofNat 32 n, 0⟩

theorem skip_at16 (n k : ℕ) : (at16 n).skip k = at16 (n + k) := by
  unfold Pos.skip at16
  rw [BitVec.ofNat_add]

theorem balign_one (pc : Taddr) : balign pc 1 = 0 := if_pos (.inr BitVec.srem_one)

theorem place_label (l : L) (n : ℕ) : Atom.place ⟨1, .label l⟩ (at16 n) = at16 n := by
  unfold Atom.place pcalign
  rw [balign_one]
  exact Pos.ext (BitVec.add_zero _) rfl

theorem place_ofItem (it : Item L) (n : ℕ) : Atom.place ⟨1, ofItem it⟩ (at16 n) = at16 n := by
  unfold Atom.place pcalign
  rw [balign_one]
  cases it <;> exact Pos.ext (BitVec.add_zero _) rfl

/-- **What a listing has to be** so that it is assembled to some bytes, all of it in memory
and nothing of it in the zero page. -/
structure Assembles (p : Listing L) [DecidableEq L] (bs : List Byte) : Prop where
  low : 0x200 ≤ p.org.toNat
  high : p.org.toNat + offset p.lines p.lines.length < 0x10000
  above : ∀ ln ∈ p.lines, ∀ i, ln.item = .instr i → High i
  labels : (p.lines.filterMap Line.label).Nodup
  assemble : p.assemble = some bs

section Layout

variable {env : L → Taddr} {n : ℕ}

theorem atomSize_ofItem (henv : ∀ l, Above (env l)) {it : Item L}
    (hit : ∀ i, it = .instr i → High i) (p : Pos) (hp : p.dpage = 0) :
    atomSize defaults env p (ofItem it) = it.size := by
  have hat : defaults.at p = defaults := by
    unfold Options.at
    rw [hp]
    rfl
  cases it with
  | instr i =>
    show instructionSize (defaults.at p) env p.pc (ofInstr i) = i.size
    rw [hat]
    exact instructionSize_ofInstr henv (hit i rfl)
  | bytes bs => rfl

/-- A line in the layout: all its atoms are in one place. -/
theorem placed_line (henv : ∀ l, Above (env l)) {ln : Line L}
    (hln : ∀ i, ln.item = .instr i → High i) (as : List (Atom L)) :
    placed defaults env (at16 n) (ofLine ln ++ as)
      = ((ofLine ln).map fun a => (at16 n, a))
        ++ placed defaults env (at16 (n + ln.item.size)) as := by
  have hitem : placed defaults env (at16 n) (⟨1, ofItem ln.item⟩ :: as)
      = (at16 n, ⟨1, ofItem ln.item⟩) :: placed defaults env (at16 (n + ln.item.size)) as := by
    rw [placed, place_ofItem, atomSize_ofItem henv hln _ rfl, skip_at16]
  unfold ofLine
  cases ln.label with
  | none => exact hitem
  | some l =>
    have hskip : (at16 n).skip (atomSize defaults env (at16 n) (.label l)) = at16 n :=
      skip_at16 n 0
    show placed defaults env (at16 n) (⟨1, .label l⟩ :: ⟨1, ofItem ln.item⟩ :: as) = _
    rw [placed, place_label, hskip, hitem]
    rfl

/-- The lines in the layout. -/
theorem placed_lines (henv : ∀ l, Above (env l)) {lines : List (Line L)}
    (hhigh : ∀ ln ∈ lines, ∀ i, ln.item = .instr i → High i) {q : Pos} {a : Atom L}
    (h : (q, a) ∈ placed defaults env (at16 n) (lines.flatMap ofLine)) :
    ∃ j ln, lines[j]? = some ln ∧ q = at16 (n + offset lines j) ∧ a ∈ ofLine ln := by
  induction lines generalizing n with
  | nil => exact absurd h List.not_mem_nil
  | cons ln lines ih =>
    rw [List.flatMap_cons, placed_line henv (hhigh ln List.mem_cons_self)] at h
    rcases List.mem_append.mp h with h | h
    · obtain ⟨b, hb, heq⟩ := List.mem_map.mp h
      obtain ⟨rfl, rfl⟩ := Prod.mk.inj heq
      exact ⟨0, ln, rfl, rfl, hb⟩
    · obtain ⟨j, ln', hj, hq, ha⟩ := ih (fun ln' hln' => hhigh ln' (List.mem_cons_of_mem ln hln')) h
      refine ⟨j + 1, ln', hj, ?_, ha⟩
      rw [hq, offset_cons_succ, Nat.add_assoc]

/-- An atom of a line is its label, or what it puts into memory. -/
theorem mem_ofLine {a : Atom L} {ln : Line L} (ha : a ∈ ofLine ln) :
    (∃ l, ln.label = some l ∧ a = ⟨1, .label l⟩) ∨ a = ⟨1, ofItem ln.item⟩ := by
  rcases List.mem_append.mp ha with ha | ha
  · obtain ⟨l, hl, rfl⟩ := Option.map_eq_some_iff.mp (Option.mem_toList.mp ha)
    exact .inl ⟨l, hl, rfl⟩
  · exact .inr (List.mem_singleton.mp ha)

/-- A label stands in front of its line. -/
theorem label_of_mem_ofLine {a : Atom L} {ln : Line L} {l : L} (ha : a ∈ ofLine ln)
    (hl : a.content = .label l) : ln.label = some l := by
  rcases mem_ofLine ha with ⟨l', hl', rfl⟩ | rfl
  · rw [hl', Content.label.inj hl]
  · revert hl
    show ofItem ln.item = .label l → _
    cases ln.item with
    | instr i => exact fun hl => absurd hl (by simp [ofItem])
    | bytes bs => exact fun hl => absurd hl (by simp [ofItem])

end Layout

section Symbols

variable [DecidableEq L] {p : Listing L} {bs : List Byte}

/-- The line of a label that there is once. -/
theorem index_of_label {lines : List (Line L)} (hn : (lines.filterMap Line.label).Nodup) {j : ℕ}
    {ln : Line L} {l : L} (hj : lines[j]? = some ln) (hl : ln.label = some l) :
    (lines.findIdx? fun ln => ln.label == some l) = some j := by
  induction lines generalizing j with
  | nil => exact absurd hj (by simp)
  | cons ln' lines ih =>
    rw [List.findIdx?_cons]
    cases j with
    | zero =>
      rw [← Option.some_inj.mp hj] at hl
      rw [hl, beq_self_eq_true, if_pos rfl]
    | succ j =>
      have hmem : l ∈ lines.filterMap Line.label :=
        List.mem_filterMap.mpr ⟨ln, List.mem_of_getElem? hj, hl⟩
      have hne : (ln'.label == some l) = false := by
        refine beq_eq_false_iff_ne.mpr fun heq => ?_
        rw [List.filterMap_cons_some heq] at hn
        exact (List.nodup_cons.mp hn).1 hmem
      have hn' : (lines.filterMap Line.label).Nodup :=
        hn.sublist ((List.sublist_cons_self ln' lines).filterMap Line.label)
      rw [hne, if_neg Bool.false_ne_true, ih hn' hj]
      rfl

namespace Assembles

variable (h : Assembles p bs)
include h

/-- An address in the listing. -/
theorem toNat_addr {j : ℕ} (hj : j ≤ p.lines.length) :
    (p.addr j).toNat = p.org.toNat + offset p.lines j := by
  have hle : offset p.lines j ≤ offset p.lines p.lines.length := by
    obtain ⟨k, hk⟩ := Nat.exists_eq_add_of_le hj
    rw [hk, offset_add]
    exact Nat.le_add_right _ _
  have hhigh := h.high
  rw [Listing.addr, BitVec.toNat_add, BitVec.toNat_ofNat]
  omega

/-- The place of a line. -/
theorem at16_eq {j : ℕ} (hj : j ≤ p.lines.length) :
    (at16 (p.org.toNat + offset p.lines j)).pc = taddr (p.addr j) := by
  refine BitVec.eq_of_toNat_eq ?_
  have hlt := (p.addr j).isLt
  rw [toNat_taddr, h.toNat_addr hj] at *
  show (BitVec.ofNat 32 _).toNat = _
  rw [BitVec.toNat_ofNat]
  omega

theorem symbol_of_label {j : ℕ} {ln : Line L} {l : L} (hj : p.lines[j]? = some ln)
    (hl : ln.label = some l) : p.symbol l = some (p.addr j) := by
  rw [Listing.symbol, Listing.index, index_of_label h.labels hj hl]
  rfl

omit h in
/-- A label has the address of its line. -/
theorem exists_of_symbol {l : L} {w : Word} (hw : p.symbol l = some w) :
    ∃ j ln, p.lines[j]? = some ln ∧ ln.label = some l ∧ w = p.addr j := by
  obtain ⟨j, hj, rfl⟩ := Option.map_eq_some_iff.mp hw
  obtain ⟨hlt, hp, -⟩ := List.findIdx?_eq_some_iff_getElem.mp hj
  exact ⟨j, p.lines[j], List.getElem?_eq_getElem hlt, beq_iff_eq.mp hp, rfl⟩

theorem le_symbol {l : L} {w : Word} (hw : p.symbol l = some w) : 0x200 ≤ w.toNat := by
  obtain ⟨j, ln, hj, -, rfl⟩ := exists_of_symbol hw
  rw [h.toNat_addr (Nat.le_of_lt (List.getElem?_eq_some_iff.mp hj).1)]
  exact Nat.le_trans h.low (Nat.le_add_right _ _)

end Assembles

/-- **The values of the labels**, as the listing has them. -/
def values (p : Listing L) (l : L) : Taddr := taddr ((p.symbol l).getD p.org)

/-- The labels of a listing have the values it gives them. -/
def Agrees (p : Listing L) (env : L → Taddr) : Prop :=
  ∀ l w, p.symbol l = some w → env l = taddr w

theorem agrees_values (p : Listing L) : Agrees p (values p) := by
  intro l w hw
  rw [values, hw]
  rfl

namespace Assembles

variable (h : Assembles p bs)
include h

theorem above_values (l : L) : Above (values p l) := by
  have hlow : 0x200 ≤ ((p.symbol l).getD p.org).toNat := by
    cases hw : p.symbol l with
    | none => exact h.low
    | some w => exact h.le_symbol hw
  have hlt := ((p.symbol l).getD p.org).isLt
  unfold Above values
  rw [toNat_taddr]
  omega

omit [DecidableEq L] h in
theorem start_ofListing : (ofListing p).start = at16 p.org.toNat := by
  refine Pos.ext (BitVec.eq_of_toNat_eq ?_) rfl
  have hlt := p.org.isLt
  show (taddr p.org).toNat = (BitVec.ofNat 32 _).toNat
  rw [toNat_taddr, BitVec.toNat_ofNat]
  omega

/-- **The layout of the listing is consistent.** -/
theorem settled : Settled defaults (values p) (ofListing p) := by
  intro q a hqa l hl
  rw [start_ofListing] at hqa
  obtain ⟨j, ln, hj, rfl, ha⟩ := placed_lines h.above_values h.above hqa
  rw [h.at16_eq (Nat.le_of_lt (List.getElem?_eq_some_iff.mp hj).1)]
  exact agrees_values p l _ (h.symbol_of_label hj (label_of_mem_ofLine ha hl))

/-- **Its sizes are fixed.** -/
theorem rigid : Rigid defaults Above (values p) (ofListing p).start (ofListing p).atoms := by
  intro q a hqa env henv
  rw [start_ofListing] at hqa
  obtain ⟨j, ln, hj, rfl, ha⟩ := placed_lines h.above_values h.above hqa
  rcases mem_ofLine ha with ⟨l, -, rfl⟩ | rfl
  · rfl
  · have hln := h.above ln (List.mem_of_getElem? hj)
    rw [atomSize_ofItem henv hln _ rfl, atomSize_ofItem h.above_values hln _ rfl]

/-! ### The bytes -/

variable {env : L → Taddr} (henv : Agrees p env)
include henv

omit [DecidableEq L] h henv in
/-- The distance of two addresses that are not so far apart around the end of memory. -/
theorem taddr_sub {n w : Word} {d : Byte} (hn : 0x200 ≤ n.toNat) (hw : 0x200 ≤ w.toNat)
    (hd : n + d.signExtend 16 = w) : taddr w - taddr n = d.signExtend 32 := by
  have hval := congrArg BitVec.toNat hd
  have hnlt := n.isLt
  have hdlt := d.isLt
  have hwidth : ∀ v, 8 ≤ v → (d.setWidth v).toNat = d.toNat := fun v hv => by
    rw [BitVec.toNat_setWidth, Nat.mod_eq_of_lt
      (Nat.lt_of_lt_of_le d.isLt (Nat.pow_le_pow_right (by decide) hv))]
  rw [BitVec.toNat_add, BitVec.toNat_signExtend, hwidth 16 (by decide)] at hval
  refine BitVec.eq_of_toNat_eq ?_
  rw [BitVec.toNat_sub, toNat_taddr, toNat_taddr, BitVec.toNat_signExtend, hwidth 32 (by decide)]
  by_cases hmsb : d.msb = true
  · rw [hmsb] at hval ⊢
    have hge := BitVec.msb_eq_true_iff_two_mul_ge.mp hmsb
    simp only [if_true] at hval ⊢
    omega
  · rw [Bool.eq_false_iff.mpr hmsb] at hval ⊢
    simp only [Bool.false_eq_true, if_false] at hval ⊢
    omega

/-- A branch has the displacement in the file that it has in the listing. -/
theorem branch {i : ℕ} (hi : i ≤ p.lines.length) {l : L} {d : Byte}
    (hd : p.displacement (p.addr i) l = some d) : env l - taddr (p.addr i) = d.signExtend 32 := by
  obtain ⟨w, hw, hif⟩ := Option.bind_eq_some_iff.mp hd
  split at hif
  · rename_i hreach
    obtain rfl := Option.some_inj.mp hif
    rw [henv l w hw]
    refine taddr_sub ?_ (h.le_symbol hw) hreach
    rw [h.toNat_addr hi]
    exact Nat.le_trans h.low (Nat.le_add_right _ _)
  · exact absurd hif (Option.some_ne_none _).symm

/-- What an operand stands for. -/
theorem eval_ofOperand {pc : Taddr} {ln : Line L} (hln : ln ∈ p.lines)
    {i : Instr (Asm.Operand L) L} (hi : ln.item = .instr i) {a : Asm.Operand L}
    (ha : a ∈ addresses i) {w : Word} (hw : p.operand a = some w) :
    (ofOperand a).eval env pc = taddr w ∧ 0x100 ≤ w.toNat := by
  cases a with
  | label l => exact ⟨henv l w hw, Nat.le_trans (by decide) (h.le_symbol hw)⟩
  | addr w' =>
    obtain rfl := Option.some_inj.mp hw
    exact ⟨rfl, h.above ln hln i hi w' ha⟩

/-- **A line becomes the bytes that the listing says.** -/
theorem emission_ofItem {i : ℕ} {ln : Line L} {e : List Byte} (hi : p.lines[i]? = some ln)
    (he : p.emit i ln.item = some e) :
    emission defaults env (at16 (p.org.toNat + offset p.lines i)) (ofItem ln.item) = ⟨e, []⟩ := by
  have hlt := (List.getElem?_eq_some_iff.mp hi).1
  cases hit : ln.item with
  | bytes bs =>
    rw [hit] at he
    rw [← Option.some_inj.mp he]
    rfl
  | instr ins =>
    rw [hit] at he
    obtain ⟨ins', hins', rfl⟩ := Option.map_eq_some_iff.mp he
    show evalInstruction defaults env (at16 _).pc (ofInstr ins) = _
    refine evalInstruction_ofInstr hins'
      (fun a ha w hw => h.eval_ofOperand henv (List.mem_of_getElem? hi) hit ha hw) ?_
    intro l d hbranch hd
    -- a branch has two bytes
    have hsize : ins.size = 2 := by
      rcases hbranch with rfl | rfl <;> rfl
    have hnext : (at16 (p.org.toNat + offset p.lines i)).pc + 2 = taddr (p.addr (i + 1)) := by
      rw [← h.at16_eq hlt, offset_succ hi, hit]
      show _ + BitVec.ofNat 32 2 = BitVec.ofNat 32 (_ + (_ + ins.size))
      rw [hsize, ← Nat.add_assoc, BitVec.ofNat_add (_ + _) 2]
      rfl
    rw [hnext]
    exact h.branch henv hlt hd

end Assembles

end Symbols

end Vasm
