import Eater6502.VasmOperand

/-!
# Branches that do not reach

A branch reaches 128 bytes back and 127 bytes ahead. Where its destination is farther away
the assembler gives up, unless it was asked to help (`clean_branch`): then it writes a branch
on the opposite condition over a jump. As the jump makes the instruction longer, others may
not reach any more, which is why the passes go on until nothing changes.

In the end every branch in the file goes where the listing says, by one instruction, or by two
where it was helped and is taken, and when it is not taken to the instruction behind it
(`branches_reach`).
-/

namespace Vasm

open Isa Cpu Run

variable {L : Type}

/-! ## The branches in the table -/

/-- What the branches are called, and when they are taken. -/
def branchesOn : String → Option Condition
  | "bpl" => some ⟨.negative, false⟩
  | "bmi" => some ⟨.negative, true⟩
  | "bvc" => some ⟨.overflow, false⟩
  | "bvs" => some ⟨.overflow, true⟩
  | "bcc" | "blt" => some ⟨.carry, false⟩
  | "bcs" | "bge" => some ⟨.carry, true⟩
  | "bne" => some ⟨.zero, false⟩
  | "beq" => some ⟨.zero, true⟩
  | _ => none

/-- **The branches have the opcodes of their conditions.** -/
theorem branch_rows : ∀ m ∈ mnemonics, m.availableOn M6502 = true → m.operandType = [.rel8] →
    (branchesOn m.name).isSome = true ∧ condition m.opcode = branchesOn m.name := by
  decide +kernel

/-! ## What is written of a branch -/

section Write

variable {o : Options} {env : L → Taddr} {pc : Taddr} {code : ℕ} {op : Operand L} {e : Expr L}

theorem clean_append {cs cs' : List Complaint} : Clean (cs ++ cs') ↔ Clean cs ∧ Clean cs' :=
  List.forall_mem_append

/-- A warning is no error. -/
theorem clean_warning {c : Complaint} (hc : c.isError = false) {P : Prop} [Decidable P] :
    Clean (if P then [c] else []) := by
  split
  · exact List.forall_mem_singleton.mpr hc
  · exact List.forall_mem_nil _

theorem clean_prefixIgnored (f : Selector) (type : OpType) : Clean (prefixIgnored o f type) :=
  clean_warning rfl

/-- A destination that does not fit into an address is written as far as it does. -/
theorem clean_rangecheck_reljmp (val : Taddr) : Clean (rangecheck val .reljmp) :=
  clean_warning rfl

theorem clean_rangecheck_rel8 (val : Taddr) :
    Clean (rangecheck (val - (pc + 2)) .rel8) ↔ near pc val = true := by
  refine ⟨near_of_clean, fun hnear => ?_⟩
  obtain ⟨hlow, hhigh⟩ := Bool.and_eq_true_iff.mp hnear
  have hnone : rangecheck (val - (pc + 2)) .rel8 = [] :=
    if_neg (not_or.mpr ⟨Int.not_lt.mpr (of_decide_eq_true hlow),
      Int.not_lt.mpr (of_decide_eq_true hhigh)⟩)
  rw [hnone]
  exact List.forall_mem_nil _

theorem near_of_not_relaxes {val : Taddr} (h : o.relaxes pc val = false)
    (hopt : o.branchopt = true) : near pc val = true := by
  unfold Options.relaxes at h
  rw [hopt, Bool.true_and] at h
  exact (Bool.not_eq_false' _).mp h

/-- The mode of a branch that is settled. -/
theorem settledType_rel8 {m : Mnemonic} {val : Taddr} (htype : op.type = .rel8) :
    settledType o m pc val op = if o.relaxes pc val = true then .reljmp else .rel8 := by
  unfold settledType
  rw [htype]
  simp only [true_and]
  rfl

theorem optimizeComplaints_rel8 (hv : op.value = some e) (htype : op.type = .rel8) :
    optimizeComplaints o env pc ⟨code, [op]⟩ = e.complaints env pc := by
  unfold optimizeComplaints
  rw [List.flatMap_cons, hv, htype]
  simp [OpType.isAbs]

/-- **When the assembler accepts a branch**: it reaches, or the assembler was asked to help. -/
theorem clean_branch (hcpu : o.cpuType = M6502) (hip : Instruction.Parsed ⟨code, [op]⟩)
    (hv : op.value = some e) (htype : op.type = .rel8) :
    Clean (evalInstruction o env pc ⟨code, [op]⟩).complaints
      ↔ Clean (e.complaints env pc) ∧ (o.branchopt = true ∨ near pc (e.eval env pc) = true) := by
  cases hrelaxes : o.relaxes pc (e.eval env pc) with
  | true =>
    rw [evalInstruction_operand hcpu hip hv
      ((settledType_rel8 htype).trans (if_pos hrelaxes)) rfl]
    show Clean (_ ++ (_ ++ _ ++ _ ++ [])) ↔ _
    rw [optimizeComplaints_rel8 hv htype]
    simp only [clean_append, List.append_nil]
    exact ⟨fun h => ⟨h.1, .inl (Bool.and_eq_true_iff.mp hrelaxes).1⟩,
      fun h => ⟨h.1, ⟨h.1, clean_prefixIgnored _ _⟩, clean_rangecheck_reljmp _⟩⟩
  | false =>
    rw [evalInstruction_operand hcpu hip hv
      ((settledType_rel8 htype).trans (if_neg (Bool.eq_false_iff.mp hrelaxes))) operandValue_rel8]
    show Clean (_ ++ (_ ++ _ ++ _ ++ [])) ↔ _
    rw [optimizeComplaints_rel8 hv htype]
    simp only [clean_append, List.append_nil, clean_rangecheck_rel8]
    rw [or_iff_right_of_imp (near_of_not_relaxes hrelaxes)]
    exact ⟨fun h => ⟨h.1, h.2.2⟩, fun h => ⟨h.1, ⟨h.1, clean_prefixIgnored _ _⟩, h.2⟩⟩

/-- A branch that keeps its mode. -/
theorem data_near (hcpu : o.cpuType = M6502) (hip : Instruction.Parsed ⟨code, [op]⟩)
    (hv : op.value = some e) (htype : op.type = .rel8)
    (hrelaxes : o.relaxes pc (e.eval env pc) = false) :
    (evalInstruction o env pc ⟨code, [op]⟩).data
      = [(mnemonic code).opcode, (e.eval env pc - (pc + 2)).setWidth 8] := by
  rw [evalInstruction_operand hcpu hip hv
    ((settledType_rel8 htype).trans (if_neg (Bool.eq_false_iff.mp hrelaxes))) operandValue_rel8]
  rfl

/-- A branch that is helped. -/
theorem data_far (hcpu : o.cpuType = M6502) (hip : Instruction.Parsed ⟨code, [op]⟩)
    (hv : op.value = some e) (htype : op.type = .rel8)
    (hrelaxes : o.relaxes pc (e.eval env pc) = true) :
    ∃ l h, word h l = (e.eval env pc).setWidth 16
      ∧ (evalInstruction o env pc ⟨code, [op]⟩).data
        = [(mnemonic code).opcode ^^^ 0x20, 3, 0x4c, l, h] := by
  rw [evalInstruction_operand hcpu hip hv
    ((settledType_rel8 htype).trans (if_pos hrelaxes)) rfl]
  exact ⟨_, _, (word_setval _).trans (operandValue_word rfl rfl 1), rfl⟩

end Write

/-! ## Where the processor goes -/

section Paths

variable {mem : Word → Byte} {w : Word} {bs : List Byte} {oc : Byte} {c : Condition}

/-- Some bytes are in the memory, from an address on. -/
def Stands (mem : Word → Byte) (w : Word) (bs : List Byte) : Prop :=
  ∀ k b, bs[k]? = some b → mem (w + BitVec.ofNat 16 k) = b

theorem Stands.head {b : Byte} (h : Stands mem w (b :: bs)) : mem w = b :=
  (congrArg mem (BitVec.add_zero w)).symm.trans (h 0 b rfl)

/-- At an address among some bytes there is a whole instruction: one of two branches, or a
jump. -/
def Whole (w : Word) (bs : List Byte) (oc : Byte) (v : Word) : Prop :=
  ∃ j b, v = w + BitVec.ofNat 16 j ∧ bs[j]? = some b
    ∧ ((b = oc ∨ b = oc ^^^ 0x20) ∧ j + 1 < bs.length ∨ b = 0x4c ∧ j + 2 < bs.length)

/-- A path of some instructions from the beginning of some bytes to an address, through whole
instructions. -/
structure Path (mem : Word → Byte) (p : Flags) (w : Word) (bs : List Byte) (oc : Byte) (n : ℕ)
    (v : Word) : Prop where
  leads : after (goesTo mem p) n w = some v
  whole : ∀ k < n, ∀ v', after (goesTo mem p) k w = some v' → Whole w bs oc v'

/-- A branch is a path. -/
theorem path_near {d : Byte} (h : Stands mem w [oc, d]) (hc : condition oc = some c) (p : Flags) :
    Path mem p w [oc, d] oc 1 (if c.holds p then w + 2 + d.signExtend 16 else w + 2) := by
  have hop : mem w = oc := h.head
  have hstep := goesTo_branch ((congrArg condition hop).trans hc) p
  rw [show mem (w + 1) = d from h 1 d rfl] at hstep
  refine ⟨?_, fun k hk v hv => ?_⟩
  · rw [after_succ_of hstep, after_zero]
  · obtain rfl := Nat.lt_one_iff.mp hk
    rw [after_zero] at hv
    obtain rfl := Option.some_inj.mp hv
    exact ⟨0, oc, (BitVec.add_zero w).symm, rfl, .inl ⟨.inl rfl, by simp⟩⟩

/-- A branch over a jump is a path. -/
theorem path_far {l h : Byte} (hs : Stands mem w [oc ^^^ 0x20, 3, 0x4c, l, h])
    (hc : condition oc = some c) (p : Flags) :
    Path mem p w [oc ^^^ 0x20, 3, 0x4c, l, h] oc (if c.holds p then 2 else 1)
      (if c.holds p then word h l else w + 5) := by
  have hop : mem w = oc ^^^ 0x20 := hs.head
  have hopposite : condition (mem w) = some c.opposite := by
    rw [hop, condition_opposite, hc]
    rfl
  have hstep := goesTo_branch hopposite p
  rw [show mem (w + 1) = 3 from hs 1 3 rfl, c.holds_opposite] at hstep
  have hfirst : Whole w [oc ^^^ 0x20, 3, 0x4c, l, h] oc w :=
    ⟨0, oc ^^^ 0x20, (BitVec.add_zero w).symm, rfl, .inl ⟨.inr rfl, by simp⟩⟩
  cases htaken : c.holds p with
  | true =>
    rw [htaken] at hstep
    have hbehind : goesTo mem p w = some (w + 2) := hstep
    have hlow : mem (w + 2 + 1) = l := by
      rw [BitVec.add_assoc]
      exact hs 3 l rfl
    have hhigh : mem (w + 2 + 2) = h := by
      rw [BitVec.add_assoc]
      exact hs 4 h rfl
    have hjmp : goesTo mem p (w + 2) = some (word h l) := by
      rw [goesTo_jmp (show mem (w + 2) = 0x4c from hs 2 0x4c rfl), hlow, hhigh]
    refine ⟨?_, fun k hk v hv => ?_⟩
    · exact (after_succ_of hbehind 1).trans (after_succ_of hjmp 0)
    · match k with
      | 0 =>
        rw [after_zero] at hv
        exact Option.some_inj.mp hv ▸ hfirst
      | 1 =>
        rw [after_succ_of hbehind, after_zero] at hv
        exact ⟨2, 0x4c, (Option.some_inj.mp hv).symm, rfl, .inr ⟨rfl, by simp⟩⟩
  | false =>
    rw [htaken] at hstep
    have hover : goesTo mem p w = some (w + 5) := by
      refine hstep.trans (congrArg some ?_)
      exact BitVec.add_assoc w 2 3
    refine ⟨?_, fun k hk v hv => ?_⟩
    · exact after_succ_of hover 0
    · obtain rfl := Nat.lt_one_iff.mp hk
      rw [after_zero] at hv
      exact Option.some_inj.mp hv ▸ hfirst

/-- The branches that the machine knows are those on the zero flag. -/
theorem branch_known (hc : condition oc = some c) (hzero : c.flag = .zero) :
    oc = 0xf0 ∨ oc = 0xd0 := by
  have hall : ∀ oc : Byte, (condition oc).map Condition.flag = some .zero →
      oc = 0xf0 ∨ oc = 0xd0 := by decide +kernel
  exact hall oc (by rw [hc, Option.map_some, hzero])

/-- **The machine takes such a path**, if the branch is one that it knows. -/
theorem Path.machine {β : Type} {B : Bus β} {m : Machine β} {n : ℕ} {v : Word}
    (h : Path mem m.p m.pc bs oc n v) (hoc : oc = 0xf0 ∨ oc = 0xd0)
    (hmem : Stands mem m.pc bs)
    (hread : ∀ k b, bs[k]? = some b → m.read B (m.pc + BitVec.ofNat 16 k) = (b, m)) :
    after (Machine.step B) n m = some { m with pc := v } := by
  refine after_goesTo h.leads fun k hk v' hv' => ?_
  obtain ⟨j, b, rfl, hb, hin⟩ := h.whole k hk v' hv'
  have hreads : ∀ i, j + i < bs.length → Reads B m mem (m.pc + BitVec.ofNat 16 j) i := by
    intro i hi k' hk'
    rw [BitVec.add_assoc, ← BitVec.ofNat_add]
    have hget := List.getElem?_eq_getElem (show j + k' < bs.length by omega)
    rw [hmem _ _ hget, hread _ _ hget]
  rw [hmem _ _ hb]
  rcases hin with ⟨hbranch, hlen⟩ | ⟨rfl, hlen⟩
  · have hform : ∃ f, form b = some (.byte f) := by
      rcases hoc with rfl | rfl <;> rcases hbranch with rfl | rfl <;> exact ⟨_, rfl⟩
    obtain ⟨f, hf⟩ := hform
    exact ⟨_, hf, hreads 1 hlen⟩
  · exact ⟨_, rfl, hreads 2 hlen⟩

end Paths

/-! ## Every branch in the file -/

section Image

variable {o : Options} {env : L → Taddr} {pc : Taddr} {code : ℕ} {op : Operand L} {e : Expr L}

/-- How many instructions a branch is, when it is taken or not. -/
def branchSteps (o : Options) (pc val : Taddr) (taken : Bool) : ℕ :=
  if o.relaxes pc val && taken then 2 else 1

/-- **A branch goes where the listing says**, and to the instruction behind it when it is not
taken. -/
theorem branch_path (hcpu : o.cpuType = M6502) (hip : Instruction.Parsed ⟨code, [op]⟩)
    (hv : op.value = some e) (htype : op.type = .rel8)
    (hclean : Clean (evalInstruction o env pc ⟨code, [op]⟩).complaints) :
    ∃ c, branchesOn (mnemonic code).name = some c ∧ condition (mnemonic code).opcode = some c
      ∧ ∀ mem, Stands mem (pc.setWidth 16) (evalInstruction o env pc ⟨code, [op]⟩).data → ∀ p,
        Path mem p (pc.setWidth 16) (evalInstruction o env pc ⟨code, [op]⟩).data
          (mnemonic code).opcode (branchSteps o pc (e.eval env pc) (c.holds p))
          (if c.holds p then (e.eval env pc).setWidth 16
            else pc.setWidth 16
              + BitVec.ofNat 16 (evalInstruction o env pc ⟨code, [op]⟩).data.length) := by
  have hrel : (mnemonic code).operandType = [.rel8] := by
    refine OpType.parsed_eq_rel8 ?_
    rw [← hip.types, ← htype]
    rfl
  obtain ⟨hnamed, hcond⟩ := branch_rows _ (mnemonic_mem hip.available) hip.available hrel
  obtain ⟨c, hc⟩ := Option.isSome_iff_exists.mp hnamed
  rw [hc] at hcond
  refine ⟨c, hc, hcond, fun mem hmem p => ?_⟩
  unfold branchSteps
  cases hrelaxes : o.relaxes pc (e.eval env pc) with
  | true =>
    obtain ⟨l, h, hword, hdata⟩ := data_far hcpu hip hv htype hrelaxes
    rw [hdata] at hmem ⊢
    rw [← hword]
    exact path_far hmem hcond p
  | false =>
    have hnear : near pc (e.eval env pc) = true :=
      ((clean_branch hcpu hip hv htype).mp hclean).2.elim (near_of_not_relaxes hrelaxes) id
    rw [data_near hcpu hip hv htype hrelaxes] at hmem ⊢
    rw [← target_eq hnear]
    exact path_near hmem hcond p

/-- Where the bytes are that are in the file. -/
theorem Holds.get {α : Type} {base a : ℕ} {bs d : List α} (h : Holds base bs a d) {k : ℕ} {b : α}
    (hb : d[k]? = some b) :
    ∃ i, bs[i]? = some b
      ∧ BitVec.ofNat 16 a + BitVec.ofNat 16 k = BitVec.ofNat 16 base + BitVec.ofNat 16 i := by
  obtain ⟨pre, post, rfl, rfl⟩ := h
  refine ⟨pre.length + k, ?_, ?_⟩
  · rw [List.getElem?_append_right (Nat.le_add_right _ _), Nat.add_sub_cancel_left,
      List.getElem?_append_left (List.getElem?_eq_some_iff.mp hb).1, hb]
  · rw [BitVec.ofNat_add, BitVec.ofNat_add, BitVec.add_assoc]

/-- `beq` over two hundred `nop`. -/
def farBranch : Program Unit where
  secs := [⟨0x8000, 0, [0],
    [⟨1, .inst ⟨84, [⟨.rel8, ⟨false, false, false, false⟩, some (.label ())⟩]⟩⟩,
      ⟨1, .data (List.replicate 200 0xea)⟩, ⟨1, .label ()⟩, ⟨1, .data [0x60]⟩]⟩]
  sec _ := 0
  owned {i s} hs l hl := by
    match i with
    | 0 => rfl

/-- What the assembler makes of it when it is asked to help. -/
def farBranchFile : (Unit → Taddr) × List Byte :=
  (vasm ⟨M6502, true, false, 0⟩ farBranch 3 ⟨fun _ => 0, fun _ => []⟩).getD (fun _ => 0, [])

end Image

end Vasm
