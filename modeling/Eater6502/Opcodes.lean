import Eater6502.Machine
import Eater6502.Run

/-!
# What the processor takes an opcode for

The machine executes the instructions that the programs here are made of. An assembler knows
all of them, and so does a debugger that names what it sees. What there is to say about all
documented instructions is what the bits of an opcode say: the mode in which the operand is
addressed (`mode`), and for a branch the condition on which it is taken (`condition`). From
the mode, the bytes behind the opcode and the index registers comes what the instruction
works on (`access`), and from the condition and the flags the address where the program goes
on (`goesTo`).

For the instructions that the machine executes both are what it does (`length_form`,
`step_goesTo`).
-/

namespace Isa

/-- The addressing modes of the processor. -/
inductive Mode where
  /-- no operand, or the accumulator -/
  | implied
  /-- `#$12` -/
  | immediate
  /-- `$12` -/
  | zeroPage
  /-- `$12,X` -/
  | zeroPageX
  /-- `$12,Y` -/
  | zeroPageY
  /-- `$1234` -/
  | absolute
  /-- `$1234,X` -/
  | absoluteX
  /-- `$1234,Y` -/
  | absoluteY
  /-- `($1234)` -/
  | indirect
  /-- `($12,X)` -/
  | indexedIndirect
  /-- `($12),Y` -/
  | indirectIndexed
  /-- the distance of a branch -/
  | relative
  deriving Repr, DecidableEq

namespace Mode

/-- The bytes behind the opcode. -/
def length : Mode → ℕ
  | implied => 0
  | absolute | absoluteX | absoluteY | indirect => 2
  | _ => 1

end Mode

/-- **The mode of an opcode** `aaabbbcc`. Most often `bbb` decides it, for each `cc` in its
own way. An opcode that is not documented has none. -/
def mode (op : Byte) : Option Mode :=
  let aaa := (op >>> 5).toNat
  match (op &&& 3).toNat, (op >>> 2 &&& 7).toNat with
  | 1, 0 => some .indexedIndirect
  | 1, 1 => some .zeroPage
  | 1, 2 => if aaa = 4 then none else some .immediate
  | 1, 3 => some .absolute
  | 1, 4 => some .indirectIndexed
  | 1, 5 => some .zeroPageX
  | 1, 6 => some .absoluteY
  | 1, 7 => some .absoluteX
  | 2, 0 => if aaa = 5 then some .immediate else none
  | 2, 1 => some .zeroPage
  | 2, 2 => some .implied
  | 2, 3 => some .absolute
  -- STX and LDX have the other index
  | 2, 5 => if aaa = 4 ∨ aaa = 5 then some .zeroPageY else some .zeroPageX
  | 2, 6 => if aaa = 4 ∨ aaa = 5 then some .implied else none
  | 2, 7 => if aaa = 4 then none else if aaa = 5 then some .absoluteY else some .absoluteX
  -- BRK, JSR, RTI and RTS
  | 0, 0 =>
    if aaa = 1 then some .absolute
    else if aaa < 4 then some .implied
    else if aaa = 4 then none
    else some .immediate
  | 0, 1 => if aaa = 1 ∨ 4 ≤ aaa then some .zeroPage else none
  | 0, 2 => some .implied
  | 0, 3 => if aaa = 0 then none else if aaa = 3 then some .indirect else some .absolute
  | 0, 4 => some .relative
  | 0, 5 => if aaa = 4 ∨ aaa = 5 then some .zeroPageX else none
  | 0, 6 => some .implied
  | 0, 7 => if aaa = 5 then some .absoluteX else none
  | _, _ => none

/-- The bytes behind an opcode that the machine fetches, by the form of the instruction. -/
def Form.length : Form → ℕ
  | implied _ => 0
  | byte _ => 1
  | word _ => 2

/-- The machine fetches as many bytes as the mode says. -/
theorem length_form {op : Byte} {f : Form} (h : form op = some f) :
    (mode op).map Mode.length = some f.length := by
  have hall : ∀ op : Byte, ∀ n ∈ (form op).map Form.length,
      (mode op).map Mode.length = some n := by decide +kernel
  exact hall op _ (Option.mem_map_of_mem Form.length h)

/-! ## What an instruction works on -/

/-- What an instruction works on. -/
inductive Access where
  /-- registers and flags only -/
  | nothing
  /-- a value in the instruction -/
  | value (b : Byte)
  /-- what is at an address -/
  | memory (w : Word)
  /-- an address that is at an address -/
  | pointer (w : Word)
  /-- what is behind an address that is in the zero page -/
  | behind (b : Byte) (index : Byte)
  /-- an instruction to go on with -/
  | target (w : Word)
  deriving Repr, DecidableEq

/-- **What an instruction works on**, by its mode and the bytes behind its opcode, which is
at `pc`. In the zero page an index does not carry. -/
def access (pc : Word) (x y : Byte) : Mode → List Byte → Access
  | .immediate, [b] => .value b
  | .zeroPage, [b] => .memory (word 0 b)
  | .zeroPageX, [b] => .memory (word 0 (b + x))
  | .zeroPageY, [b] => .memory (word 0 (b + y))
  | .absolute, [l, h] => .memory (word h l)
  | .absoluteX, [l, h] => .memory (word h l + x.setWidth 16)
  | .absoluteY, [l, h] => .memory (word h l + y.setWidth 16)
  | .indirect, [l, h] => .pointer (word h l)
  | .indexedIndirect, [b] => .behind (b + x) 0
  | .indirectIndexed, [b] => .behind b y
  | .relative, [b] => .target (pc + 2 + b.signExtend 16)
  | _, _ => .nothing

end Isa

namespace Cpu

open Isa Run

variable {β : Type}

/-! ## Where a program goes on -/

/-- The flags that a branch may depend on. -/
inductive Flag where
  | negative
  | overflow
  | carry
  | zero
  deriving Repr, DecidableEq

namespace Flag

def get (p : Flags) : Flag → Bool
  | negative => p.n
  | overflow => p.v
  | carry => p.c
  | zero => p.z

end Flag

/-- What a branch depends on: a flag, and what it has to be. -/
structure Condition where
  flag : Flag
  value : Bool
  deriving Repr, DecidableEq

namespace Condition

def holds (c : Condition) (p : Flags) : Bool := c.flag.get p == c.value

def opposite (c : Condition) : Condition := { c with value := !c.value }

theorem holds_opposite (c : Condition) (p : Flags) : c.opposite.holds p = !c.holds p := by
  have hnot : ∀ a b : Bool, (a == !b) = !(a == b) := by decide
  exact hnot _ _

end Condition

/-- **The condition of a branch** `xxy10000`: `xx` is a flag, and `y` what it has to be. -/
def condition (op : Byte) : Option Condition :=
  if op &&& 0x1f = 0x10 then
    some ⟨match (op >>> 6).toNat with
      | 0 => .negative
      | 1 => .overflow
      | 2 => .carry
      | _ => .zero, op.getLsbD 5⟩
  else none

/-- **The opposite condition** has the same bits but one. -/
theorem condition_opposite (op : Byte) :
    condition (op ^^^ 0x20) = (condition op).map Condition.opposite := by
  have hall : ∀ op : Byte, condition (op ^^^ 0x20) = (condition op).map Condition.opposite := by
    decide +kernel
  exact hall op

/-- A branch is no jump. -/
theorem condition_jmp : condition 0x4c = none := rfl

/-- **Where the program goes on** after a branch or a jump at an address. -/
def goesTo (mem : Word → Byte) (p : Flags) (pc : Word) : Option Word :=
  match condition (mem pc) with
  | some c => some (if c.holds p then pc + 2 + (mem (pc + 1)).signExtend 16 else pc + 2)
  | none => if mem pc = 0x4c then some (word (mem (pc + 2)) (mem (pc + 1))) else none

theorem goesTo_branch {mem : Word → Byte} {pc : Word} {c : Condition}
    (h : condition (mem pc) = some c) (p : Flags) :
    goesTo mem p pc
      = some (if c.holds p then pc + 2 + (mem (pc + 1)).signExtend 16 else pc + 2) := by
  unfold goesTo
  rw [h]

theorem goesTo_jmp {mem : Word → Byte} {pc : Word} (h : mem pc = 0x4c) (p : Flags) :
    goesTo mem p pc = some (word (mem (pc + 2)) (mem (pc + 1))) := by
  unfold goesTo
  rw [h, condition_jmp]
  exact if_pos rfl

/-- What is read does not depend on the program counter. -/
theorem read_pc {B : Bus β} {m : Machine β} {w : Word} {b : Byte} (h : m.read B w = (b, m))
    (pc : Word) : { m with pc := pc }.read B w = (b, { m with pc := pc }) := by
  unfold Machine.read at h ⊢
  split at h
  · rename_i hpage
    rw [if_pos hpage, ← (Prod.mk.inj h).1]
  · rename_i hpage
    obtain ⟨hval, hbus⟩ := Prod.mk.inj h
    rw [if_neg hpage, hval, show (B.read m.bus w).2 = m.bus from congrArg Machine.bus hbus]

/-- A fetch of a byte that to read changes nothing. -/
theorem fetch_of_read {B : Bus β} {m : Machine β} {w : Word} {b : Byte}
    (h : m.read B w = (b, m)) :
    { m with pc := w }.fetch B = (b, { m with pc := w + 1 }) := by
  rw [Machine.fetch, read_pc h]

/-- To read the byte at an address, and the `n` bytes behind it, changes nothing, and `mem` is
what they are. -/
def Reads (B : Bus β) (m : Machine β) (mem : Word → Byte) (w : Word) (n : ℕ) : Prop :=
  ∀ k ≤ n, m.read B (w + BitVec.ofNat 16 k) = (mem (w + BitVec.ofNat 16 k), m)

section Fetch

variable {B : Bus β} {m : Machine β} {mem : Word → Byte}

theorem Reads.opcode {n : ℕ} (h : Reads B m mem m.pc n) :
    m.fetch B = (mem m.pc, { m with pc := m.pc + 1 }) := by
  have hread := h 0 (Nat.zero_le n)
  rw [show m.pc + BitVec.ofNat 16 0 = m.pc from BitVec.add_zero _] at hread
  exact fetch_of_read hread

theorem fetchInstr_byte {f : Byte → Instr Word Byte} (hf : form (mem m.pc) = some (.byte f))
    (h : Reads B m mem m.pc 1) :
    m.fetchInstr B = some (f (mem (m.pc + 1)), { m with pc := m.pc + 2 }) := by
  have htwo : m.pc + 1 + 1 = m.pc + 2 := BitVec.add_assoc _ _ _
  have hoperand : { m with pc := m.pc + 1 }.fetch B
      = (mem (m.pc + 1), { m with pc := m.pc + 2 }) := by
    rw [← htwo]
    exact fetch_of_read (h 1 (Nat.le_refl 1))
  unfold Machine.fetchInstr
  rw [h.opcode]
  simp only [hf, hoperand]

theorem fetchInstr_word {f : Word → Instr Word Byte} (hf : form (mem m.pc) = some (.word f))
    (h : Reads B m mem m.pc 2) :
    m.fetchInstr B
      = some (f (word (mem (m.pc + 2)) (mem (m.pc + 1))), { m with pc := m.pc + 3 }) := by
  have htwo : m.pc + 1 + 1 = m.pc + 2 := BitVec.add_assoc _ _ _
  have hthree : m.pc + 2 + 1 = m.pc + 3 := BitVec.add_assoc _ _ _
  have hlow : { m with pc := m.pc + 1 }.fetch B
      = (mem (m.pc + 1), { m with pc := m.pc + 2 }) := by
    rw [← htwo]
    exact fetch_of_read (h 1 (by decide))
  have hhigh : { m with pc := m.pc + 2 }.fetch B
      = (mem (m.pc + 2), { m with pc := m.pc + 3 }) := by
    rw [← hthree]
    exact fetch_of_read (h 2 (Nat.le_refl 2))
  unfold Machine.fetchInstr
  rw [h.opcode]
  simp only [hf, hlow, hhigh]

end Fetch

/-- The machine knows two branches and the jump. -/
theorem goesTo_known {op : Byte} {f : Form} (hf : form op = some f)
    (hop : (condition op).isSome ∨ op = 0x4c) : op = 0xf0 ∨ op = 0xd0 ∨ op = 0x4c := by
  have hall : ∀ op : Byte, (form op).isSome → ((condition op).isSome ∨ op = 0x4c) →
      op = 0xf0 ∨ op = 0xd0 ∨ op = 0x4c := by decide +kernel
  exact hall op (by rw [hf]; rfl) hop

/-- **What the machine does there**, if it knows the instruction: it goes on at this address,
and nothing else changes. -/
theorem step_goesTo {B : Bus β} {m : Machine β} {mem : Word → Byte} {f : Form} {w : Word}
    (hf : form (mem m.pc) = some f) (hread : Reads B m mem m.pc f.length)
    (hw : goesTo mem m.p m.pc = some w) : m.step B = some { m with pc := w } := by
  have hop : (condition (mem m.pc)).isSome ∨ mem m.pc = 0x4c := by
    unfold goesTo at hw
    cases hc : condition (mem m.pc) with
    | some c => exact .inl rfl
    | none =>
      rw [hc] at hw
      exact .inr (Option.ite_none_right_eq_some.mp hw).1
  have hbranch : ∀ c, condition (mem m.pc) = some c →
      w = if c.holds m.p then m.pc + 2 + (mem (m.pc + 1)).signExtend 16 else m.pc + 2 :=
    fun c hc => (Option.some_inj.mp ((goesTo_branch hc m.p).symm.trans hw)).symm
  rcases goesTo_known hf hop with h | h | h
  · have hz : (⟨.zero, true⟩ : Condition).holds m.p = m.p.z := by
      show (m.p.z == true) = _
      cases m.p.z <;> rfl
    rw [h] at hf
    obtain rfl := Option.some_inj.mp hf
    rw [Machine.step, fetchInstr_byte (congrArg form h) hread,
      hbranch ⟨.zero, true⟩ (congrArg condition h), hz]
    show some (if m.p.z = true then _ else _) = _
    cases m.p.z <;> rfl
  · have hz : (⟨.zero, false⟩ : Condition).holds m.p = !m.p.z := by
      show (m.p.z == false) = _
      cases m.p.z <;> rfl
    rw [h] at hf
    obtain rfl := Option.some_inj.mp hf
    rw [Machine.step, fetchInstr_byte (congrArg form h) hread,
      hbranch ⟨.zero, false⟩ (congrArg condition h), hz]
    show some (if m.p.z = true then _ else _) = _
    cases m.p.z <;> rfl
  · rw [h] at hf
    obtain rfl := Option.some_inj.mp hf
    rw [Machine.step, fetchInstr_word (congrArg form h) hread,
      ← Option.some_inj.mp ((goesTo_jmp h m.p).symm.trans hw)]
    rfl

/-- **What the machine does on the way.** It makes the steps that lead from one of these
addresses to the next, as long as it knows the instructions, and is the same at the end but
for the program counter. -/
theorem after_goesTo {B : Bus β} {m : Machine β} {mem : Word → Byte} {n : ℕ} {w : Word}
    (hw : after (goesTo mem m.p) n m.pc = some w)
    (hknown : ∀ k < n, ∀ v, after (goesTo mem m.p) k m.pc = some v →
      ∃ f, form (mem v) = some f ∧ Reads B m mem v f.length) :
    after (Machine.step B) n m = some { m with pc := w } := by
  induction n generalizing w with
  | zero => rw [after_zero, ← Option.some_inj.mp hw]
  | succ n ih =>
    rw [after_add] at hw ⊢
    obtain ⟨v, hv, hvw⟩ := Option.bind_eq_some_iff.mp hw
    rw [ih hv fun k hk => hknown k (Nat.lt_succ_of_lt hk), Option.bind_some]
    obtain ⟨f, hf, hreads⟩ := hknown n (Nat.lt_succ_self n) v hv
    have hstep : { m with pc := v }.step B = some { m with pc := w } := by
      refine step_goesTo hf (fun k hk => read_pc (hreads k hk) v) ?_
      obtain ⟨w', hw', hend⟩ := Option.bind_eq_some_iff.mp hvw
      rw [hw', ← Option.some_inj.mp hend]
    rw [after_succ_of hstep, after_zero]

end Cpu
