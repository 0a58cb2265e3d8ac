import Eater6502.Machine

/-!
# The stack page as a stack

The stack of the 6502 is a region of ordinary RAM and a pointer into it that
wraps. `StackPage` says when the two are the stack a program means: the bytes
pushed and not yet pulled stand one below the other from `base` downwards, the
pointer is just below them, and nothing else on the page has changed since it
was `page`. A push and a pull keep this, as long as no more than `depth` bytes
are ever on the stack, and `depth` is small enough for the page not to be
overrun.

The addresses written are accounted for along with the bytes: each is one of
those noted before, or one of the `depth` places the stack may use, or an
address at which the program is allowed to `store`.
-/

namespace Cpu

open Isa

variable {β : Type}

/-- How much of the stack page a program may use, and where else it may write. -/
structure Discipline where
  /-- The most bytes on the stack at a time. -/
  depth : ℕ
  depth_le : depth ≤ 256
  /-- The addresses the program may store to. -/
  stores : Word → Bool
  /-- The stack page is not among them. -/
  stores_hi : ∀ w, stores w = true → hi w ≠ 1

/-- The bytes stand one below the other from `base` downwards, the first of the
list at the bottom end of the stack. -/
def Holds (page1 : Byte → Byte) (base : Byte) : List Byte → Prop
  | [] => True
  | b :: bs => page1 (base - BitVec.ofNat 8 bs.length) = b ∧ Holds page1 base bs

/-- Two places of one stack are different bytes of the page. -/
theorem slot_ne {base : Byte} {j k : ℕ} (hjk : j < k) (hk : k < 256) :
    base - BitVec.ofNat 8 j ≠ base - BitVec.ofNat 8 k := by
  intro h
  have hjk' := congrArg BitVec.toNat ((BitVec.sub_right_inj base).mp h)
  rw [BitVec.toNat_ofNat, BitVec.toNat_ofNat] at hjk'
  omega

/-- A write below the stack does not touch what is on it. -/
theorem Holds.update {page1 : Byte → Byte} {base : Byte} {bs : List Byte}
    (h : Holds page1 base bs) {k : ℕ} (hk : bs.length ≤ k) (hk256 : k < 256) (b : Byte) :
    Holds (Function.update page1 (base - BitVec.ofNat 8 k) b) base bs := by
  induction bs with
  | nil => trivial
  | cons c bs ih =>
    refine ⟨?_, ih h.2 (Nat.le_of_succ_le hk)⟩
    rw [Function.update_of_ne (slot_ne hk hk256)]
    exact h.1

/-- **The stack page carries the stack `bs`**, the byte to be pulled next first. -/
structure StackPage (D : Discipline) (base : Byte) (page : Byte → Byte) (noted : List Word)
    (m : Machine β) (bs : List Byte) : Prop where
  sp : m.sp = base - BitVec.ofNat 8 bs.length
  le : bs.length ≤ D.depth
  holds : Holds m.page1 base bs
  rest : ∀ s, (∀ k < D.depth, s ≠ base - BitVec.ofNat 8 k) → m.page1 s = page s
  written : ∀ w ∈ m.written, w ∈ noted
    ∨ (∃ k < D.depth, w = word 1 (base - BitVec.ofNat 8 k)) ∨ D.stores w = true

namespace StackPage

variable {D : Discipline} {base : Byte} {page : Byte → Byte} {noted : List Word}
variable {m m' : Machine β} {bs : List Byte}

/-- Nothing but the pointer, the page and the notes matters. -/
theorem congr (h : StackPage D base page noted m bs) (hsp : m'.sp = m.sp)
    (hp : m'.page1 = m.page1) (hw : m'.written = m.written) :
    StackPage D base page noted m' bs where
  sp := hsp.trans h.sp
  le := h.le
  holds := hp ▸ h.holds
  rest := hp ▸ h.rest
  written := hw ▸ h.written

/-- At the start of an account the stack is empty and the page is as it is. -/
theorem empty (D : Discipline) (m : Machine β) :
    StackPage D m.sp m.page1 m.written m [] where
  sp := (BitVec.sub_zero m.sp).symm
  le := Nat.zero_le _
  holds := trivial
  rest _ _ := rfl
  written _ hw := Or.inl hw

end StackPage

namespace Machine

/-- A push is a write to the stack page, whatever the bus. -/
theorem push_eq (B : Bus β) (m : Machine β) (b : Byte) :
    m.push B b = { m with
      page1 := Function.update m.page1 m.sp b
      written := m.written ++ [word 1 m.sp]
      sp := m.sp - 1 } := by
  unfold push write
  rw [if_pos (hi_word 1 m.sp), lo_word]

/-- A pull is a read from the stack page, whatever the bus. -/
theorem pull_eq (B : Bus β) (m : Machine β) :
    m.pull B = (m.page1 (m.sp + 1), { m with sp := m.sp + 1 }) := by
  unfold pull read
  rw [if_pos (hi_word 1 (m.sp + 1)), lo_word]

end Machine

namespace StackPage

variable {D : Discipline} {base : Byte} {page : Byte → Byte} {noted : List Word}
variable {m : Machine β} {bs : List Byte}

/-- **A push adds its byte.** -/
theorem push (h : StackPage D base page noted m bs) (B : Bus β) (b : Byte)
    (hle : bs.length + 1 ≤ D.depth) : StackPage D base page noted (m.push B b) (b :: bs) := by
  have hlt : bs.length < 256 := Nat.lt_of_lt_of_le hle D.depth_le
  rw [Machine.push_eq]
  refine ⟨?_, hle, ⟨?_, ?_⟩, fun s hs => ?_, fun w hw => ?_⟩
  · show m.sp - 1 = base - BitVec.ofNat 8 (bs.length + 1)
    rw [h.sp, BitVec.ofNat_add, BitVec.sub_sub]
    rfl
  · show Function.update m.page1 m.sp b (base - BitVec.ofNat 8 bs.length) = b
    rw [h.sp, Function.update_self]
  · show Holds (Function.update m.page1 m.sp b) base bs
    rw [h.sp]
    exact h.holds.update (Nat.le_refl _) hlt b
  · show Function.update m.page1 m.sp b s = page s
    rw [h.sp, Function.update_of_ne (hs bs.length hle)]
    exact h.rest s hs
  · rcases List.mem_append.mp hw with hw | hw
    · exact h.written w hw
    · rw [List.mem_singleton.mp hw]
      exact Or.inr (Or.inl ⟨bs.length, hle, by rw [h.sp]⟩)

/-- **A pull takes the byte pushed last.** -/
theorem pull {b : Byte} (h : StackPage D base page noted m (b :: bs)) (B : Bus β) :
    m.pull B = (b, { m with sp := m.sp + 1 })
      ∧ StackPage D base page noted { m with sp := m.sp + 1 } bs := by
  have hsp : m.sp + 1 = base - BitVec.ofNat 8 bs.length := by
    rw [h.sp, List.length_cons, BitVec.ofNat_add, ← BitVec.sub_sub]
    exact BitVec.sub_add_cancel _ 1
  refine ⟨?_, ?_⟩
  · rw [Machine.pull_eq, hsp, h.holds.1]
  · exact ⟨hsp, Nat.le_of_succ_le h.le, h.holds.2, h.rest, h.written⟩

/-- A store elsewhere leaves the stack alone. -/
theorem store (h : StackPage D base page noted m bs) (B : Bus β) {w : Word}
    (hw : D.stores w = true) (b : Byte) :
    m.write B w b = { m with bus := B.write m.bus w b, written := m.written ++ [w] }
      ∧ StackPage D base page noted
          { m with bus := B.write m.bus w b, written := m.written ++ [w] } bs := by
  refine ⟨if_neg (D.stores_hi w hw), h.sp, h.le, h.holds, h.rest, fun v hv => ?_⟩
  rcases List.mem_append.mp hv with hv | hv
  · exact h.written v hv
  · rw [List.mem_singleton.mp hv]
    exact Or.inr (Or.inr hw)

end StackPage

end Cpu
