import Eater6502.Board

/-!
# What the LCD demands of the bus

Three demands, read off a log of accesses to the VIA. An access is `Proper` if
it respects the first two: no store brings the VIA and the LCD to drive the
data lines at the same time, and the data, their direction, `RS` and `RW` stand
still while `E` is high and around it. The third is about the log as a whole:
before every write strobe, and since the strobe before it, the LCD has said
that it is ready (`ReadyBetween`).

`Polite` is the form in which a program can keep them: it carries along, from
access to access, whether the LCD has been found ready since the last strobe.
-/

namespace Eater

/-- **No contention**: whenever the LCD drives the data lines, the VIA does not. -/
def Via.NoContention (v : Via) : Prop := v.rw = true → v.e = true → v.ddrb = 0

/-- **The discipline of a store**: while `E` is high the data lines, their
direction, `RS` and `RW` do not change; when `RS` or `RW` changes, `E` is low
before and after; a write strobe finds all data lines driven; and no contention
follows. -/
def Access.Proper : Access → Prop
  | .store r v v' =>
    (v.e = true → v'.portb = v.portb ∧ v'.ddrb = v.ddrb ∧ v'.rs = v.rs ∧ v'.rw = v.rw)
      ∧ (v'.rs ≠ v.rs ∨ v'.rw ≠ v.rw → v.e = false ∧ v'.e = false)
      ∧ ((Access.store r v v').strobe?.isSome → v.ddrb = 0xff)
      ∧ v'.NoContention
  | .read _ _ => True

/-- **No write while busy**: before every write strobe there is a read of the
busy flag that found it clear, with no other strobe in between. -/
def ReadyBetween (log : List Access) : Prop :=
  ∀ pre e post, log = pre ++ e :: post → e.strobe?.isSome →
    ∃ pre₁ q mid, pre = pre₁ ++ q :: mid ∧ q.isReady = true ∧ ∀ a ∈ mid, a.strobe? = none

/-- Whether the LCD has been found ready since the last strobe, after an access. -/
def Access.ready (r : Bool) (e : Access) : Bool :=
  if e.strobe?.isSome then false else r || e.isReady

/-- The same, after a log. -/
def readyAfter (r : Bool) (log : List Access) : Bool := log.foldl Access.ready r

/-- **A log that respects the LCD**, when `r` says whether it has been found
ready at the start. -/
def Polite : Bool → List Access → Prop
  | _, [] => True
  | r, e :: log => e.Proper ∧ (e.strobe?.isSome → r = true) ∧ Polite (e.ready r) log

@[simp] theorem readyAfter_append (r : Bool) (l l' : List Access) :
    readyAfter r (l ++ l') = readyAfter (readyAfter r l) l' := List.foldl_append

theorem Polite.append {r : Bool} {l l' : List Access} :
    Polite r (l ++ l') ↔ Polite r l ∧ Polite (readyAfter r l) l' := by
  induction l generalizing r with
  | nil => exact ⟨fun h => ⟨trivial, h⟩, fun h => h.2⟩
  | cons e l ih =>
    rw [List.cons_append, Polite, Polite, ih, and_assoc, and_assoc]
    rfl

/-- One access more. -/
theorem Polite.concat {r : Bool} {l : List Access} {e : Access} (h : Polite r l)
    (he : e.Proper) (hr : e.strobe?.isSome → readyAfter r l = true) :
    Polite r (l ++ [e]) :=
  Polite.append.mpr ⟨h, he, hr, trivial⟩

theorem Polite.proper {r : Bool} {l : List Access} (h : Polite r l) :
    ∀ e ∈ l, e.Proper := by
  induction l generalizing r with
  | nil => exact fun e he => absurd he (List.not_mem_nil)
  | cons e l ih =>
    intro a ha
    rcases List.mem_cons.mp ha with rfl | ha
    · exact h.1
    · exact ih h.2.2 a ha

/-- Found ready since the last strobe: either at the start, with no strobe since,
or by some read, with no strobe since. -/
theorem readyAfter_cases {r : Bool} {l : List Access} (h : readyAfter r l = true) :
    (r = true ∧ ∀ a ∈ l, a.strobe? = none)
      ∨ ∃ pre q mid, l = pre ++ q :: mid ∧ q.isReady = true ∧ ∀ a ∈ mid, a.strobe? = none := by
  induction l generalizing r with
  | nil => exact Or.inl ⟨h, fun a ha => absurd ha (List.not_mem_nil)⟩
  | cons e l ih =>
    rcases ih (r := e.ready r) h with ⟨hr, hl⟩ | ⟨pre, q, mid, rfl, hq, hmid⟩
    · unfold Access.ready at hr
      split at hr
      · exact absurd hr Bool.false_ne_true
      · next hs =>
        rcases Bool.or_eq_true_iff.mp hr with hr | hq
        · refine Or.inl ⟨hr, fun a ha => ?_⟩
          rcases List.mem_cons.mp ha with rfl | ha
          · exact Option.not_isSome_iff_eq_none.mp hs
          · exact hl a ha
        · exact Or.inr ⟨[], e, l, rfl, hq, hl⟩
    · exact Or.inr ⟨e :: pre, q, mid, rfl, hq, hmid⟩

/-- **A polite log has no write while busy.** -/
theorem Polite.readyBetween {l : List Access} (h : Polite false l) : ReadyBetween l := by
  rintro pre e post rfl he
  have hr := (Polite.append.mp h).2.2.1 he
  rcases readyAfter_cases hr with ⟨hf, -⟩ | hready
  · exact absurd hf Bool.false_ne_true
  · exact hready

end Eater
