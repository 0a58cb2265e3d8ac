import Eater6502.Arduino

/-!
# A device on a clock line

What is wired to a clock and a reset line that somebody else drives. A `Device` has
a state, which moves when the clock does: at each edge, and knowing the level of the
reset line at that moment. Between two edges it drives its pins from its state and
the level of the clock alone.

As a `Target` a device is read off the history: every event is passed to the lines it
hangs on (`Device.see`), and what is not written to one of them is not seen
(`Device.foldl_see`). A stretch of the history that runs whole cycles of the clock
moves the device by as many cycles, whatever else happens in between.
-/

namespace Arduino

/-- **A device on a clock and a reset line**, which hang on two pins. -/
structure Device (clockPin resetPin : ℕ) (σ : Type*) where
  /-- The state behind an edge of the clock to a level, the reset line having a level. -/
  edge : (clock reset : Bool) → σ → σ
  /-- The levels it drives, with the clock at a level. -/
  drives : (clock : Bool) → σ → ℕ → Bool

/-- A device and the levels of its lines. -/
@[ext] structure Wired (σ : Type*) where
  clock : Bool
  reset : Bool
  state : σ

namespace Device

variable {clockPin resetPin : ℕ} {σ : Type*} (d : Device clockPin resetPin σ)

/-- The clock is set to a level. Where it has that level there is no edge. -/
def setClock (w : Wired σ) (level : Bool) : Wired σ :=
  if level = w.clock then w
  else { w with clock := level, state := d.edge level w.reset w.state }

/-- An event at the pins, as the device sees it. -/
def see (w : Wired σ) : Event → Wired σ
  | .write pin level =>
    if pin = clockPin then d.setClock w level
    else if pin = resetPin then { w with reset := level }
    else w
  | _ => w

/-- **The device as a target**, which was as `w` before anything happened. -/
def target (w : Wired σ) : Target := fun h =>
  d.drives (h.foldl d.see w).clock (h.foldl d.see w).state

/-- A whole cycle of the clock, from high to high. -/
def cycle (reset : Bool) (s : σ) : σ := d.edge HIGH reset (d.edge LOW reset s)

variable {d} {w : Wired σ} {h es : List Event}

/-! ## What it sees -/

/-- **Where the reset line is not written to, all it sees is the clock.** -/
theorem foldl_see (hrst : writes resetPin es = []) :
    es.foldl d.see w = (writes clockPin es).foldl d.setClock w := by
  induction es generalizing w with
  | nil => rfl
  | cons e es ih =>
    rw [← List.singleton_append, writes_append] at hrst
    obtain ⟨hrst, hrsts⟩ := List.append_eq_nil_iff.mp hrst
    have hsee : d.see w e = (writes clockPin [e]).foldl d.setClock w := by
      cases e with
      | write pin level =>
        by_cases hpin : pin = clockPin
        · subst hpin
          simp [see, writes]
        · have hpin' : pin ≠ resetPin := by
            rintro rfl
            simp [writes] at hrst
          rw [see, if_neg hpin, if_neg hpin']
          simp [writes, hpin]
      | _ => rfl
    rw [List.foldl_cons, hsee, ih hrsts, ← List.singleton_append (l := es), writes_append,
      List.foldl_append]

theorem setClock_clock (w : Wired σ) (level : Bool) : (d.setClock w level).clock = level := by
  unfold setClock
  by_cases hlevel : level = w.clock
  · rw [if_pos hlevel, hlevel]
  · rw [if_neg hlevel]

/-- An event at the pins and the level of the clock. -/
theorem see_clock (w : Wired σ) (e : Event) :
    (d.see w e).clock = (lastWrite clockPin [e]).getD w.clock := by
  cases e with
  | write pin level =>
    by_cases hpin : pin = clockPin
    · rw [see, if_pos hpin, setClock_clock]
      simp [lastWrite, writes, hpin]
    · rw [see, if_neg hpin]
      by_cases hpin' : pin = resetPin
      · rw [if_pos hpin']
        simp [lastWrite, writes, hpin]
      · rw [if_neg hpin']
        simp [lastWrite, writes, hpin]
  | _ => rfl

/-- **The clock is at the level that was written last**, if one was. -/
theorem clock_foldl_see : (es.foldl d.see w).clock = (lastWrite clockPin es).getD w.clock := by
  induction es generalizing w with
  | nil => rfl
  | cons e es ih =>
    have hlast : lastWrite clockPin (e :: es)
        = (lastWrite clockPin es).or (lastWrite clockPin [e]) := by
      rw [← List.singleton_append, lastWrite, writes_append, List.getLast?_append]
      rfl
    rw [List.foldl_cons, ih, see_clock, hlast]
    cases lastWrite clockPin es <;> rfl

/-- **Between two edges of the clock the state is held.** -/
theorem state_see {e : Event} (hh : lastWrite clockPin h = some HIGH)
    (he : lastWrite clockPin (h ++ [e]) = some HIGH) :
    (d.see (h.foldl d.see w) e).state = (h.foldl d.see w).state := by
  cases e with
  | write pin level =>
    by_cases hpin : pin = clockPin
    · have hlast : lastWrite clockPin [.write pin level] = some level := by
        simp [lastWrite, writes, hpin]
      rw [lastWrite_append_of_last hlast] at he
      have hclock : level = (h.foldl d.see w).clock := by
        rw [clock_foldl_see, hh]
        exact Option.some.inj he
      rw [see, if_pos hpin, setClock, if_pos hclock]
    · rw [see, if_neg hpin]
      by_cases hpin' : pin = resetPin
      · rw [if_pos hpin']
      · rw [if_neg hpin']
  | _ => rfl

/-- What a target shows, from what the device has become. -/
theorem target_eq {clock reset : Bool} {s : σ} (hw : h.foldl d.see w = ⟨clock, reset, s⟩) :
    d.target w h = d.drives clock s := by
  unfold target
  rw [hw]

end Device

end Arduino
