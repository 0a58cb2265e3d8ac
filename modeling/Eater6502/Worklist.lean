import Mathlib.Data.Nat.Notation

/-!
# Parts that depend on each other, brought up to date one by one

A system has some parts, and a state that all of them share. To work on a part brings it
up to date, and changes what other parts may depend on. Which part depends on which is
not known before, it is found out in the work. So there is a list of what is to be done,
with all parts in it at first. To visit a part takes it out, works on it, and puts those
parts in again of which it is known that they depend on it, if something has changed. The
parts are visited in turn, until nothing is left to do.

When that comes to an end, all parts are up to date (`upToDate_of_run`): a part that is
not on the list is up to date, and known to all it depends on (`Invariant`). It does come
to an end if there is something for every part that work on it reaches and that no other
work destroys (`exists_run`).
-/

namespace Worklist

/-- What there is to work on, and who reads what whom gives. -/
structure System (ι σ : Type) where
  /-- Brings a part up to date, if that is possible, and says whether something that
  others may read has changed. -/
  work : ι → σ → Option (Bool × σ)
  /-- The first part reads what the second one gives. -/
  reads : ι → ι → Bool

/-- The shared state, what is to be done, and the parts of which is known that they
depend on a part. -/
structure State (ι σ : Type) where
  data : σ
  todo : ι → Bool
  deps : ι → ι → Bool

variable {ι σ : Type} [DecidableEq ι]

/-- What is known of the dependences after the work on a part. -/
def State.learned (S : System ι σ) (st : State ι σ) (i : ι) : ι → ι → Bool := fun j k =>
  st.deps j k || (k == i && S.reads i j)

/-- What there is after the work on a part. -/
def State.worked (S : System ι σ) (st : State ι σ) (i : ι) (changed : Bool) (data : σ) :
    State ι σ where
  data := data
  todo j := (j != i && st.todo j) || (changed && st.learned S i i j)
  deps := st.learned S i

/-- **A part in its turn.** The result says whether there was something to do. -/
def visit (S : System ι σ) (i : ι) (st : State ι σ) : Option (Bool × State ι σ) :=
  if st.todo i then (S.work i st.data).map fun r => (true, st.worked S i r.1 r.2)
  else some (false, st)

/-- The parts in turn. -/
def sweep (S : System ι σ) : List ι → State ι σ → Option (Bool × State ι σ)
  | [], st => some (false, st)
  | i :: is, st =>
    (visit S i st).bind fun r => (sweep S is r.2).map fun r' => (r.1 || r'.1, r'.2)

/-- **The parts in turn until nothing is left to do**, for some rounds at most. -/
def run (S : System ι σ) (is : List ι) : ℕ → State ι σ → Option (State ι σ)
  | 0, _ => none
  | n + 1, st => (sweep S is st).bind fun r => if r.1 then run S is n r.2 else some r.2

/-- In the beginning everything is to be done, and no dependence is known. -/
def State.init (data : σ) : State ι σ := ⟨data, fun _ => true, fun _ _ => false⟩

variable {S : System ι σ}

/-- **What is kept from round to round** holds in the end if every visit keeps it. -/
theorem run_induction {P : State ι σ → Prop}
    (hvisit : ∀ i b st st', visit S i st = some (b, st') → P st → P st')
    {is : List ι} {n : ℕ} {st st' : State ι σ} (h : run S is n st = some st') (hst : P st) :
    P st' := by
  have hsweep : ∀ {is : List ι} {b : Bool} {st st' : State ι σ},
      sweep S is st = some (b, st') → P st → P st' := by
    intro is
    induction is with
    | nil =>
      intro b st st' h hst
      obtain ⟨-, rfl⟩ := Prod.mk.inj (Option.some_inj.mp h)
      exact hst
    | cons i is ih =>
      intro b st st' h hst
      obtain ⟨r, hr, hrest⟩ := Option.bind_eq_some_iff.mp h
      obtain ⟨r', hr', heq⟩ := Option.map_eq_some_iff.mp hrest
      obtain ⟨-, rfl⟩ := Prod.mk.inj heq
      exact ih hr' (hvisit i r.1 st r.2 hr hst)
  induction n generalizing st with
  | zero => exact absurd h (Option.some_ne_none _).symm
  | succ n ih =>
    obtain ⟨r, hr, hrest⟩ := Option.bind_eq_some_iff.mp h
    have hP : P r.2 := hsweep hr hst
    split at hrest
    · exact ih hrest hP
    · rw [← Option.some_inj.mp hrest]
      exact hP

/-- A round that has nothing to do changes nothing. -/
theorem sweep_idle {is : List ι} {st st' : State ι σ} (h : sweep S is st = some (false, st')) :
    st' = st ∧ ∀ i ∈ is, st.todo i = false := by
  induction is generalizing st with
  | nil => exact ⟨(Prod.mk.inj (Option.some_inj.mp h)).2.symm, fun _ hi => absurd hi List.not_mem_nil⟩
  | cons i is ih =>
    obtain ⟨r, hr, hrest⟩ := Option.bind_eq_some_iff.mp h
    obtain ⟨r', hr', heq⟩ := Option.map_eq_some_iff.mp hrest
    obtain ⟨hb, rfl⟩ := Prod.mk.inj heq
    obtain ⟨hb, hb'⟩ := Bool.or_eq_false_iff.mp hb
    unfold visit at hr
    split at hr
    · obtain ⟨w, -, hw⟩ := Option.map_eq_some_iff.mp hr
      rw [← hw] at hb
      exact absurd hb.symm Bool.false_ne_true
    · rename_i hi
      obtain rfl := Option.some_inj.mp hr
      obtain ⟨hst, hrest⟩ := ih (hr'.trans (by rw [← hb']))
      refine ⟨hst, fun j hj => ?_⟩
      rcases List.mem_cons.mp hj with rfl | hj
      · exact Bool.eq_false_iff.mpr hi
      · exact hrest j hj

/-- In the end nothing is left to do. -/
theorem todo_of_run {is : List ι} {n : ℕ} {st st' : State ι σ} (h : run S is n st = some st') :
    ∀ i ∈ is, st'.todo i = false := by
  induction n generalizing st with
  | zero => exact absurd h (Option.some_ne_none _).symm
  | succ n ih =>
    obtain ⟨r, hr, hrest⟩ := Option.bind_eq_some_iff.mp h
    split at hrest
    · exact ih hrest
    · rename_i hb
      obtain rfl := Option.some_inj.mp hrest
      have hidle : sweep S is st = some (false, r.2) := by
        rw [hr, ← Bool.eq_false_iff.mpr hb]
      obtain ⟨hst, htodo⟩ := sweep_idle hidle
      rwa [hst]

/-! ## When everything is up to date -/

/-- **The rules of a system**, for what it means that a part is up to date. -/
structure System.Lawful (S : System ι σ) (ok : σ → ι → Prop) : Prop where
  /-- Work on a part brings it up to date. -/
  work_ok : ∀ {i s b s'}, S.work i s = some (b, s') → ok s' i
  /-- Work that changes nothing leaves the other parts up to date. -/
  work_same : ∀ {i s s' j}, S.work i s = some (false, s') → ok s j → ok s' j
  /-- So does work on what a part does not read. -/
  work_frame : ∀ {i s b s' j}, S.work i s = some (b, s') → j ≠ i → S.reads j i = false →
    ok s j → ok s' j

/-- **A part that is not on the list** is up to date, and known to all it reads. -/
def Invariant (S : System ι σ) (ok : σ → ι → Prop) (st : State ι σ) : Prop :=
  ∀ i, st.todo i = false → ok st.data i ∧ ∀ j, S.reads i j = true → st.deps j i = true

omit [DecidableEq ι] in
theorem invariant_init (S : System ι σ) (ok : σ → ι → Prop) (data : σ) :
    Invariant S ok (.init data) := fun _ h => absurd h.symm Bool.false_ne_true

theorem State.learned_of_deps {st : State ι σ} {i j k : ι} (h : st.deps j k = true) :
    st.learned S i j k = true := Bool.or_eq_true_iff.mpr (.inl h)

theorem State.learned_self {st : State ι σ} {i j : ι} (h : S.reads i j = true) :
    st.learned S i j i = true := by
  rw [State.learned, h, beq_self_eq_true, Bool.and_true, Bool.or_true]

/-- **The work on a part keeps the invariant.** -/
theorem invariant_worked {ok : σ → ι → Prop} (hS : S.Lawful ok) {st : State ι σ} {i : ι}
    {b : Bool} {s' : σ} (hwork : S.work i st.data = some (b, s')) (hinv : Invariant S ok st) :
    Invariant S ok (st.worked S i b s') := by
  intro j hj
  by_cases hji : j = i
  · subst hji
    exact ⟨hS.work_ok hwork, fun k hk => State.learned_self hk⟩
  · obtain ⟨hold, hnew⟩ := Bool.or_eq_false_iff.mp hj
    rw [bne_iff_ne.mpr hji, Bool.true_and] at hold
    obtain ⟨hok, hdeps⟩ := hinv j hold
    refine ⟨?_, fun k hk => State.learned_of_deps (hdeps k hk)⟩
    cases b with
    | false => exact hS.work_same hwork hok
    | true =>
      -- what is not on the list again does not read the part
      refine hS.work_frame hwork hji (Bool.eq_false_iff.mpr fun hreads => ?_) hok
      rw [Bool.true_and, State.learned_of_deps (hdeps i hreads)] at hnew
      exact absurd hnew.symm Bool.false_ne_true

theorem invariant_visit {ok : σ → ι → Prop} (hS : S.Lawful ok) {i : ι} {b : Bool}
    {st st' : State ι σ} (h : visit S i st = some (b, st')) (hinv : Invariant S ok st) :
    Invariant S ok st' := by
  unfold visit at h
  split at h
  · obtain ⟨r, hr, heq⟩ := Option.map_eq_some_iff.mp h
    obtain ⟨-, rfl⟩ := Prod.mk.inj heq
    exact invariant_worked hS hr hinv
  · obtain ⟨-, rfl⟩ := Prod.mk.inj (Option.some_inj.mp h)
    exact hinv

/-- **When nothing is left to do, all parts are up to date.** -/
theorem upToDate_of_run {ok : σ → ι → Prop} (hS : S.Lawful ok) {is : List ι} {n : ℕ} {data : σ}
    {st : State ι σ} (h : run S is n (.init data) = some st) : ∀ i ∈ is, ok st.data i :=
  fun i hi => (run_induction (fun _ _ _ _ => invariant_visit hS) h
    (invariant_init S ok data) i (todo_of_run h i hi)).1

/-! ## When it comes to an end -/

/-- **Work that lasts**, from the states of a kind: it gives a part something that no work
destroys, and where a part has that already, work on it changes nothing. -/
structure System.Lasting (S : System ι σ) (P : σ → Prop) (final : σ → ι → Prop) : Prop where
  work_final : ∀ i s, P s → ∃ b s', S.work i s = some (b, s') ∧ P s' ∧ final s' i
    ∧ (∀ j, final s j → final s' j) ∧ (final s i → b = false)

variable {P : σ → Prop} {final : σ → ι → Prop}

/-- A visit to a part that is to be done makes it final. Where it was final, the visit
only takes it off the list. -/
theorem visit_lasting (hS : S.Lasting P final) (i : ι) (st : State ι σ) (hP : P st.data) :
    ∃ b st', visit S i st = some (b, st') ∧ P st'.data
      ∧ (st.todo i = true → final st'.data i)
      ∧ (∀ j, final st.data j → final st'.data j)
      ∧ (∀ j, j ≠ i → st.todo j = true → st'.todo j = true)
      ∧ (final st.data i → st'.todo i = false ∧ ∀ j, st.todo j = false → st'.todo j = false) := by
  unfold visit
  by_cases hi : st.todo i = true
  · obtain ⟨b, s', hwork, hP', hfin, hkeep, hsame⟩ := hS.work_final i st.data hP
    refine ⟨true, st.worked S i b s', by rw [if_pos hi, hwork]; rfl, hP', fun _ => hfin, hkeep,
      ?_, ?_⟩
    · intro j hji hj
      show ((j != i && st.todo j) || _) = true
      rw [bne_iff_ne.mpr hji, hj]
      rfl
    · intro hdone
      have htodo : ∀ j, (st.worked S i b s').todo j = (j != i && st.todo j) := by
        intro j
        show ((j != i && st.todo j) || (b && st.learned S i i j)) = _
        rw [hsame hdone, Bool.false_and, Bool.or_false]
      exact ⟨by rw [htodo, bne_self_eq_false, Bool.false_and],
        fun j hj => by rw [htodo, hj, Bool.and_false]⟩
  · exact ⟨false, st, if_neg hi, hP, fun h => absurd h hi, fun _ h => h, fun _ _ h => h,
      fun _ => ⟨Bool.eq_false_iff.mpr hi, fun _ h => h⟩⟩

/-- A round makes all parts final that are to be done. Where all of them were final, it
only takes them off the list. -/
theorem sweep_lasting (hS : S.Lasting P final) (is : List ι) (st : State ι σ)
    (hP : P st.data) :
    ∃ b st', sweep S is st = some (b, st') ∧ P st'.data
      ∧ (∀ i ∈ is, st.todo i = true → final st'.data i)
      ∧ (∀ j, final st.data j → final st'.data j)
      ∧ ((∀ i ∈ is, final st.data i) →
        (∀ i ∈ is, st'.todo i = false) ∧ ∀ j, st.todo j = false → st'.todo j = false) := by
  induction is generalizing st with
  | nil =>
    exact ⟨false, st, rfl, hP, fun _ hi => absurd hi List.not_mem_nil, fun _ h => h,
      fun _ => ⟨fun _ hi => absurd hi List.not_mem_nil, fun _ h => h⟩⟩
  | cons i is ih =>
    obtain ⟨b, st₁, hvisit, hP₁, hfin, hkeep, htodo, hoff⟩ := visit_lasting hS i st hP
    obtain ⟨b', st₂, hsweep, hP₂, hfins, hkeeps, hoffs⟩ := ih st₁ hP₁
    refine ⟨b || b', st₂, by rw [sweep, hvisit, Option.bind_some, hsweep]; rfl, hP₂, ?_,
      fun j hj => hkeeps j (hkeep j hj), ?_⟩
    · intro j hj hjtodo
      by_cases hji : j = i
      · subst hji
        exact hkeeps j (hfin hjtodo)
      · exact hfins j (List.mem_of_ne_of_mem hji hj) (htodo j hji hjtodo)
    · intro hall
      obtain ⟨hi, hold⟩ := hoff (hall i List.mem_cons_self)
      obtain ⟨his, holds⟩ := hoffs fun j hj => hkeep j (hall j (List.mem_cons_of_mem i hj))
      refine ⟨fun j hj => ?_, fun j hj => holds j (hold j hj)⟩
      rcases List.mem_cons.mp hj with rfl | hj
      · exact holds j hi
      · exact his j hj

/-- A round has nothing to do where nothing is on the list. -/
theorem sweep_of_idle {is : List ι} {st : State ι σ} (h : ∀ i ∈ is, st.todo i = false) :
    sweep S is st = some (false, st) := by
  induction is with
  | nil => rfl
  | cons i is ih =>
    have hvisit : visit S i st = some (false, st) :=
      if_neg (Bool.eq_false_iff.mp (h i List.mem_cons_self))
    rw [sweep, hvisit, Option.bind_some, ih fun j hj => h j (List.mem_cons_of_mem i hj)]
    rfl

/-- **It comes to an end**, after three rounds: the first one makes all parts final, the
second one finds that nothing changes, and the third one that nothing is left to do. -/
theorem exists_run (hS : S.Lasting P final) (is : List ι) {data : σ} (hP : P data) :
    ∃ st, run S is 3 (.init data) = some st ∧ ∀ i ∈ is, final st.data i := by
  obtain ⟨b₁, st₁, h₁, hP₁, hfin, -⟩ := sweep_lasting hS is (.init data) hP
  obtain ⟨b₂, st₂, h₂, -, -, hkeep, hoff⟩ := sweep_lasting hS is st₁ hP₁
  have hfin₁ := fun i hi => hfin i hi rfl
  have h₃ := sweep_of_idle (S := S) (hoff hfin₁).1
  cases b₁ with
  | false => exact ⟨st₁, by rw [run, h₁]; rfl, hfin₁⟩
  | true =>
    refine ⟨st₂, ?_, fun i hi => hkeep i (hfin₁ i hi)⟩
    cases b₂ with
    | false =>
      rw [run, h₁, Option.bind_some, if_pos rfl, run, h₂]
      rfl
    | true =>
      rw [run, h₁, Option.bind_some, if_pos rfl, run, h₂, Option.bind_some, if_pos rfl, run, h₃]
      rfl

end Worklist
