import Mathlib.Order.Basic
import Mathlib.Data.Nat.Notation

/-!
# Runs of a deterministic machine

A machine is a partial step function: `none` is a state it cannot leave.
`after step n s` is the state `n` steps after `s`, `Leads step P n s s'` says
that those steps lead to `s'` and that `P` holds of every state they leave,
and `observe` collects what an observer writes down along the way.

Straight-line code is a `Leads` one step at a time, and paths compose
(`Leads.trans`). A loop has no path of its own: its head is a *cut point*. If
from every cut point some path leads to a cut point again, then every run from
a cut point goes on for ever inside `P` (`cutpoints`), whatever the loops do.

Two machines are compared by a *simulation*: a relation that a step of the
second one carries over to a step of the first (`Simulates`). What is proved
of the runs of the second machine then holds of the first
(`Simulates.after_lift`), observations included (`Simulates.observe_eq`).
-/

namespace Run

variable {σ τ γ : Type}

/-- The state `n` steps after `s`, if the machine gets that far. -/
def after (step : σ → Option σ) : ℕ → σ → Option σ
  | 0, s => some s
  | n + 1, s => (step s).bind (after step n)

/-- What an observer of the states writes down over the next `n` steps. The
state reached at the end is not observed. -/
def observe (step : σ → Option σ) (obs : σ → List γ) : ℕ → σ → List γ
  | 0, _ => []
  | n + 1, s => obs s ++ (step s).elim [] (observe step obs n)

/-- **`n` steps lead from `s` to `s'` through states satisfying `P`**: `P`
holds of `s` and of every state before `s'`, and of `s'` nothing is said. -/
def Leads (step : σ → Option σ) (P : σ → Prop) : ℕ → σ → σ → Prop
  | 0, s, s' => s = s'
  | n + 1, s, s' => P s ∧ ∃ s₁, step s = some s₁ ∧ Leads step P n s₁ s'

variable {step : σ → Option σ} {P Q : σ → Prop} {obs : σ → List γ}

@[simp] theorem after_zero (s : σ) : after step 0 s = some s := rfl

theorem after_succ_of {s s₁ : σ} (h : step s = some s₁) (n : ℕ) :
    after step (n + 1) s = after step n s₁ := by
  rw [after, h, Option.bind_some]

/-- Running on: `n` steps and then `m` more. -/
theorem after_add (n m : ℕ) (s : σ) :
    after step (n + m) s = (after step n s).bind (after step m) := by
  induction n generalizing s with
  | zero => rw [Nat.zero_add, after_zero, Option.bind_some]
  | succ n ih =>
    rw [Nat.succ_add, after, after, Option.bind_assoc]
    exact congrArg (Option.bind (step s)) (funext fun s₁ => ih s₁)

theorem after_add_of {n : ℕ} {s s' : σ} (h : after step n s = some s') (m : ℕ) :
    after step (n + m) s = after step m s' := by
  rw [after_add, h, Option.bind_some]

/-- The step from one state of a run to the next. -/
theorem step_of_after {n : ℕ} {s t s' : σ} (h : after step n s = some t)
    (h' : after step (n + 1) s = some s') : step t = some s' := by
  rw [after_add_of h] at h'
  obtain ⟨s₁, hs, h₁⟩ := Option.bind_eq_some_iff.mp h'
  rw [hs, ← h₁, after_zero]

/-- A machine that is still running after `n` steps was running before. -/
theorem after_of_le {n m : ℕ} {s s' : σ} (h : after step n s = some s')
    (hm : m ≤ n) : ∃ s₁, after step m s = some s₁ := by
  obtain ⟨k, rfl⟩ := Nat.exists_eq_add_of_le hm
  rw [after_add] at h
  obtain ⟨s₁, h₁, -⟩ := Option.bind_eq_some_iff.mp h
  exact ⟨s₁, h₁⟩

/-- A state that steps to itself is never left. -/
theorem after_of_fixed {s : σ} (h : step s = some s) (n : ℕ) :
    after step n s = some s := by
  induction n with
  | zero => rfl
  | succ n ih => rw [after_succ_of h, ih]

theorem observe_succ_of {s s₁ : σ} (h : step s = some s₁) (n : ℕ) :
    observe step obs (n + 1) s = obs s ++ observe step obs n s₁ := by
  rw [observe, h, Option.elim_some]

/-- Observing on: what is seen in `n` steps and then in `m` more. -/
theorem observe_add {n : ℕ} {s s' : σ} (h : after step n s = some s') (m : ℕ) :
    observe step obs (n + m) s = observe step obs n s ++ observe step obs m s' := by
  induction n generalizing s with
  | zero =>
    rw [after_zero, Option.some_inj] at h
    rw [Nat.zero_add, observe, List.nil_append, h]
  | succ n ih =>
    obtain ⟨s₁, h₁, hn⟩ := Option.bind_eq_some_iff.mp h
    rw [Nat.succ_add, observe_succ_of h₁, observe_succ_of h₁, ih hn, List.append_assoc]

/-- What is seen in fewer steps is a part of what is seen in more. -/
theorem observe_mono (obs : σ → List γ) {n m : ℕ} {s s' : σ} (h : after step m s = some s')
    (hn : n ≤ m) : observe step obs n s <+: observe step obs m s := by
  obtain ⟨s₁, h₁⟩ := after_of_le h hn
  obtain ⟨k, rfl⟩ := Nat.exists_eq_add_of_le hn
  rw [observe_add h₁]
  exact List.prefix_append _ _

/-- An observer with nothing to say about a state at rest keeps silent. -/
theorem observe_of_fixed {s : σ} (h : step s = some s) (hobs : obs s = []) (n : ℕ) :
    observe step obs n s = [] := by
  induction n with
  | zero => rfl
  | succ n ih => rw [observe_succ_of h, hobs, ih]; rfl

namespace Leads

theorem refl (s : σ) : Leads step P 0 s s := rfl

theorem cons {n : ℕ} {s s₁ s' : σ} (hP : P s) (h : step s = some s₁)
    (hn : Leads step P n s₁ s') : Leads step P (n + 1) s s' :=
  ⟨hP, s₁, h, hn⟩

/-- A path of one step. -/
theorem single {s s' : σ} (hP : P s) (h : step s = some s') : Leads step P 1 s s' :=
  cons hP h (refl s')

theorem trans {n m : ℕ} {s s₁ s' : σ} (h : Leads step P n s s₁)
    (h' : Leads step P m s₁ s') : Leads step P (n + m) s s' := by
  induction n generalizing s with
  | zero =>
    obtain rfl : s = s₁ := h
    rw [Nat.zero_add]
    exact h'
  | succ n ih =>
    obtain ⟨hP, s₂, hs, hn⟩ := h
    rw [Nat.succ_add]
    exact cons hP hs (ih hn)

theorem mono {n : ℕ} {s s' : σ} (h : Leads step P n s s') (hPQ : ∀ t, P t → Q t) :
    Leads step Q n s s' := by
  induction n generalizing s with
  | zero => exact h
  | succ n ih =>
    obtain ⟨hP, s₁, hs, hn⟩ := h
    exact cons (hPQ s hP) hs (ih hn)

/-- A path is a run. -/
theorem after_eq {n : ℕ} {s s' : σ} (h : Leads step P n s s') :
    after step n s = some s' := by
  induction n generalizing s with
  | zero => exact congrArg some h
  | succ n ih =>
    obtain ⟨-, s₁, hs, hn⟩ := h
    rw [after_succ_of hs, ih hn]

/-- Every state a path leaves satisfies the path's predicate. -/
theorem get {n i : ℕ} {s s' : σ} (h : Leads step P n s s') (hi : i < n) :
    ∃ t, after step i s = some t ∧ P t := by
  induction n generalizing s i with
  | zero => exact absurd hi (Nat.not_lt_zero i)
  | succ n ih =>
    obtain ⟨hP, s₁, hs, hn⟩ := h
    cases i with
    | zero => exact ⟨s, rfl, hP⟩
    | succ i =>
      rw [after_succ_of hs]
      exact ih hn (Nat.lt_of_succ_lt_succ hi)

/-- Nothing is observed on a path through states that show nothing. -/
theorem observe_eq_nil {n : ℕ} {s s' : σ} (h : Leads step P n s s')
    (hobs : ∀ t, P t → obs t = []) : observe step obs n s = [] := by
  induction n generalizing s with
  | zero => rfl
  | succ n ih =>
    obtain ⟨hP, s₁, hs, hn⟩ := h
    rw [observe_succ_of hs, hobs s hP, ih hn]
    rfl

/-- **A run that comes to rest**: every state of it is either on the path that
leads there or the state of rest itself. -/
theorem rest (obs : σ → List γ) {n : ℕ} {s s' : σ} (h : Leads step P n s s')
    (hrest : step s' = some s') (hobs : obs s' = []) (i : ℕ) :
    ∃ t, after step i s = some t ∧ (P t ∧ observe step obs i s <+: observe step obs n s
      ∨ t = s' ∧ observe step obs i s = observe step obs n s) := by
  rcases Nat.lt_or_ge i n with hlt | hge
  · obtain ⟨t, ht, hP⟩ := h.get hlt
    exact ⟨t, ht, Or.inl ⟨hP, observe_mono obs h.after_eq (Nat.le_of_lt hlt)⟩⟩
  · obtain ⟨k, rfl⟩ := Nat.exists_eq_add_of_le hge
    refine ⟨s', ?_, Or.inr ⟨rfl, ?_⟩⟩
    · rw [after_add_of h.after_eq, after_of_fixed hrest]
    · rw [observe_add h.after_eq, observe_of_fixed hrest hobs, List.append_nil]

end Leads

/-- **Cut points.** If from every cut point a path of at least one step leads to
a cut point, every state of every run from a cut point satisfies the path's
predicate, and no run gets stuck. Loops need no measure: a run that goes round
one for ever passes its cut point infinitely often. -/
theorem cutpoints {Cut : σ → Prop}
    (hcut : ∀ s, Cut s → ∃ n s', Leads step P (n + 1) s s' ∧ Cut s')
    {s : σ} (hs : Cut s) (i : ℕ) : ∃ t, after step i s = some t ∧ P t := by
  induction i using Nat.strongRecOn generalizing s with
  | ind i ih =>
    obtain ⟨n, s', hpath, hs'⟩ := hcut s hs
    rcases Nat.lt_or_ge i (n + 1) with hlt | hge
    · exact hpath.get hlt
    · obtain ⟨k, rfl⟩ := Nat.exists_eq_add_of_le hge
      rw [after_add_of hpath.after_eq]
      exact ih k (Nat.lt_add_of_pos_left n.succ_pos) hs'

/-- **A simulation** of the machine `stepτ` by the machine `step`: the relation
`R` survives a step of `stepτ` matched by a step of `step`. -/
def Simulates (step : σ → Option σ) (stepτ : τ → Option τ) (R : σ → τ → Prop) : Prop :=
  ∀ s t t', R s t → stepτ t = some t' → ∃ s', step s = some s' ∧ R s' t'

namespace Simulates

variable {stepτ : τ → Option τ} {R : σ → τ → Prop}

/-- A simulation carries over whole runs. -/
theorem after_lift (hsim : Simulates step stepτ R) {n : ℕ} {s : σ} {t t' : τ}
    (hR : R s t) (h : after stepτ n t = some t') :
    ∃ s', after step n s = some s' ∧ R s' t' := by
  induction n generalizing s t with
  | zero =>
    rw [after_zero, Option.some_inj] at h
    exact ⟨s, rfl, h ▸ hR⟩
  | succ n ih =>
    obtain ⟨t₁, ht, hn⟩ := Option.bind_eq_some_iff.mp h
    obtain ⟨s₁, hs, hR₁⟩ := hsim s t t₁ hR ht
    obtain ⟨s', hs', hR'⟩ := ih hR₁ hn
    exact ⟨s', by rw [after_succ_of hs, hs'], hR'⟩

/-- Observers that agree on related states agree on related runs. -/
theorem observe_eq (hsim : Simulates step stepτ R) {obsτ : τ → List γ}
    (hobs : ∀ s t t', R s t → stepτ t = some t' → obs s = obsτ t)
    {n : ℕ} {s : σ} {t t' : τ} (hR : R s t) (h : after stepτ n t = some t') :
    observe step obs n s = observe stepτ obsτ n t := by
  induction n generalizing s t with
  | zero => rfl
  | succ n ih =>
    obtain ⟨t₁, ht, hn⟩ := Option.bind_eq_some_iff.mp h
    obtain ⟨s₁, hs, hR₁⟩ := hsim s t t₁ hR ht
    rw [observe_succ_of hs, observe_succ_of ht, hobs s t t₁ hR ht, ih hR₁ hn]

end Simulates

end Run
