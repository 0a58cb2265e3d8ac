import Mathlib.Data.List.Forall2
import Eater6502.DebuggerClock

/-!
# Bytes that are ignored

Two runs from one state, on batches that hold the same command letters in the
same order and differ in the other bytes (`SameLetters`). The bytes that are not
command letters have no effect of their own. But an iteration acts upon the first
byte of its batch and drops the rest, so that such a byte in front of a command
takes its place: `sameRun_iff` says that the two runs agree exactly if in no
iteration one batch begins with a command and the other does not.
-/

namespace Debugger

open Arduino

/-- A byte that is a command letter. -/
def isLetter (b : Byte) : Bool := (command? b).isSome

/-- **Batches that differ in ignored bytes only.** -/
def SameLetters (batch batch' : List Byte) : Prop :=
  batch.filter isLetter = batch'.filter isLetter

/-- A batch that begins with a command letter. -/
def StartsWithCommand (batch : List Byte) : Prop := ∃ b ∈ batch.head?, isLetter b = true

/-- What is driven, and to which level. -/
def driven (es : List Event) : List (ℕ × Bool) :=
  es.filterMap fun
    | .write pin level =>
      if pin ∈ [CLK_PIN, RESET_PIN, LED_BUILTIN] then some (pin, level) else none
    | _ => none

/-- **Two runs that agree**: after each number of iterations the same commands have
been performed, the modes are the same, and so are the writes to the clock, the
reset line and the LED. -/
structure SameRun (t : Target) (s : State) (batches batches' : List (List Byte)) : Prop where
  performed : ∀ k, (run t s (batches.take k)).performed
    = (run t s (batches'.take k)).performed
  continuousMode : ∀ k, (run t s (batches.take k)).continuousMode
    = (run t s (batches'.take k)).continuousMode
  freeRunMode : ∀ k, (run t s (batches.take k)).freeRunMode
    = (run t s (batches'.take k)).freeRunMode
  driven : ∀ k, driven (run t s (batches.take k)).port.events
    = driven (run t s (batches'.take k)).port.events

/-- What the elements of two lists bring is known one by one, if it is known after each number of
elements what has been brought. -/
theorem map_eq_of_filterMap_take {α β : Type} {f : α → Option β} {l l' : List α}
    (hlen : l.length = l'.length)
    (h : ∀ k, (l.take k).filterMap f = (l'.take k).filterMap f) : l.map f = l'.map f := by
  have hcons : ∀ (a : α) (l : List α), (a :: l).filterMap f = (f a).toList ++ l.filterMap f := by
    intro a l
    rw [List.filterMap_cons]
    cases f a <;> rfl
  induction l generalizing l' with
  | nil => rw [List.eq_nil_of_length_eq_zero hlen.symm]
  | cons a l ih =>
    obtain ⟨a', l', rfl⟩ := List.exists_cons_of_length_eq_add_one hlen.symm
    have hhead : (f a).toList = (f a').toList := by
      have h1 : [a].filterMap f = [a'].filterMap f := h 1
      rw [hcons, hcons] at h1
      exact List.append_cancel_right h1
    have hrest : l.map f = l'.map f := by
      refine ih (Nat.succ_inj.mp hlen) fun k => ?_
      have hk : (a :: l.take k).filterMap f = (a' :: l'.take k).filterMap f := h (k + 1)
      rw [hcons, hcons, hhead] at hk
      exact List.append_cancel_left hk
    have hfirst := congrArg List.head? hhead
    rw [Option.head?_toList, Option.head?_toList] at hfirst
    rw [List.map_cons, List.map_cons, hfirst, hrest]

section Letters

variable {batch batch' : List Byte}

theorem executed?_cons (b : Byte) (batch : List Byte) : executed? (b :: batch) = command? b := by
  rw [executed?, List.head?_cons, Option.bind_some]

/-- A batch that begins with a command letter is a batch that brings a command. -/
theorem isSome_executed? : (executed? batch).isSome = true ↔ StartsWithCommand batch := by
  unfold StartsWithCommand executed?
  cases batch with
  | nil => simp
  | cons b batch => simp [isLetter]

theorem executed?_eq_none (h : ¬ StartsWithCommand batch) : executed? batch = none :=
  Option.not_isSome_iff_eq_none.mp fun hs => h (isSome_executed?.mp hs)

/-- The command it brings is that of its first letter. -/
theorem executed?_eq_of_starts (h : StartsWithCommand batch) :
    executed? batch = executed? (batch.filter isLetter) := by
  obtain ⟨b, hhead, hb⟩ := h
  cases batch with
  | nil => exact absurd hhead (Option.not_mem_none b)
  | cons d batch =>
    obtain rfl : d = b := Option.some.inj hhead
    rw [List.filter_cons_of_pos hb, executed?_cons, executed?_cons]

/-- **The commands are the same if both batches begin with one, or neither does.** -/
theorem executed?_eq_iff (h : SameLetters batch batch') :
    executed? batch = executed? batch' ↔ (StartsWithCommand batch ↔ StartsWithCommand batch') := by
  refine ⟨fun heq => by rw [← isSome_executed?, heq, isSome_executed?], fun hiff => ?_⟩
  by_cases hs : StartsWithCommand batch
  · rw [executed?_eq_of_starts hs, executed?_eq_of_starts (hiff.mp hs), h]
  · rw [executed?_eq_none hs, executed?_eq_none fun hs' => hs (hiff.mpr hs')]

theorem map_executed?_eq_iff {batches batches' : List (List Byte)}
    (h : List.Forall₂ SameLetters batches batches') :
    batches.map executed? = batches'.map executed?
      ↔ List.Forall₂ (fun b b' => StartsWithCommand b ↔ StartsWithCommand b') batches batches' := by
  induction h with
  | nil => exact ⟨fun _ => .nil, fun _ => rfl⟩
  | cons h _ ih =>
    rw [List.map_cons, List.map_cons, List.cons_eq_cons, List.forall₂_cons, ih,
      executed?_eq_iff h]

end Letters

section Runs

variable {t : Target} {s : State} {h : List Event} {m : Mode}

/-- Nothing but its command matters of a batch. -/
theorem iterationEvents_congr {batch batch' : List Byte}
    (heq : executed? batch = executed? batch') :
    iterationEvents t h m batch = iterationEvents t h m batch'
      ∧ m.after batch = m.after batch' := by
  unfold iterationEvents batchEvents Mode.after
  rw [heq]
  exact ⟨rfl, rfl⟩

/-- Nothing but their commands matters of the batches of a run. -/
theorem trace_congr {batches batches' : List (List Byte)}
    (heq : batches.map executed? = batches'.map executed?) :
    trace t h m batches = trace t h m batches'
      ∧ batches.foldl Mode.after m = batches'.foldl Mode.after m := by
  induction batches generalizing batches' h m with
  | nil =>
    rw [List.map_eq_nil_iff.mp heq.symm]
    exact ⟨rfl, rfl⟩
  | cons batch batches ih =>
    cases batches' with
    | nil => exact absurd heq (by simp)
    | cons batch' batches' =>
      obtain ⟨hbatch, hbatches⟩ := List.cons_eq_cons.mp heq
      obtain ⟨hevents, hmode⟩ := iterationEvents_congr (t := t) (h := h) (m := m) hbatch
      rw [trace, trace, List.foldl_cons, List.foldl_cons, hevents, hmode]
      obtain ⟨htrace, hfold⟩ := ih (h := h ++ iterationEvents t h m batch')
        (m := m.after batch') hbatches
      exact ⟨by rw [htrace], hfold⟩

theorem sameRun_of_commands (hs : s.At h m) {batches batches' : List (List Byte)}
    (heq : batches.map executed? = batches'.map executed?) : SameRun t s batches batches' := by
  have hat : ∀ k, (run t s (batches.take k)).performed = (run t s (batches'.take k)).performed
      ∧ (run t s (batches.take k)).port = (run t s (batches'.take k)).port
      ∧ ∃ m', (run t s (batches.take k)).InMode m' ∧ (run t s (batches'.take k)).InMode m' := by
    intro k
    have hk : (batches.take k).map executed? = (batches'.take k).map executed? := by
      rw [List.map_take, List.map_take, heq]
    obtain ⟨htrace, hfold⟩ := trace_congr (t := t) (h := h) (m := m) hk
    have hrun := run_at (t := t) hs (batches.take k)
    have hrun' := run_at (t := t) hs (batches'.take k)
    rw [htrace, hfold] at hrun
    refine ⟨?_, hrun.port.trans hrun'.port.symm, _, hrun.mode, hrun'.mode⟩
    have hcommands := congrArg (List.filterMap id) hk
    rw [List.filterMap_map, List.filterMap_map] at hcommands
    rw [run_performed hs, run_performed hs]
    exact congrArg (s.performed ++ ·) hcommands
  refine ⟨fun k => (hat k).1, fun k => ?_, fun k => ?_, fun k => ?_⟩
  · obtain ⟨-, -, m', hm, hm'⟩ := hat k
    rw [hm.1, hm'.1]
  · obtain ⟨-, -, m', hm, hm'⟩ := hat k
    rw [hm.2, hm'.2]
  · rw [(hat k).2.1]

/-- Two runs that agree have performed the commands of their batches. -/
theorem commands_of_sameRun (hs : s.At h m) {batches batches' : List (List Byte)}
    (hlen : batches.length = batches'.length) (hsame : SameRun t s batches batches') :
    batches.map executed? = batches'.map executed? := by
  refine map_eq_of_filterMap_take hlen fun k => ?_
  have hk := hsame.performed k
  rw [run_performed hs, run_performed hs] at hk
  exact List.append_cancel_left hk

/-- **Two runs agree if and only if their batches begin with commands alike.** -/
theorem sameRun_iff (hs : s.At h m) {batches batches' : List (List Byte)}
    (hletters : List.Forall₂ SameLetters batches batches') :
    SameRun t s batches batches'
      ↔ List.Forall₂ (fun b b' => StartsWithCommand b ↔ StartsWithCommand b') batches batches' :=
  ⟨fun h => (map_executed?_eq_iff hletters).mp (commands_of_sameRun hs hletters.length_eq h),
    fun h => sameRun_of_commands hs ((map_executed?_eq_iff hletters).mpr h)⟩

end Runs

/-- **Ignored bytes have no influence, unless one of them stands before a command
that begins a batch**: from any state the sketch can be in between two iterations. -/
theorem ignored_bytes (t : Target) (past batches batches' : List (List Byte))
    (hletters : List.Forall₂ SameLetters batches batches') :
    SameRun t (run t (ready t) past) batches batches'
      ↔ List.Forall₂ (fun b b' => StartsWithCommand b ↔ StartsWithCommand b') batches batches' :=
  sameRun_iff (run_at (ready_at t) past) hletters

/-- A line ending behind a command. -/
theorem newline_behind_command :
    SameRun (fun _ _ => HIGH) (run (fun _ _ => HIGH) (ready fun _ _ => HIGH) [])
        [[ascii 'f']] [[ascii 'f', ascii '\r', ascii '\n']]
      ↔ List.Forall₂ (fun b b' => StartsWithCommand b ↔ StartsWithCommand b')
        [[ascii 'f']] [[ascii 'f', ascii '\r', ascii '\n']] :=
  ignored_bytes (fun _ _ => HIGH) [] [[ascii 'f']] [[ascii 'f', ascii '\r', ascii '\n']]
    (.cons (by unfold SameLetters; decide) .nil)

/-- A run on one batch, with all pins high. -/
def runOn (batch : List Byte) : State := run (fun _ _ => HIGH) (ready fun _ _ => HIGH) [batch]

/-- **A line ending in front of a command costs the command**: it is not performed, the mode
is not changed, and nothing is driven. -/
theorem newline_costs_command :
    List.Forall₂ SameLetters [[ascii 'f']] [[ascii '\n', ascii 'f']]
      ∧ ¬ SameRun (fun _ _ => HIGH) (ready fun _ _ => HIGH)
        [[ascii 'f']] [[ascii '\n', ascii 'f']]
      ∧ (runOn [ascii 'f']).performed = [.freeRun]
      ∧ (runOn [ascii '\n', ascii 'f']).performed = []
      ∧ (runOn [ascii 'f']).freeRunMode = true
      ∧ (runOn [ascii '\n', ascii 'f']).freeRunMode = false
      ∧ driven (runOn [ascii 'f']).port.events
        ≠ driven (runOn [ascii '\n', ascii 'f']).port.events := by
  have hmode : (runOn [ascii 'f']).freeRunMode = true := by decide +kernel
  have hmode' : (runOn [ascii '\n', ascii 'f']).freeRunMode = false := by decide +kernel
  refine ⟨.cons (by unfold SameLetters; decide) .nil, fun h => ?_, by decide +kernel,
    by decide +kernel, hmode, hmode', by decide +kernel⟩
  have hsame : (runOn [ascii 'f']).freeRunMode = (runOn [ascii '\n', ascii 'f']).freeRunMode :=
    h.freeRunMode 1
  rw [hmode, hmode'] at hsame
  exact Bool.noConfusion hsame

end Debugger
