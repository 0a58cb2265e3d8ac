import Eater6502.Clocked
import Eater6502.DebuggerLog

/-!
# The debugger and what hangs on it

A device hangs on the clock and the reset line that the sketch drives, and its pins
are those the sketch reads. The two of them together are a `Session`: somebody at the
terminal has a mode, a device in a state, and the states he was shown. A command
moves the device (`Command.drive`), the mode moves it (`Mode.drive`), and some of them
show it.

Nothing else happens to the device, and nothing else is shown (`session_followed`):
the log is the reports of the states the session saw, one line for each of them.
What is then to be said of the debugger is said of the session. To look at the device
does not change what becomes of it (`looking_is_free`), to let it run is to step it
(`running_is_stepping`), and what happens behind a reset does not depend on what
happened before it (`reset_reproduces`).
-/

namespace Debugger

open Arduino

/-- What hangs on the debugger. -/
abbrev Hanging (σ : Type*) := Device CLK_PIN RESET_PIN σ

/-- A device that is at rest: the clock is high, and so is the reset line. -/
def resting {σ : Type*} (s : σ) : Wired σ := ⟨HIGH, HIGH, s⟩

variable {σ : Type*}

/-! ## The session -/

section Session

variable (d : Hanging σ)

/-- What a reset does to the device: cycles with the reset line high, low, and high
again. -/
def resetPulse (s : σ) : σ := (d.cycle HIGH)^[20] ((d.cycle LOW)^[20] ((d.cycle HIGH)^[4] s))

/-- What a command does to the device. -/
def Command.drive (s : σ) : Command → σ
  | .reset | .freeRun => resetPulse d s
  | .step => d.cycle HIGH s
  | _ => s

/-- What a mode does to it. -/
def Mode.drive (s : σ) : Mode → σ
  | .idle => s
  | .continuous | .freeRun => d.cycle HIGH s

/-- **A session**: the mode, the state of the device, and the states that were shown,
the oldest first. -/
structure Session (σ : Type*) where
  mode : Mode
  state : σ
  shown : List σ

/-- A session that begins. -/
def Session.start (s : σ) : Session σ := ⟨.idle, s, []⟩

/-- A command, carried out. -/
def Session.act (S : Session σ) (c : Command) : Session σ where
  mode := S.mode.apply c
  state := c.drive d S.state
  shown := S.shown ++ if c.takesSample then [c.drive d S.state] else []

/-- The command of a batch, if there is one. -/
def Session.serve (S : Session σ) (batch : List Byte) : Session σ :=
  (executed? batch).elim S (S.act d)

/-- The mode, at work. -/
def Session.tick (S : Session σ) : Session σ :=
  { S with
    state := S.mode.drive d S.state
    shown := S.shown ++ if S.mode.isContinuous then [S.mode.drive d S.state] else [] }

/-- **A session goes on**, with a batch for each iteration. -/
def Session.run (S : Session σ) (batches : List (List Byte)) : Session σ :=
  batches.foldl (fun S batch => (S.serve d batch).tick d) S

end Session

/-! ## The device moves as the session says -/

section Moves

variable {d : Hanging σ} {t : Target} {h es : List Event} {s : σ}

/-- Some cycles of the clock. -/
theorem foldl_see_pulses {n : ℕ} {reset : Bool} (hclk : writes CLK_PIN es = pulses n)
    (hrst : writes RESET_PIN es = []) :
    es.foldl d.see ⟨HIGH, reset, s⟩ = ⟨HIGH, reset, (d.cycle reset)^[n] s⟩ := by
  rw [Device.foldl_see hrst, hclk]
  clear hclk
  induction n generalizing s with
  | zero => rfl
  | succ n ih =>
    rw [Nat.add_comm, pulses_add, List.foldl_append, Nat.add_comm, Function.iterate_succ_apply]
    exact ih

theorem foldl_see_resetEvents :
    resetEvents.foldl d.see (resting s) = resting (resetPulse d s) := by
  have hbefore : ∀ s, (cycles 4).foldl d.see (resting s) = resting ((d.cycle HIGH)^[4] s) :=
    fun _ => foldl_see_pulses (writes_cycles 4) (writes_reset_cycles 4)
  have hduring : ∀ s, (cycles 20).foldl d.see ⟨HIGH, LOW, s⟩
      = ⟨HIGH, LOW, (d.cycle LOW)^[20] s⟩ :=
    fun _ => foldl_see_pulses (writes_cycles 20) (writes_reset_cycles 20)
  have hafter : ∀ s, (cycles 20).foldl d.see (resting s) = resting ((d.cycle HIGH)^[20] s) :=
    fun _ => foldl_see_pulses (writes_cycles 20) (writes_reset_cycles 20)
  -- the reset line falls and rises between two cycles
  have hfall : ∀ s, [.write RESET_PIN LOW, .write LED_BUILTIN LOW].foldl d.see (resting s)
      = ⟨HIGH, LOW, s⟩ := fun _ => rfl
  have hrise : ∀ s, saysReset.foldl d.see ⟨HIGH, LOW, s⟩ = resting s := fun _ => rfl
  simp only [resetEvents, List.foldl_append, hbefore, hfall, hduring, hrise, hafter]
  rfl

theorem foldl_see_commandEvents {continuous : Bool} (c : Command) :
    (commandEvents t h continuous c).foldl d.see (resting s) = resting (c.drive d s) := by
  have hquiet : writes CLK_PIN (commandEvents t h continuous c) = pulses c.cycles :=
    writes_commandEvents c
  cases c with
  | reset => exact foldl_see_resetEvents
  | freeRun =>
    show (resetEvents ++ _).foldl d.see (resting s) = _
    rw [List.foldl_append, foldl_see_resetEvents]
    rfl
  | step => exact foldl_see_pulses hquiet (writes_reset_commandEvents (c := .step))
  | continuous => exact foldl_see_pulses hquiet (writes_reset_commandEvents (c := .continuous))
  | read => exact foldl_see_pulses hquiet (writes_reset_commandEvents (c := .read))
  | help => exact foldl_see_pulses hquiet (writes_reset_commandEvents (c := .help))

theorem foldl_see_modeEvents (m : Mode) :
    (modeEvents t h m).foldl d.see (resting s) = resting (m.drive d s) := by
  refine (foldl_see_pulses writes_modeEvents writes_reset_modeEvents).trans ?_
  cases m <;> rfl

/-- `setup` puts the device at rest, with an edge of the clock if that was low. -/
theorem foldl_see_setupEvents (w : Wired σ) :
    (setupEvents t).foldl d.see w = resting (d.setClock w HIGH).state := by
  have hout : setupOutput.foldl d.see w = { d.setClock w HIGH with reset := HIGH } := rfl
  have hquiet : ∀ (w : Wired σ) (h : List Event) (pins : List ℕ),
      (readEvents t h pins).foldl d.see w = w := by
    intro w h pins
    rw [Device.foldl_see (writes_readEvents pins), writes_readEvents]
    rfl
  simp only [setupEvents, List.foldl_append, hout, hquiet]
  exact Wired.ext (Device.setClock_clock w HIGH) rfl rfl

/-- **A device keeps its levels while the clock is held high.** -/
theorem steady_target (d : Hanging σ) (w : Wired σ) : Steady (d.target w) := by
  intro h e hh he pin _
  have hclock : ((h ++ [e]).foldl d.see w).clock = (h.foldl d.see w).clock := by
    rw [Device.clock_foldl_see, Device.clock_foldl_see, hh, he]
  have hstate : ((h ++ [e]).foldl d.see w).state = (h.foldl d.see w).state := by
    rw [List.foldl_append]
    exact Device.state_see hh he
  show d.drives _ _ pin = d.drives _ _ pin
  rw [hclock, hstate]

end Moves

/-! ## The log shows what the session was shown -/

/-- **The report of some levels of the pins**, as it is printed. -/
def report (levels : ℕ → Bool) : List Char :=
  stateLine (readValue (fun _ => levels) [] ADDR 0 0) (readValue (fun _ => levels) [] DATA 0 0)
    (levels RW_PIN)

/-- **A stretch of a history that prints some state lines**, and no part of a line. -/
def Tells (es : List Event) (ls : List (List Char)) : Prop :=
  ∃ lines, output es = Text.unlines lines ∧ (∀ l ∈ lines, '\r' ∉ l)
    ∧ lines.filter isStateLine = ls

namespace Tells

variable {es es' : List Event} {ls ls' : List (List Char)}

theorem append (hes : Tells es ls) (hes' : Tells es' ls') : Tells (es ++ es') (ls ++ ls') := by
  obtain ⟨lines, hout, hlines, rfl⟩ := hes
  obtain ⟨lines', hout', hlines', rfl⟩ := hes'
  refine ⟨lines ++ lines', ?_, fun l hl => ?_, List.filter_append lines lines'⟩
  · rw [output_append, hout, hout', Text.unlines_append]
  · exact (List.mem_append.mp hl).elim (hlines l) (hlines' l)

/-- What is logged without a sample tells nothing. -/
theorem of_logged {t : Target} {h : List Event} (hes : Logged t h es 0) : Tells es [] := by
  obtain ⟨lines, hout, hlines⟩ := hes.whole
  refine ⟨lines, hout, hlines, ?_⟩
  have hreports := hes.reports
  rw [List.length_eq_zero_iff.mp hes.count, hout, stateLines_unlines hlines] at hreports
  exact List.forall₂_nil_right_iff.mp hreports

/-- A state line behind whole lines that are none. -/
theorem stateLines_eq (hes : Tells es ls) : stateLines (output es) = ls := by
  obtain ⟨lines, hout, hlines, rfl⟩ := hes
  rw [hout, stateLines_unlines hlines]

end Tells

/-- Values read where nothing changes are the same if the levels are. -/
theorem readValue_eq {t t' : Target} {h h' : List Event} {pins : List ℕ} {width : ℕ}
    (hlevels : levels t h pins = levels t' h' pins) :
    readValue t h pins 0 (BitVec.ofNat width 0) = readValue t' h' pins 0 (BitVec.ofNat width 0) := by
  ext i hi
  rw [← BitVec.getLsbD_eq_getElem, ← BitVec.getLsbD_eq_getElem, getLsbD_readValue pins 0 _ hi,
    getLsbD_readValue pins 0 _ hi, hlevels]

/-- **The bus read and reported is a report of its levels.** -/
theorem tells_sampleEvents {t : Target} {h : List Event} (ht : Steady t)
    (hh : lastWrite CLK_PIN h = some HIGH) : Tells (sampleEvents t h) [report (t h)] := by
  have haddr : writes CLK_PIN (readEvents t h ADDR) = [] := writes_readEvents ADDR
  have hdata : writes CLK_PIN (readEvents t (h ++ readEvents t h ADDR) DATA) = [] :=
    writes_readEvents DATA
  have hhigh : lastWrite CLK_PIN (h ++ readEvents t h ADDR) = some HIGH := by
    rw [lastWrite_append_of_nil haddr, hh]
  -- each part of the report, as it is read and as it is from the levels
  have haddrs : readValue t h ADDR 0 (0 : BitVec 16)
      = readValue (fun _ => t h) [] ADDR 0 0 := by
    refine readValue_eq ?_
    rw [levels_eq ht hh (by decide)]
    rfl
  have hdatas : readValue t (h ++ readEvents t h ADDR) DATA 0 (0 : Byte)
      = readValue (fun _ => t h) [] DATA 0 0 := by
    refine readValue_eq ?_
    rw [levels_eq ht hhigh (by decide)]
    refine List.map_congr_left fun pin hpin => ht.append_eq hh haddr ?_
    exact List.mem_append_left _ (List.mem_append_right ADDR hpin)
  have hrw : t (h ++ readEvents t h ADDR
      ++ readEvents t (h ++ readEvents t h ADDR) DATA) RW_PIN = t h RW_PIN := by
    rw [List.append_assoc]
    refine ht.append_eq hh ?_ (by decide)
    rw [writes_append, haddr, hdata, List.append_nil]
  have hout : output (sampleEvents t h) = Text.unlines [report (t h)] := by
    simp only [sampleEvents, output_append, output_readEvents, output_stateEvents, hrw, haddrs,
      hdatas]
    rfl
  refine ⟨[report (t h)], hout, fun l hl => ?_, ?_⟩
  · rw [List.mem_singleton.mp hl]
    exact not_mem_stateLine _ _ _
  · exact List.filter_cons_of_pos (isStateLine_stateLine _ _ _)

section Following

variable {d : Hanging σ} {w : Wired σ} {h : List Event} {s : σ}

/-- The states that are shown, reported. -/
def reports (d : Hanging σ) (shown : List σ) : List (List Char) :=
  shown.map fun s => report (d.drives HIGH s)

theorem tells_stepEvents (hs : h.foldl d.see w = resting s) :
    Tells (stepEvents (d.target w) h) (reports d [d.cycle HIGH s]) := by
  have hpulse : (h ++ pulseEvents).foldl d.see w = resting (d.cycle HIGH s) := by
    rw [List.foldl_append, hs]
    exact foldl_see_pulses (n := 1) rfl rfl
  have htells := tells_sampleEvents (h := h ++ pulseEvents) (steady_target d w)
    (lastWrite_append_of_last rfl)
  rw [Device.target_eq hpulse] at htells
  exact (Tells.of_logged (h := h) (t := d.target w) (.of_quiet (by decide))).append htells

variable (hs : h.foldl d.see w = resting s) (hh : lastWrite CLK_PIN h = some HIGH)
include hs hh

/-- **A command shows what it should.** -/
theorem tells_commandEvents {continuous : Bool} (c : Command) :
    Tells (commandEvents (d.target w) h continuous c)
      (reports d (if c.takesSample then [c.drive d s] else [])) := by
  cases c with
  | step => exact tells_stepEvents hs
  | read =>
    have htells := tells_sampleEvents (steady_target d w) hh
    rw [Device.target_eq hs] at htells
    exact htells
  | reset => exact .of_logged (logged_commandEvents (steady_target d w) hh .reset)
  | continuous => exact .of_logged (logged_commandEvents (steady_target d w) hh .continuous)
  | freeRun => exact .of_logged (logged_commandEvents (steady_target d w) hh .freeRun)
  | help => exact .of_logged (logged_commandEvents (steady_target d w) hh .help)

omit hh in
/-- **And so does a mode.** -/
theorem tells_modeEvents (m : Mode) : Tells (modeEvents (d.target w) h m)
    (reports d (if m.isContinuous then [m.drive d s] else [])) := by
  cases m with
  | idle => exact .of_logged (logged_modeEvents (steady_target d w) (h := h))
  | continuous =>
    have hwait : Tells [.wait 500000] _ := .of_logged (t := d.target w) (h := h)
      (.of_quiet (by decide))
    exact (tells_stepEvents hs).append hwait
  | freeRun => exact .of_logged (logged_modeEvents (steady_target d w) (h := h))

end Following

/-! ## The session is what happens -/

/-- **A stretch of a history takes a session on**: it moves the device, and tells of
the states that are shown. -/
structure Follows (d : Hanging σ) (es : List Event) (S S' : Session σ) : Prop where
  moves : es.foldl d.see (resting S.state) = resting S'.state
  shows : ∃ shown, S'.shown = S.shown ++ shown ∧ Tells es (reports d shown)

namespace Follows

variable {d : Hanging σ} {es es' : List Event} {S S' S'' : Session σ}

theorem refl (S : Session σ) : Follows d [] S S :=
  ⟨rfl, [], (List.append_nil _).symm, [], rfl, fun _ hl => absurd hl List.not_mem_nil, rfl⟩

theorem trans (h : Follows d es S S') (h' : Follows d es' S' S'') :
    Follows d (es ++ es') S S'' := by
  obtain ⟨shown, hshown, htells⟩ := h.shows
  obtain ⟨shown', hshown', htells'⟩ := h'.shows
  refine ⟨?_, shown ++ shown', ?_, ?_⟩
  · rw [List.foldl_append, h.moves, h'.moves]
  · rw [hshown', hshown, List.append_assoc]
  · rw [reports, List.map_append]
    exact htells.append htells'

/-- A stretch that takes a session on is behind what took the device to where it is. -/
theorem foldl_see {w : Wired σ} {h : List Event} (hs : h.foldl d.see w = resting S.state)
    (hes : Follows d es S S') : (h ++ es).foldl d.see w = resting S'.state := by
  rw [List.foldl_append, hs, hes.moves]

end Follows

section Session

variable {d : Hanging σ} {w : Wired σ} {h : List Event} {S : Session σ}

theorem Session.mode_serve (batch : List Byte) : (S.serve d batch).mode = S.mode.after batch := by
  unfold Session.serve Mode.after
  cases executed? batch <;> rfl

theorem Session.mode_run (batches : List (List Byte)) :
    (S.run d batches).mode = batches.foldl Mode.after S.mode := by
  induction batches generalizing S with
  | nil => rfl
  | cons batch batches ih =>
    refine (ih (S := (S.serve d batch).tick d)).trans ?_
    show batches.foldl Mode.after (S.serve d batch).mode = _
    rw [Session.mode_serve, List.foldl_cons]

variable (hs : h.foldl d.see w = resting S.state)
include hs

/-- **The mode at work.** -/
theorem tick_follows : Follows d (modeEvents (d.target w) h S.mode) S (S.tick d) :=
  ⟨foldl_see_modeEvents S.mode, _, rfl, tells_modeEvents hs S.mode⟩

variable (hh : lastWrite CLK_PIN h = some HIGH)
include hh

/-- **A batch served.** -/
theorem serve_follows (batch : List Byte) :
    Follows d (batchEvents (d.target w) h S.mode batch) S (S.serve d batch) := by
  unfold batchEvents Session.serve
  cases executed? batch with
  | none => exact .refl S
  | some c => exact ⟨foldl_see_commandEvents c, _, rfl, tells_commandEvents hs hh c⟩

/-- **An iteration of the sketch is one of the session.** -/
theorem iteration_follows (batch : List Byte) :
    Follows d (iterationEvents (d.target w) h S.mode batch) S ((S.serve d batch).tick d) := by
  have hserve := serve_follows hs hh batch
  have htick := tick_follows (S := S.serve d batch) (hserve.foldl_see hs)
  rw [Session.mode_serve] at htick
  exact hserve.trans htick

/-- **A run of the sketch is one of the session.** -/
theorem run_follows (batches : List (List Byte)) :
    Follows d (trace (d.target w) h S.mode batches) S (S.run d batches) := by
  induction batches generalizing h S with
  | nil => exact .refl S
  | cons batch batches ih =>
    have hstep := iteration_follows hs hh batch
    have hmode : ((S.serve d batch).tick d).mode = S.mode.after batch :=
      Session.mode_serve batch
    have hrun := ih (S := (S.serve d batch).tick d) (hstep.foldl_see hs)
      (lastWrite_pulses hh (writes_iterationEvents batch))
    rw [hmode] at hrun
    exact hstep.trans hrun

end Session

/-- The session of a run, on a device that was as `w` before the sketch was started. -/
def session (d : Hanging σ) (w : Wired σ) (batches : List (List Byte)) : Session σ :=
  (Session.start (d.setClock w HIGH).state).run d batches

/-- The history of a run on a device. -/
def history (d : Hanging σ) (w : Wired σ) (batches : List (List Byte)) : List Event :=
  (run (d.target w) (ready (d.target w)) batches).port.events

section Followed

variable (d : Hanging σ) (w : Wired σ) (batches : List (List Byte))

theorem history_split : history d w batches = setupEvents (d.target w)
    ++ trace (d.target w) (setupEvents (d.target w)) .idle batches := by
  rw [history, (run_at (t := d.target w) (ready_at (d.target w)) batches).port]

/-- Behind `setup` a run takes the session on, from its start. -/
theorem trace_follows : Follows d (trace (d.target w) (setupEvents (d.target w)) .idle batches)
    (.start (d.setClock w HIGH).state) (session d w batches) :=
  run_follows (S := .start (d.setClock w HIGH).state) (foldl_see_setupEvents w)
    (lastWrite_setupEvents (d.target w)).1 batches

/-- The device is at rest in the state of the session. -/
theorem foldl_see_history :
    (history d w batches).foldl d.see w = resting (session d w batches).state := by
  rw [history_split]
  exact (trace_follows d w batches).foldl_see (foldl_see_setupEvents w)

/-- The log is the reports of what the session was shown. -/
theorem log_session :
    log (d.target w) batches = reports d (session d w batches).shown := by
  obtain ⟨shown, hshown, htells⟩ := (trace_follows d w batches).shows
  show stateLines (output (history d w batches)) = _
  rw [history_split, output_append, output_setupEvents, stateLines_append not_mem_setupLines,
    filter_setupLines]
  refine htells.stateLines_eq.trans ?_
  rw [hshown]
  rfl

/-- The sketch is in the mode of the session. -/
theorem inMode_session :
    (run (d.target w) (ready (d.target w)) batches).InMode (session d w batches).mode := by
  rw [session, Session.mode_run]
  exact (run_at (t := d.target w) (ready_at (d.target w)) batches).mode

/-- **The debugger does to a device what the session says, and shows what it says.**
Between two iterations the device is at rest in the state of the session, and the log
is the reports of the states that were shown. -/
theorem session_followed :
    (history d w batches).foldl d.see w = resting (session d w batches).state
      ∧ log (d.target w) batches = reports d (session d w batches).shown
      ∧ (run (d.target w) (ready (d.target w)) batches).InMode (session d w batches).mode :=
  ⟨foldl_see_history d w batches, log_session d w batches, inMode_session d w batches⟩

end Followed

/-! ## What follows for whoever uses it -/

section Consequences

variable {d : Hanging σ} {S S' : Session σ}

theorem Session.run_append (batches batches' : List (List Byte)) :
    S.run d (batches ++ batches') = (S.run d batches).run d batches' :=
  List.foldl_append

theorem Session.run_cons (batch : List Byte) (batches : List (List Byte)) :
    S.run d (batch :: batches) = ((S.serve d batch).tick d).run d batches := rfl

/-! ### Looking -/

/-- The commands that do no more than look, or print. -/
def Command.looks : Command → Bool
  | read | help => true
  | _ => false

/-- A batch without its command, if that only looks. -/
def unlooked (batch : List Byte) : List Byte :=
  if (executed? batch).any Command.looks then [] else batch

/-- Two sessions that differ in that less was shown in the one. -/
structure Session.Blinder (S S' : Session σ) : Prop where
  mode : S.mode = S'.mode
  state : S.state = S'.state
  shown : S.shown.Sublist S'.shown

namespace Session.Blinder

theorem tick (h : S.Blinder S') : (S.tick d).Blinder (S'.tick d) := by
  unfold Session.tick
  rw [h.mode, h.state]
  exact ⟨rfl, rfl, h.shown.append_right _⟩

theorem act (h : S.Blinder S') (c : Command) : (S.act d c).Blinder (S'.act d c) := by
  unfold Session.act
  rw [h.mode, h.state]
  exact ⟨rfl, rfl, h.shown.append_right _⟩

/-- A look shows something, and does nothing else. -/
theorem look (h : S.Blinder S') {c : Command} (hc : c.looks = true) :
    S.Blinder (S'.act d c) := by
  have hmode : S'.mode.apply c = S'.mode := by
    cases c <;> first | exact absurd hc Bool.false_ne_true | (cases S'.mode <;> rfl)
  have hstate : c.drive d S'.state = S'.state := by
    cases c <;> first | exact absurd hc Bool.false_ne_true | rfl
  exact ⟨h.mode.trans hmode.symm, h.state.trans hstate.symm,
    h.shown.trans (List.sublist_append_left _ _)⟩

theorem serve (h : S.Blinder S') (batch : List Byte) :
    (S.serve d (unlooked batch)).Blinder (S'.serve d batch) := by
  unfold unlooked
  by_cases hlooks : (executed? batch).any Command.looks = true
  · rw [if_pos hlooks]
    show S.Blinder (S'.serve d batch)
    unfold Session.serve
    cases hc : executed? batch with
    | none => exact h
    | some c =>
      rw [hc] at hlooks
      exact h.look hlooks
  · rw [if_neg hlooks]
    unfold Session.serve
    cases executed? batch with
    | none => exact h
    | some c => exact h.act c

theorem run (h : S.Blinder S') (batches : List (List Byte)) :
    (S.run d (batches.map unlooked)).Blinder (S'.run d batches) := by
  induction batches generalizing S S' with
  | nil => exact h
  | cons batch batches ih => exact ih (h.serve batch).tick

end Session.Blinder

/-! ### Running -/

/-- A batch that asks for nothing, against one that asks for a step. -/
def Paces (batch batch' : List Byte) : Prop :=
  executed? batch = none ∧ executed? batch' = some .step

/-- A session that runs by itself in a mode, and one that is stepped: the device is
where it is in the other, and if the mode shows every cycle, so is what was shown. -/
structure Session.Paced (m : Mode) (S S' : Session σ) : Prop where
  mode : S.mode = m
  idle : S'.mode = .idle
  state : S.state = S'.state
  shown : m = .continuous → S.shown = S'.shown

namespace Session.Paced

variable {m : Mode} (hm : m ≠ .idle)
include hm

/-- **An iteration of the one is a step of the other.** -/
theorem iteration (h : S.Paced m S') {batch batch' : List Byte} (hb : Paces batch batch') :
    ((S.serve d batch).tick d).Paced m ((S'.serve d batch').tick d) := by
  have hquiet : S.serve d batch = S := by
    rw [Session.serve, hb.1]
    rfl
  have hstep : (S'.serve d batch').tick d
      = ⟨.idle, d.cycle HIGH S'.state, S'.shown ++ [d.cycle HIGH S'.state]⟩ := by
    rw [Session.serve, hb.2]
    unfold Session.tick Session.act
    simp only [Option.elim_some, h.idle]
    exact congrArg (Session.mk _ _) (List.append_nil _)
  rw [hquiet, hstep]
  refine ⟨h.mode, rfl, ?_, fun hcont => ?_⟩
  · show S.mode.drive d S.state = d.cycle HIGH S'.state
    rw [h.state, h.mode]
    cases m with
    | idle => exact absurd rfl hm
    | continuous => rfl
    | freeRun => rfl
  · unfold Session.tick
    rw [h.shown hcont, h.state, h.mode, hcont]
    rfl

theorem run (h : S.Paced m S') {batches batches' : List (List Byte)}
    (hbatches : List.Forall₂ Paces batches batches') :
    (S.run d batches).Paced m (S'.run d batches') := by
  induction hbatches generalizing S S' with
  | nil => exact h
  | cons hb _ ih => exact ih (h.iteration hm hb)

end Session.Paced

/-! ### Starting afresh -/

/-- A session before which some states were shown. -/
def Session.behind (S : Session σ) (shown : List σ) : Session σ :=
  { S with shown := shown ++ S.shown }

theorem Session.run_behind (shown : List σ) (batches : List (List Byte)) :
    (S.behind shown).run d batches = (S.run d batches).behind shown := by
  have hact : ∀ (S : Session σ) (c : Command),
      (S.behind shown).act d c = (S.act d c).behind shown :=
    fun S c => congrArg (Session.mk _ _) (List.append_assoc shown S.shown _)
  have htick : ∀ S : Session σ, (S.behind shown).tick d = (S.tick d).behind shown :=
    fun S => congrArg (Session.mk _ _) (List.append_assoc shown S.shown _)
  induction batches generalizing S with
  | nil => rfl
  | cons batch batches ih =>
    have hserve : (S.behind shown).serve d batch = (S.serve d batch).behind shown := by
      unfold Session.serve
      cases executed? batch with
      | none => rfl
      | some c => exact hact S c
    rw [Session.run_cons, hserve, htick, ih, Session.run_cons]

/-- A session as if nothing had been shown. -/
def Session.fresh (S : Session σ) : Session σ := { S with shown := [] }

theorem Session.run_eq_fresh (batches : List (List Byte)) :
    S.run d batches = (S.fresh.run d batches).behind S.shown := by
  rw [← Session.run_behind, Session.behind, Session.fresh, List.append_nil]

/-- **Behind a reset nothing is left of what was before**, but the mode. -/
theorem Session.act_fresh {c : Command} (hc : c.resets = true)
    (hd : ∀ s s', (d.cycle LOW)^[20] s = (d.cycle LOW)^[20] s')
    (hmode : S.mode.apply c = S'.mode.apply c) :
    (S.act d c).fresh = (S'.act d c).fresh := by
  have hpulse : resetPulse d S.state = resetPulse d S'.state :=
    congrArg (d.cycle HIGH)^[20] (hd _ _)
  have hstate : c.drive d S.state = c.drive d S'.state := by
    cases c <;> first | exact hpulse | exact absurd hc Bool.false_ne_true
  unfold Session.act Session.fresh
  rw [hmode, hstate]

end Consequences

section Results

variable (d : Hanging σ) (w : Wired σ)

theorem session_append (batches batches' : List (List Byte)) :
    session d w (batches ++ batches') = (session d w batches).run d batches' :=
  Session.run_append batches batches'

theorem mode_session (batches : List (List Byte)) :
    (session d w batches).mode = (commands batches).foldl Mode.apply .idle := by
  rw [session, Session.mode_run, foldl_after]
  rfl

/-- Two runs take the device the same way if their sessions do. -/
theorem history_eq {w' : Wired σ} {batches batches' : List (List Byte)}
    (h : (session d w batches).state = (session d w' batches').state) :
    (history d w batches).foldl d.see w = (history d w' batches').foldl d.see w' := by
  rw [foldl_see_history, foldl_see_history, h]

/-- **To look does not change what becomes of the device**, nor of the modes. Without
its looks a run takes the device to the same state, and of the lines of the log only
some are missing, those left being the same and in the same order. -/
theorem looking_is_free (batches : List (List Byte)) :
    (history d w (batches.map unlooked)).foldl d.see w = (history d w batches).foldl d.see w
      ∧ (∀ m, (run (d.target w) (ready (d.target w)) batches).InMode m
        → (run (d.target w) (ready (d.target w)) (batches.map unlooked)).InMode m)
      ∧ (log (d.target w) (batches.map unlooked)).Sublist (log (d.target w) batches) := by
  have hblind : (session d w (batches.map unlooked)).Blinder (session d w batches) :=
    Session.Blinder.run ⟨rfl, rfl, .refl _⟩ batches
  have hmode := inMode_session d w batches
  have hmode' := inMode_session d w (batches.map unlooked)
  rw [hblind.mode] at hmode'
  refine ⟨history_eq d w hblind.state, fun m hm => ?_, ?_⟩
  · exact ⟨(hmode'.1.trans hmode.1.symm).trans hm.1, (hmode'.2.trans hmode.2.symm).trans hm.2⟩
  · rw [log_session, log_session]
    exact hblind.shown.map _

/-- **To let the device run is to step it.** The sketch being idle behind `batches`,
continuous mode left alone for some iterations takes the device where as many single
steps take it, and logs the same lines. Free running takes it where a reset and as many
single steps take it, although nothing is looked at in between. -/
theorem running_is_stepping {batches quiet steps : List (List Byte)}
    (hidle : (commands batches).foldl Mode.apply .idle = .idle)
    (hpaces : List.Forall₂ Paces quiet steps) {step continuous freeRun reset : List Byte}
    (hstep : executed? step = some .step)
    (hcontinuous : executed? continuous = some .continuous)
    (hfreeRun : executed? freeRun = some .freeRun) (hreset : executed? reset = some .reset) :
    ((history d w (batches ++ continuous :: quiet)).foldl d.see w
        = (history d w (batches ++ step :: steps)).foldl d.see w
      ∧ log (d.target w) (batches ++ continuous :: quiet)
        = log (d.target w) (batches ++ step :: steps))
    ∧ (history d w (batches ++ freeRun :: quiet)).foldl d.see w
      = (history d w (batches ++ reset :: step :: steps)).foldl d.see w := by
  have hmode : (session d w batches).mode = .idle := (mode_session d w batches).trans hidle
  have hpace : Paces [] step := ⟨rfl, hstep⟩
  -- the command that starts a mode is followed by the first iteration in it
  have hcont : (session d w (batches ++ continuous :: quiet)).Paced .continuous
      (session d w (batches ++ step :: steps)) := by
    rw [session_append, session_append]
    refine .run (by decide)
      (.iteration (S := (session d w batches).serve d continuous) (by decide) ?_ hpace) hpaces
    rw [Session.serve, hcontinuous]
    refine ⟨?_, hmode, rfl, fun _ => List.append_nil _⟩
    show (session d w batches).mode.apply .continuous = .continuous
    rw [hmode]
    rfl
  have hfree : (session d w (batches ++ freeRun :: quiet)).Paced .freeRun
      (session d w (batches ++ reset :: step :: steps)) := by
    rw [session_append, session_append, Session.run_cons reset]
    refine .run (by decide)
      (.iteration (S := (session d w batches).serve d freeRun) (by decide) ?_ hpace) hpaces
    rw [Session.serve, Session.serve, hfreeRun, hreset]
    refine ⟨?_, hmode, ?_, fun hm => absurd hm (by decide)⟩
    · show (session d w batches).mode.apply .freeRun = .freeRun
      rw [hmode]
      rfl
    · show resetPulse d _ = (session d w batches).mode.drive d (resetPulse d _)
      rw [hmode]
      rfl
  refine ⟨⟨history_eq d w hcont.state, ?_⟩, history_eq d w hfree.state⟩
  rw [log_session, log_session, hcont.shown rfl]

/-- A counter of the cycles of the clock, which the reset line holds at zero. -/
def counter : Hanging ℕ where
  edge clock reset n := if clock then n else if reset then n + 1 else 0
  drives _ n pin := n.testBit (busPins.idxOf pin)

/-- A counter left alone, and stepped. -/
theorem counter_runs_and_steps :
    ((history counter ⟨LOW, LOW, 7⟩ ([[], [ascii 'p']] ++ [ascii 'c'] :: [[], [ascii '?']])).foldl
        counter.see ⟨LOW, LOW, 7⟩
      = (history counter ⟨LOW, LOW, 7⟩
        ([[], [ascii 'p']] ++ [ascii 's'] :: [[ascii 'S'], [ascii 's']])).foldl
        counter.see ⟨LOW, LOW, 7⟩
      ∧ log (counter.target ⟨LOW, LOW, 7⟩)
          ([[], [ascii 'p']] ++ [ascii 'c'] :: [[], [ascii '?']])
        = log (counter.target ⟨LOW, LOW, 7⟩)
          ([[], [ascii 'p']] ++ [ascii 's'] :: [[ascii 'S'], [ascii 's']]))
    ∧ (history counter ⟨LOW, LOW, 7⟩ ([[], [ascii 'p']] ++ [ascii 'f'] :: [[], [ascii '?']])).foldl
        counter.see ⟨LOW, LOW, 7⟩
      = (history counter ⟨LOW, LOW, 7⟩
        ([[], [ascii 'p']] ++ [ascii 'r'] :: [ascii 's'] :: [[ascii 'S'], [ascii 's']])).foldl
        counter.see ⟨LOW, LOW, 7⟩ :=
  running_is_stepping counter ⟨LOW, LOW, 7⟩ rfl
    (.cons ⟨rfl, rfl⟩ (.cons ⟨rfl, rfl⟩ .nil)) rfl rfl rfl rfl

/-- **What happens behind a reset does not depend on what happened before it**, if the
device leaves its state when the reset line is held low. From one reset on, two runs
that go on in the same mode take the device the same way and log the same lines,
whatever it was before and whatever was done to it. -/
theorem reset_reproduces (w' : Wired σ) (batches batches' : List (List Byte))
    {reset : List Byte} {c : Command} (hreset : executed? reset = some c)
    (hc : c.resets = true)
    (hd : ∀ s s', (d.cycle LOW)^[20] s = (d.cycle LOW)^[20] s')
    (hmode : ((commands batches).foldl Mode.apply .idle).apply c
      = ((commands batches').foldl Mode.apply .idle).apply c) (more : List (List Byte)) :
    (history d w (batches ++ reset :: more)).foldl d.see w
        = (history d w' (batches' ++ reset :: more)).foldl d.see w'
      ∧ ∃ lines, log (d.target w) (batches ++ reset :: more)
          = log (d.target w) batches ++ lines
        ∧ log (d.target w') (batches' ++ reset :: more)
          = log (d.target w') batches' ++ lines := by
  have hfresh : ((session d w batches).act d c).fresh = ((session d w' batches').act d c).fresh :=
    Session.act_fresh hc hd (by rw [mode_session, mode_session]; exact hmode)
  have hnone : c.takesSample = false := by
    cases c <;> first | rfl | exact absurd hc Bool.false_ne_true
  -- behind the reset the session goes on as if nothing had been shown before
  have hrun : ∀ (w : Wired σ) (batches : List (List Byte)),
      session d w (batches ++ reset :: more)
        = (((session d w batches).act d c).fresh.run d ([] :: more)).behind
          (session d w batches).shown := by
    intro w batches
    have hshown : ((session d w batches).act d c).shown = (session d w batches).shown := by
      unfold Session.act
      rw [hnone]
      exact List.append_nil _
    rw [session_append, Session.run_cons, Session.serve, hreset]
    show ((session d w batches).act d c).run d ([] :: more) = _
    rw [Session.run_eq_fresh, hshown]
  have hlog : ∀ (w : Wired σ) (batches : List (List Byte)),
      log (d.target w) (batches ++ reset :: more) = log (d.target w) batches
        ++ reports d (((session d w batches).act d c).fresh.run d ([] :: more)).shown := by
    intro w batches
    rw [log_session, log_session, hrun]
    exact List.map_append
  refine ⟨history_eq d w ?_, _, hlog w batches, ?_⟩
  · rw [hrun, hrun, hfresh]
    rfl
  · rw [hlog, hfresh]

/-- A counter held at zero does not remember what it had counted. -/
theorem counter_forgets (s s' : ℕ) :
    (counter.cycle LOW)^[20] s = (counter.cycle LOW)^[20] s' := by
  rw [Function.iterate_succ_apply, Function.iterate_succ_apply]
  rfl

/-- Two counters that are reset, the one running at full speed and the other idle
before. -/
theorem counters_reset :
    (history counter ⟨LOW, LOW, 7⟩ ([[ascii 'f'], []] ++ [ascii 'f'] :: [[ascii 's']])).foldl
        counter.see ⟨LOW, LOW, 7⟩
      = (history counter ⟨HIGH, LOW, 0⟩ ([[ascii 'p']] ++ [ascii 'f'] :: [[ascii 's']])).foldl
        counter.see ⟨HIGH, LOW, 0⟩
    ∧ ∃ lines, log (counter.target ⟨LOW, LOW, 7⟩)
          ([[ascii 'f'], []] ++ [ascii 'f'] :: [[ascii 's']])
        = log (counter.target ⟨LOW, LOW, 7⟩) [[ascii 'f'], []] ++ lines
      ∧ log (counter.target ⟨HIGH, LOW, 0⟩) ([[ascii 'p']] ++ [ascii 'f'] :: [[ascii 's']])
        = log (counter.target ⟨HIGH, LOW, 0⟩) [[ascii 'p']] ++ lines :=
  reset_reproduces counter ⟨LOW, LOW, 7⟩ ⟨HIGH, LOW, 0⟩ [[ascii 'f'], []] [[ascii 'p']]
    (c := .freeRun) rfl rfl counter_forgets rfl [[ascii 's']]

end Results

end Debugger
