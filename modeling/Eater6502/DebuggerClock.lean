import Eater6502.DebuggerTrace

/-!
# The clock, the reset line and the modes

Four pieces of the sketch run the target's clock: the three bursts of a reset, a
single step, a fast step, and the tail of `loop`. Each of them runs whole cycles,
so that what is written to the clock pin is always a number of pulses
(`pulses`), and whoever looks at the bus or reads what is printed does so
with the clock high. `ClockDiscipline` puts this together for a run: the clock
and its cycles counted, the resets counted and timed, and the modes.
-/

namespace Debugger

open Arduino

/-- What is written to a pin that is pulled low and let go again some times. -/
def pulses (n : ℕ) : List Bool := (List.replicate n [LOW, HIGH]).flatten

theorem pulses_add (n n' : ℕ) :
    pulses (n + n') = pulses n ++ pulses n' := by
  rw [pulses, ← List.replicate_append_replicate, List.flatten_append]
  rfl

/-- Behind a pulse the pin is high. -/
theorem getLast?_pulses (n : ℕ) : (pulses (n + 1)).getLast? = some HIGH := by
  rw [pulses_add, List.getLast?_append]
  rfl

theorem count_pulses (n : ℕ) : (pulses n).count LOW = n := by
  induction n with
  | zero => rfl
  | succ n ih =>
    rw [pulses_add, List.count_append, ih]
    rfl

/-- A pin that is high is high behind any number of pulses. -/
theorem lastWrite_pulses {pin : ℕ} {h es : List Event} {n : ℕ}
    (hh : lastWrite pin h = some HIGH) (hes : writes pin es = pulses n) :
    lastWrite pin (h ++ es) = some HIGH := by
  cases n with
  | zero => rw [lastWrite_append_of_nil hes, hh]
  | succ n =>
    refine lastWrite_append_of_last ?_
    rw [lastWrite, hes, getLast?_pulses]

/-! ## Who writes what -/

section Writes

variable {t : Target} {h : List Event} {pin : ℕ}

theorem writes_cycles (n : ℕ) : writes CLK_PIN (cycles n) = pulses n := by
  induction n with
  | zero => rfl
  | succ n ih =>
    rw [cycles_succ, writes_append, ih, Nat.add_comm, pulses_add]
    rfl

theorem writes_reset_cycles (n : ℕ) : writes RESET_PIN (cycles n) = [] := by
  induction n with
  | zero => rfl
  | succ n ih => rw [cycles_succ, writes_append, ih]; rfl

theorem writes_readEvents (pins : List ℕ) : writes pin (readEvents t h pins) = [] := by
  induction pins generalizing h with
  | nil => rfl
  | cons q pins ih => exact ih

theorem writes_stateEvents (addr : BitVec 16) (data : Byte) (rw : Bool) :
    writes pin (stateEvents addr data rw) = [] := by
  cases rw <;> rfl

/-- Nothing is written in order to look at the bus. -/
theorem writes_sampleEvents : writes pin (sampleEvents t h) = [] := by
  rw [sampleEvents, writes_append, writes_append, writes_append, writes_readEvents,
    writes_readEvents, writes_stateEvents]
  rfl

theorem writes_lines (ls : List String) :
    writes pin (ls.flatMap fun l => [.print l.toList, .print Text.newline]) = [] := by
  induction ls with
  | nil => rfl
  | cons l ls ih => exact ih

theorem writes_resetEvents : writes CLK_PIN resetEvents = pulses 44 := by
  simp only [resetEvents, writes_append, writes_cycles]
  rfl

theorem writes_reset_resetEvents : writes RESET_PIN resetEvents = [LOW, HIGH] := by
  simp only [resetEvents, writes_append, writes_reset_cycles]
  rfl

theorem writes_stepEvents : writes CLK_PIN (stepEvents t h) = pulses 1 := by
  rw [stepEvents, writes_append, writes_sampleEvents]
  rfl

theorem writes_reset_stepEvents : writes RESET_PIN (stepEvents t h) = [] := by
  rw [stepEvents, writes_append, writes_sampleEvents]
  rfl

end Writes

namespace Command

/-- The commands that reset the target. -/
def resets : Command → Bool
  | reset | freeRun => true
  | _ => false

/-- The cycles a command runs. -/
def cycles : Command → ℕ
  | reset | freeRun => 44
  | step => 1
  | _ => 0

end Command

/-- The cycles a mode runs. -/
def Mode.cycles (m : Mode) : ℕ := if m = .idle then 0 else 1

section Commands

variable {t : Target} {h : List Event} {continuous : Bool} {m : Mode}

/-- **A command runs whole cycles.** -/
theorem writes_commandEvents (c : Command) :
    writes CLK_PIN (commandEvents t h continuous c) = pulses c.cycles := by
  cases c with
  | reset => exact writes_resetEvents
  | continuous => rfl
  | step => exact writes_stepEvents
  | read => exact writes_sampleEvents
  | freeRun =>
    rw [commandEvents, writes_append, writes_resetEvents]
    rfl
  | help => exact writes_lines helpText

/-- **A reset is one pulse of the reset line**, and no other command touches it. -/
theorem writes_reset_commandEvents (c : Command) : writes RESET_PIN (commandEvents t h continuous c)
    = pulses (if c.resets then 1 else 0) := by
  cases c with
  | reset => exact writes_reset_resetEvents
  | continuous => rfl
  | step => exact writes_reset_stepEvents
  | read => exact writes_sampleEvents
  | freeRun =>
    rw [commandEvents, writes_append, writes_reset_resetEvents]
    rfl
  | help => exact writes_lines helpText

theorem writes_modeEvents : writes CLK_PIN (modeEvents t h m) = pulses m.cycles := by
  cases m with
  | idle => rfl
  | continuous =>
    rw [modeEvents, writes_append, writes_stepEvents]
    rfl
  | freeRun => rfl

theorem writes_reset_modeEvents : writes RESET_PIN (modeEvents t h m) = [] := by
  cases m with
  | idle => rfl
  | continuous =>
    rw [modeEvents, writes_append, writes_reset_stepEvents]
    rfl
  | freeRun => rfl

theorem writes_batchEvents (batch : List Byte) : writes CLK_PIN (batchEvents t h m batch)
    = pulses ((executed? batch).elim 0 Command.cycles) := by
  rw [batchEvents]
  cases executed? batch with
  | none => rfl
  | some c => exact writes_commandEvents c

theorem writes_iterationEvents (batch : List Byte) :
    writes CLK_PIN (iterationEvents t h m batch)
      = pulses ((executed? batch).elim 0 Command.cycles + (m.after batch).cycles) := by
  rw [iterationEvents, writes_append, writes_batchEvents, writes_modeEvents, pulses_add]

theorem writes_reset_iterationEvents (batch : List Byte) :
    writes RESET_PIN (iterationEvents t h m batch)
      = pulses ((executed? batch).elim 0 fun c => if c.resets then 1 else 0) := by
  rw [iterationEvents, writes_append, writes_reset_modeEvents, List.append_nil, batchEvents]
  cases executed? batch with
  | none => rfl
  | some c => exact writes_reset_commandEvents c

/-! ## Who looks when -/

theorem cycleEvents_quiet : ∀ e ∈ cycleEvents, e.observes = false := by
  decide

theorem cycles_quiet (n : ℕ) : ∀ e ∈ cycles n, e.observes = false := by
  intro e he
  obtain ⟨es, hes, he⟩ := List.mem_flatten.mp he
  rw [(List.mem_replicate.mp hes).2] at he
  exact cycleEvents_quiet e he

/-- **A reset is announced with the clock high.** -/
theorem watched_resetEvents : Watched CLK_PIN h resetEvents := by
  rw [resetEvents]
  refine .append (.append (.of_quiet (cycles_quiet 4)) (.append ?_ (.of_quiet (cycles_quiet 20))))
    (.append (.of_high ?_ rfl) (.of_quiet (cycles_quiet 20)))
  · exact .of_quiet (by decide)
  · refine lastWrite_append_of_last ?_
    rw [lastWrite, writes_append, writes_append, writes_cycles, writes_cycles]
    rfl

/-- **The bus is looked at with the clock high.** -/
theorem watched_stepEvents : Watched CLK_PIN h (stepEvents t h) := by
  refine .append (.of_quiet (by decide)) (.of_high (lastWrite_append_of_last rfl) ?_)
  exact writes_sampleEvents

variable (hh : lastWrite CLK_PIN h = some HIGH)
include hh

theorem watched_commandEvents (c : Command) :
    Watched CLK_PIN h (commandEvents t h continuous c) := by
  cases c with
  | reset => exact watched_resetEvents
  | continuous => exact .of_high hh rfl
  | step => exact watched_stepEvents
  | read => exact .of_high hh writes_sampleEvents
  | freeRun =>
    exact .append watched_resetEvents (.of_high (lastWrite_pulses hh writes_resetEvents) rfl)
  | help => exact .of_high hh (writes_lines helpText)

theorem watched_modeEvents : Watched CLK_PIN h (modeEvents t h m) := by
  cases m with
  | idle => exact .of_high hh rfl
  | continuous => exact .append watched_stepEvents (.of_quiet (by decide))
  | freeRun => exact .of_quiet cycleEvents_quiet

theorem watched_iterationEvents (batch : List Byte) :
    Watched CLK_PIN h (iterationEvents t h m batch) := by
  refine .append ?_ (watched_modeEvents (lastWrite_pulses hh (writes_batchEvents batch)))
  rw [batchEvents]
  cases executed? batch with
  | none => exact .of_high hh rfl
  | some c => exact watched_commandEvents hh c

end Commands

/-! ## Whole runs -/

/-- The commands of a run, in order. -/
def commands (batches : List (List Byte)) : List Command := batches.filterMap executed?

/-- The commands of a run that reset the target. -/
def resets (batches : List (List Byte)) : ℕ := (commands batches).countP Command.resets

/-- The single steps of a run. -/
def steps (batches : List (List Byte)) : ℕ := (commands batches).count .step

/-- The modes in which the iterations of a run end. -/
def modesAfter : Mode → List (List Byte) → List Mode
  | _, [] => []
  | m, batch :: batches => m.after batch :: modesAfter (m.after batch) batches

/-- The iterations of a run that end in one of the modes that run the clock. -/
def running (m : Mode) (batches : List (List Byte)) : ℕ :=
  (modesAfter m batches).countP (· != .idle)

section Runs

variable {t : Target} {h : List Event} {m : Mode}

/-- The mode of a run is what its commands make of it. -/
theorem foldl_after (m : Mode) (batches : List (List Byte)) :
    batches.foldl Mode.after m = (commands batches).foldl Mode.apply m := by
  rw [commands, List.foldl_filterMap]
  refine congrFun (congrFun (congrArg List.foldl (funext fun m => funext fun batch => ?_)) m) _
  rw [Mode.after]
  cases executed? batch <;> rfl

/-- The commands of a kind, counted batch by batch. -/
theorem countP_commands_cons (p : Command → Bool) (batch : List Byte)
    (batches : List (List Byte)) : (commands (batch :: batches)).countP p
      = (executed? batch).elim 0 (fun c => if p c then 1 else 0)
        + (commands batches).countP p := by
  unfold commands
  rw [List.filterMap_cons]
  cases executed? batch with
  | none => exact (Nat.zero_add _).symm
  | some c => exact List.countP_cons.trans (Nat.add_comm _ _)

theorem resets_cons (batch : List Byte) (batches : List (List Byte)) :
    resets (batch :: batches)
      = (executed? batch).elim 0 (fun c => if c.resets then 1 else 0) + resets batches :=
  countP_commands_cons Command.resets batch batches

theorem steps_cons (batch : List Byte) (batches : List (List Byte)) :
    steps (batch :: batches)
      = (executed? batch).elim 0 (fun c => if c == .step then 1 else 0) + steps batches :=
  countP_commands_cons (· == .step) batch batches

theorem running_cons (m : Mode) (batch : List Byte) (batches : List (List Byte)) :
    running m (batch :: batches) = (m.after batch).cycles + running (m.after batch) batches := by
  rw [running, modesAfter, List.countP_cons, Mode.cycles, Nat.add_comm]
  cases m.after batch <;> rfl

/-- A command runs the cycles of a reset, or the one of a step. -/
theorem cycles_executed (batch : List Byte) : (executed? batch).elim 0 Command.cycles
    = 44 * (executed? batch).elim 0 (fun c => if c.resets then 1 else 0)
      + (executed? batch).elim 0 (fun c => if c == .step then 1 else 0) := by
  cases executed? batch with
  | none => rfl
  | some c => cases c <;> rfl

/-- **Every cycle of a run is accounted for.** -/
theorem writes_trace (batches : List (List Byte)) : writes CLK_PIN (trace t h m batches)
    = pulses (44 * resets batches + steps batches + running m batches) := by
  induction batches generalizing h m with
  | nil => rfl
  | cons batch batches ih =>
    rw [trace, writes_append, writes_iterationEvents, ih, ← pulses_add, cycles_executed,
      resets_cons, steps_cons, running_cons]
    refine congrArg pulses ?_
    omega

theorem writes_reset_trace (batches : List (List Byte)) :
    writes RESET_PIN (trace t h m batches) = pulses (resets batches) := by
  induction batches generalizing h m with
  | nil => rfl
  | cons batch batches ih =>
    rw [trace, writes_append, writes_reset_iterationEvents, ih, ← pulses_add, resets_cons]

theorem watched_trace (hh : lastWrite CLK_PIN h = some HIGH) (batches : List (List Byte)) :
    Watched CLK_PIN h (trace t h m batches) := by
  induction batches generalizing h m with
  | nil => exact .of_high hh rfl
  | cons batch batches ih =>
    exact .append (watched_iterationEvents hh batch)
      (ih (lastWrite_pulses hh (writes_iterationEvents batch)))

end Runs

/-! ## The discipline -/

/-- **A pulse of the reset line**: four cycles before it falls, twenty while it is
low, and twenty after it has risen. -/
def ResetPulse (es : List Event) : Prop :=
  ∃ before during after,
    es = before ++ .write RESET_PIN LOW :: (during ++ .write RESET_PIN HIGH :: after)
      ∧ writes RESET_PIN before = [] ∧ writes RESET_PIN during = [] ∧ writes RESET_PIN after = []
      ∧ writes CLK_PIN before = pulses 4 ∧ writes CLK_PIN during = pulses 20
      ∧ writes CLK_PIN after = pulses 20

/-- **What holds of a run** of the sketch, which has appended `es` since `setup`. -/
structure ClockDiscipline (t : Target) (batches : List (List Byte)) (es : List Event) :
    Prop where
  history : (run t (ready t) batches).port.events = (ready t).port.events ++ es
  /-- The clock goes low and high by turns, once for each cycle there has to be. -/
  clock : writes CLK_PIN es = pulses (44 * resets batches + steps batches + running .idle batches)
  /-- Between two iterations it is high. -/
  clockHigh : lastWrite CLK_PIN (run t (ready t) batches).port.events = some HIGH
  /-- It is high when the bus is read and when something is printed. -/
  watched : Watched CLK_PIN (ready t).port.events es
  /-- Between two iterations the reset line is high. -/
  resetHigh : lastWrite RESET_PIN (run t (ready t) batches).port.events = some HIGH
  /-- It falls once for each command that resets the target. -/
  falls : (writes RESET_PIN es).count LOW = resets batches
  /-- The modes are what the commands make of them. -/
  modes : (run t (ready t) batches).InMode ((commands batches).foldl Mode.apply .idle)
  /-- At most one of them is on. -/
  exclusive : ¬ ((run t (ready t) batches).continuousMode = true
    ∧ (run t (ready t) batches).freeRunMode = true)
  /-- The next iteration is that of a command and then that of the mode, and the
  reset line moves in the first part only, and only if it is to. -/
  iteration : ∀ batch, ∃ cmd tail,
    (iterate t (run t (ready t) batches) batch).port.events
        = (run t (ready t) batches).port.events ++ (cmd ++ tail)
      ∧ writes RESET_PIN tail = []
      ∧ writes CLK_PIN tail
        = pulses (((commands (batches ++ [batch])).foldl Mode.apply .idle).cycles)
      ∧ (∀ c, executed? batch = some c → c.resets = true → ResetPulse cmd)
      ∧ ((∀ c, executed? batch = some c → c.resets = false) → writes RESET_PIN cmd = [])

/-- The events of a command that resets the target are a pulse. -/
theorem resetPulse_commandEvents {t : Target} {h : List Event} {continuous : Bool} {c : Command}
    (hc : c.resets = true) : ResetPulse (commandEvents t h continuous c) := by
  have hpulse : ∀ rest : List Event, writes RESET_PIN rest = [] → writes CLK_PIN rest = [] →
      ResetPulse (resetEvents ++ rest) := by
    intro rest hrest hrest'
    refine ⟨cycles 4, .write LED_BUILTIN LOW :: cycles 20, saysReset.tail ++ cycles 20 ++ rest,
      ?_, writes_reset_cycles 4, writes_reset_cycles 20, ?_, writes_cycles 4, writes_cycles 20, ?_⟩
    · simp [resetEvents, saysReset]
    · rw [writes_append, writes_append, writes_reset_cycles, hrest]
      rfl
    · rw [writes_append, writes_append, writes_cycles, hrest']
      rfl
  cases c with
  | reset =>
    have hreset := hpulse [] rfl rfl
    rw [List.append_nil] at hreset
    exact hreset
  | freeRun => exact hpulse _ rfl rfl
  | _ => exact absurd hc Bool.false_ne_true

/-- **An iteration is that of its command and then that of the mode.** -/
theorem iteration_split {t : Target} {s : State} {h : List Event} {m : Mode} (hs : s.At h m)
    (batch : List Byte) :
    ∃ cmd tail, (iterate t s batch).port.events = s.port.events ++ (cmd ++ tail)
      ∧ writes RESET_PIN tail = [] ∧ writes CLK_PIN tail = pulses (m.after batch).cycles
      ∧ (∀ c, executed? batch = some c → c.resets = true → ResetPulse cmd)
      ∧ ((∀ c, executed? batch = some c → c.resets = false) → writes RESET_PIN cmd = []) := by
  refine ⟨batchEvents t h m batch, modeEvents t (h ++ batchEvents t h m batch) (m.after batch),
    ?_, writes_reset_modeEvents, writes_modeEvents, fun c hc hresets => ?_, fun hnone => ?_⟩
  · rw [(iterate_at hs batch).port, hs.port]
    rfl
  · rw [batchEvents, hc]
    exact resetPulse_commandEvents hresets
  · rw [batchEvents]
    cases hc : executed? batch with
    | none => rfl
    | some c =>
      refine (writes_reset_commandEvents c).trans ?_
      rw [hnone c hc]
      rfl

theorem lastWrite_setupEvents (t : Target) : lastWrite CLK_PIN (setupEvents t) = some HIGH
    ∧ lastWrite RESET_PIN (setupEvents t) = some HIGH := by
  unfold setupEvents lastWrite
  simp only [writes_append, writes_readEvents]
  exact ⟨rfl, rfl⟩

/-- **Clock, reset and modes are as they should be**, in every run and whatever
arrives. -/
theorem clock_discipline (t : Target) (batches : List (List Byte)) :
    ∃ es, ClockDiscipline t batches es := by
  have hready := ready_at t
  have hrun := run_at (t := t) hready batches
  have hevents : (ready t).port.events = setupEvents t := by rw [hready.port]
  have hevents' : (run t (ready t) batches).port.events
      = setupEvents t ++ trace t (setupEvents t) .idle batches := by
    rw [hrun.port]
  obtain ⟨hclk, hreset⟩ := lastWrite_setupEvents t
  have hmode := hrun.mode
  rw [foldl_after] at hmode
  refine ⟨trace t (setupEvents t) .idle batches, ?_⟩
  exact {
    history := by rw [hevents', hevents]
    clock := writes_trace batches
    clockHigh := by rw [hevents']; exact lastWrite_pulses hclk (writes_trace batches)
    watched := by rw [hevents]; exact watched_trace hclk batches
    resetHigh := by rw [hevents']; exact lastWrite_pulses hreset (writes_reset_trace batches)
    falls := by rw [writes_reset_trace, count_pulses]
    modes := hmode
    exclusive := by
      rw [hmode.1, hmode.2]
      cases (commands batches).foldl Mode.apply .idle <;> decide
    iteration := by
      intro batch
      rw [← foldl_after, List.foldl_append]
      exact iteration_split hrun batch }

end Debugger
