import Mathlib.Data.List.Forall2
import Eater6502.DebuggerClock
import Eater6502.DebuggerLine

/-!
# The log of a run

A sample of the bus begins where the first of the address pins is read, and what it
should report is the levels the pins have then (`samples`). The other pins are read
one after the other. If the pins keep their levels while the clock is held high
(`Steady`) it makes no difference, since nothing is written to the clock in between
(`levels_eq`).

A stretch of a history is `Logged` if what it prints are whole lines, and if the
state lines among them report its samples, one each and in the same order. Stretches
that follow one another are logged if each of them is, so that a run is logged
(`logged_trace`) because each command and each mode is.
-/

namespace Debugger

open Arduino

/-- **The pins of the bus keep their levels while the clock is held high.** -/
def Steady (t : Target) : Prop :=
  ∀ h e, lastWrite CLK_PIN h = some HIGH → lastWrite CLK_PIN (h ++ [e]) = some HIGH →
    ∀ pin ∈ busPins, t (h ++ [e]) pin = t h pin

/-- The first address pin is read. -/
def startsSample : Event → Bool
  | .read pin _ => ADDR.head? == some pin
  | _ => false

/-- **The levels of the pins whenever a sample begins.** -/
def samples (t : Target) : List Event → List Event → List (ℕ → Bool)
  | _, [] => []
  | h, e :: es => (if startsSample e then [t h] else []) ++ samples t (h ++ [e]) es

/-- The state lines of a text. -/
def stateLines (text : List Char) : List (List Char) := (Text.lines text).filter isStateLine

/-- **A stretch of a history that is logged**: its state lines report its samples, of
which there are `n`. -/
structure Logged (t : Target) (h es : List Event) (n : ℕ) : Prop where
  whole : ∃ ls, output es = Text.unlines ls ∧ ∀ l ∈ ls, '\r' ∉ l
  reports : List.Forall₂ Reports (stateLines (output es)) (samples t h es)
  count : (samples t h es).length = n

/-! ## Putting stretches together -/

section Stretches

variable {t : Target} {h es es' : List Event} {n n' : ℕ}

theorem samples_append : samples t h (es ++ es') = samples t h es ++ samples t (h ++ es) es' := by
  induction es generalizing h with
  | nil => rw [List.append_nil]; rfl
  | cons e es ih =>
    rw [List.cons_append, samples, samples, ih, List.append_assoc, List.append_assoc]
    rfl

theorem samples_eq_nil (hes : ∀ e ∈ es, startsSample e = false) : samples t h es = [] := by
  induction es generalizing h with
  | nil => rfl
  | cons e es ih =>
    rw [samples, hes e List.mem_cons_self, ih fun e' he' => hes e' (List.mem_cons_of_mem e he')]
    rfl

/-- Whole lines in front of a text are read apart from it. -/
theorem stateLines_append {ls : List (List Char)} (hls : ∀ l ∈ ls, '\r' ∉ l) (text : List Char) :
    stateLines (Text.unlines ls ++ text) = ls.filter isStateLine ++ stateLines text := by
  rw [stateLines, Text.lines_unlines_append hls, List.filter_append, stateLines]

theorem stateLines_unlines {ls : List (List Char)} (hls : ∀ l ∈ ls, '\r' ∉ l) :
    stateLines (Text.unlines ls) = ls.filter isStateLine := by
  rw [stateLines, Text.lines_unlines hls]

namespace Logged

/-- **Two stretches that are logged are logged as one.** -/
theorem append (hes : Logged t h es n) (hes' : Logged t (h ++ es) es' n') :
    Logged t h (es ++ es') (n + n') := by
  obtain ⟨ls, hout, hls⟩ := hes.whole
  obtain ⟨ls', hout', hls'⟩ := hes'.whole
  refine ⟨⟨ls ++ ls', ?_, ?_⟩, ?_, ?_⟩
  · rw [output_append, hout, hout', Text.unlines_append]
  · intro l hl
    rcases List.mem_append.mp hl with hl | hl
    · exact hls l hl
    · exact hls' l hl
  · rw [output_append, samples_append, hout, stateLines_append hls, ← stateLines_unlines hls,
      ← hout]
    exact List.rel_append hes.reports hes'.reports
  · rw [samples_append, List.length_append, hes.count, hes'.count]

/-- Lines that are no state lines, printed without a look at the bus. -/
theorem of_lines (ls : List (List Char)) (hout : output es = Text.unlines ls)
    (hls : ∀ l ∈ ls, '\r' ∉ l ∧ isStateLine l = false) (hes : samples t h es = []) :
    Logged t h es 0 := by
  have hfilter : ls.filter isStateLine = [] :=
    List.filter_eq_nil_iff.mpr fun l hl => by rw [(hls l hl).2]; exact Bool.false_ne_true
  refine ⟨⟨ls, hout, fun l hl => (hls l hl).1⟩, ?_, by rw [hes]; rfl⟩
  rw [hout, stateLines_unlines fun l hl => (hls l hl).1, hfilter, hes]
  exact .nil

/-- A state line, printed of the one sample taken. -/
theorem of_stateLine {addr : BitVec 16} {data : Byte} {rw : Bool} {levels : ℕ → Bool}
    (hout : output es = Text.unlines [stateLine addr data rw])
    (hsamples : samples t h es = [levels])
    (hreports : Reports (stateLine addr data rw) levels) : Logged t h es 1 := by
  have hls : ∀ l ∈ [stateLine addr data rw], '\r' ∉ l := by
    intro l hl
    rw [List.mem_singleton.mp hl]
    exact not_mem_stateLine addr data rw
  refine ⟨⟨_, hout, hls⟩, ?_, by rw [hsamples]; rfl⟩
  rw [hout, stateLines_unlines hls, hsamples,
    List.filter_cons_of_pos (isStateLine_stateLine addr data rw), List.filter_nil]
  exact .cons hreports .nil

/-- Nothing printed and nothing read. -/
theorem of_quiet (hes : ∀ e ∈ es, e.observes = false) : Logged t h es 0 := by
  refine of_lines [] ?_ (fun l hl => absurd hl List.not_mem_nil)
    (samples_eq_nil fun e he => ?_)
  · refine List.flatMap_eq_nil_iff.mpr fun e he => ?_
    have hquiet := hes e he
    cases e with
    | print text => exact absurd hquiet.symm Bool.false_ne_true
    | _ => rfl
  · have hquiet := hes e he
    cases e with
    | read pin level => exact absurd hquiet.symm Bool.false_ne_true
    | _ => rfl

theorem nil : Logged t h [] 0 := .of_lines [] rfl (fun _ hl => absurd hl List.not_mem_nil) rfl

end Logged

end Stretches

/-! ## A sample -/

section Sample

variable {t : Target} {h es : List Event}

/-- The bus keeps its levels where nothing is written to the clock. -/
theorem Steady.append_eq (ht : Steady t) (hh : lastWrite CLK_PIN h = some HIGH)
    (hes : writes CLK_PIN es = []) {pin : ℕ} (hpin : pin ∈ busPins) :
    t (h ++ es) pin = t h pin := by
  induction es generalizing h with
  | nil => rw [List.append_nil]
  | cons e es ih =>
    rw [← List.singleton_append, writes_append] at hes
    obtain ⟨he, hes⟩ := List.append_eq_nil_iff.mp hes
    have hhigh : lastWrite CLK_PIN (h ++ [e]) = some HIGH := by
      rw [lastWrite_append_of_nil he, hh]
    rw [← List.singleton_append, ← List.append_assoc, ih hhigh hes]
    exact ht h e hh hhigh pin hpin

/-- Pins of the bus read one after the other read what they were at the beginning. -/
theorem levels_eq (ht : Steady t) (hh : lastWrite CLK_PIN h = some HIGH) {pins : List ℕ}
    (hpins : ∀ pin ∈ pins, pin ∈ busPins) : levels t h pins = pins.map (t h) := by
  induction pins generalizing h with
  | nil => rfl
  | cons pin pins ih =>
    have hread : writes CLK_PIN [.read pin (t h pin)] = [] := rfl
    have hhigh : lastWrite CLK_PIN (h ++ [.read pin (t h pin)]) = some HIGH := by
      rw [lastWrite_append_of_nil hread, hh]
    rw [levels, ih hhigh fun q hq => hpins q (List.mem_cons_of_mem pin hq), List.map_cons]
    refine congrArg (t h pin :: ·) (List.map_congr_left fun q hq => ?_)
    exact ht.append_eq hh hread (hpins q (List.mem_cons_of_mem pin hq))

/-- **Each bit of a value read is the level of its pin.** -/
theorem getLsbD_bus {width : ℕ} (ht : Steady t) (hh : lastWrite CLK_PIN h = some HIGH)
    {pins : List ℕ} (hpins : ∀ pin ∈ pins, pin ∈ busPins) (hlength : pins.length = width)
    {n pin : ℕ} (hn : pins[n]? = some pin) :
    (readValue t h pins 0 (BitVec.ofNat width 0)).getLsbD n = t h pin := by
  obtain ⟨hlt, -⟩ := List.getElem?_eq_some_iff.mp hn
  rw [getLsbD_readValue pins 0 _ (hlength ▸ hlt), levels_eq ht hh hpins, BitVec.getLsbD_zero,
    Bool.false_or, Nat.sub_zero, List.getD_eq_getElem?_getD, List.getElem?_map, hn]
  exact Bool.true_and (t h pin)

theorem output_readEvents (pins : List ℕ) : output (readEvents t h pins) = [] := by
  induction pins generalizing h with
  | nil => rfl
  | cons pin pins ih => exact ih

theorem samples_readEvents {pins : List ℕ} (hpins : ∀ pin ∈ pins, ADDR.head? ≠ some pin) :
    samples t h (readEvents t h pins) = [] := by
  induction pins generalizing h with
  | nil => rfl
  | cons pin pins ih =>
    have hpin : startsSample (.read pin (t h pin)) = false :=
      beq_eq_false_iff_ne.mpr (hpins pin List.mem_cons_self)
    rw [readEvents, samples, hpin, ih fun q hq => hpins q (List.mem_cons_of_mem pin hq)]
    rfl

/-- What is printed of a sample is no look at the bus. -/
theorem samples_stateEvents (addr : BitVec 16) (data : Byte) (rw : Bool) :
    samples t h (stateEvents addr data rw) = [] := by
  cases rw <;> rfl

/-- The bus read and reported is one sample. -/
theorem samples_sampleEvents : samples t h (sampleEvents t h) = [t h] := by
  have haddr : samples t h (readEvents t h ADDR) = [t h] := by
    show [t h] ++ samples t _ (readEvents t _ ADDR.tail) = [t h]
    rw [samples_readEvents (by decide), List.append_nil]
  have hdata : ∀ h, samples t h (readEvents t h DATA) = [] :=
    fun h => samples_readEvents (by decide)
  simp only [sampleEvents, samples_append, haddr, hdata, samples_stateEvents]
  rfl

/-- **A sample is logged.** -/
theorem logged_sampleEvents (ht : Steady t) (hh : lastWrite CLK_PIN h = some HIGH) :
    Logged t h (sampleEvents t h) 1 := by
  have haddr : writes CLK_PIN (readEvents t h ADDR) = [] := writes_readEvents ADDR
  have hdata : writes CLK_PIN (readEvents t (h ++ readEvents t h ADDR) DATA) = [] :=
    writes_readEvents DATA
  have hrw : t (h ++ readEvents t h ADDR
      ++ readEvents t (h ++ readEvents t h ADDR) DATA) RW_PIN = t h RW_PIN := by
    rw [List.append_assoc]
    refine ht.append_eq hh ?_ (by decide)
    rw [writes_append, haddr, hdata, List.append_nil]
  have hout : output (sampleEvents t h) = Text.unlines [stateLine (readValue t h ADDR 0 0)
      (readValue t (h ++ readEvents t h ADDR) DATA 0 0) (t h RW_PIN)] := by
    simp only [sampleEvents, output_append, output_readEvents, output_stateEvents, hrw]
    rfl
  refine .of_stateLine hout samples_sampleEvents
    (stateLine_reports (fun n pin hn => ?_) (fun n pin hn => ?_))
  · exact getLsbD_bus ht hh (by decide) rfl hn
  · -- the data pins are read behind the address pins
    have hhigh : lastWrite CLK_PIN (h ++ readEvents t h ADDR) = some HIGH := by
      rw [lastWrite_append_of_nil haddr, hh]
    have hpin : pin ∈ busPins :=
      List.mem_append_left _ (List.mem_append_right ADDR (List.mem_of_getElem? hn))
    rw [← ht.append_eq hh haddr hpin]
    exact getLsbD_bus ht hhigh (by decide) rfl hn

end Sample

/-! ## Commands, modes and runs -/

/-- The commands that take a sample. -/
def Command.takesSample : Command → Bool
  | step | read => true
  | _ => false

/-- The samples of a run: those of its commands, and those of its iterations in
continuous mode. -/
def sampled (m : Mode) (batches : List (List Byte)) : ℕ :=
  (commands batches).countP Command.takesSample + (modesAfter m batches).countP Mode.isContinuous

section Runs

variable {t : Target} {h : List Event} {m : Mode}

/-- A line printed that is no state line. -/
theorem logged_println {l : String} (hl : '\r' ∉ l.toList ∧ isStateLine l.toList = false) :
    Logged t h [.print l.toList, .print Text.newline] 0 := by
  refine .of_lines [l.toList] ?_ (fun l' hl' => ?_) rfl
  · simp only [output, Text.unlines, List.flatMap_cons, List.flatMap_nil, List.append_nil]
  · rw [List.mem_singleton.mp hl']
    exact hl

/-- Some lines printed that are none. -/
theorem logged_lines {ls : List String}
    (hls : ∀ l ∈ ls, '\r' ∉ l.toList ∧ isStateLine l.toList = false) :
    Logged t h (ls.flatMap fun l => [.print l.toList, .print Text.newline]) 0 := by
  induction ls generalizing h with
  | nil => exact .nil
  | cons l ls ih =>
    exact (logged_println (hls l List.mem_cons_self)).append
      (ih fun l' hl' => hls l' (List.mem_cons_of_mem l hl'))

theorem logged_cycles (n : ℕ) : Logged t h (cycles n) 0 := .of_quiet (cycles_quiet n)

theorem logged_resetEvents : Logged t h resetEvents 0 := by
  have hfall : ∀ h, Logged t h [.write RESET_PIN LOW, .write LED_BUILTIN LOW] 0 :=
    fun _ => .of_quiet (by decide)
  have hrise : ∀ h, Logged t h [.write RESET_PIN HIGH, .write LED_BUILTIN HIGH] 0 :=
    fun _ => .of_quiet (by decide)
  have hreset : ∀ h, Logged t h saysReset 0 :=
    fun h => (hrise h).append (logged_println (by decide +kernel))
  exact ((logged_cycles 4).append ((hfall _).append (logged_cycles 20))).append
    ((hreset _).append (logged_cycles 20))

section Clock

variable (ht : Steady t)
include ht

theorem logged_stepEvents : Logged t h (stepEvents t h) 1 := by
  have hhigh : lastWrite CLK_PIN (h ++ pulseEvents) = some HIGH := lastWrite_append_of_last rfl
  have hpulse : Logged t h pulseEvents 0 := .of_quiet (by decide)
  exact hpulse.append (logged_sampleEvents ht hhigh)

/-- **A mode is logged.** -/
theorem logged_modeEvents : Logged t h (modeEvents t h m) (if m.isContinuous then 1 else 0) := by
  cases m with
  | idle => exact .nil
  | continuous => exact (logged_stepEvents ht).append (.of_quiet (by decide))
  | freeRun => exact .of_quiet cycleEvents_quiet

variable (hh : lastWrite CLK_PIN h = some HIGH)
include hh

/-- **A command is logged.** -/
theorem logged_commandEvents {continuous : Bool} (c : Command) :
    Logged t h (commandEvents t h continuous c) (if c.takesSample then 1 else 0) := by
  cases c with
  | reset => exact logged_resetEvents
  | continuous =>
    cases continuous with
    | false => exact .of_lines ["Continuous clock mode: ON".toList] rfl (by decide +kernel) rfl
    | true => exact .of_lines ["Continuous clock mode: OFF".toList] rfl (by decide +kernel) rfl
  | step => exact logged_stepEvents ht
  | read => exact logged_sampleEvents ht hh
  | freeRun => exact logged_resetEvents.append (logged_println (by decide +kernel))
  | help => exact logged_lines (by decide +kernel)

theorem logged_batchEvents (batch : List Byte) : Logged t h (batchEvents t h m batch)
    ((executed? batch).elim 0 fun c => if c.takesSample then 1 else 0) := by
  rw [batchEvents]
  cases executed? batch with
  | none => exact .nil
  | some c => exact logged_commandEvents ht hh c

/-- **An iteration is logged.** -/
theorem logged_iterationEvents (batch : List Byte) : Logged t h (iterationEvents t h m batch)
    ((executed? batch).elim 0 (fun c => if c.takesSample then 1 else 0)
      + if (m.after batch).isContinuous then 1 else 0) :=
  (logged_batchEvents ht hh batch).append (logged_modeEvents ht)

/-- **A run is logged.** -/
theorem logged_trace (batches : List (List Byte)) :
    Logged t h (trace t h m batches) (sampled m batches) := by
  induction batches generalizing h m with
  | nil => exact .nil
  | cons batch batches ih =>
    have hlogged := (logged_iterationEvents (m := m) ht hh batch).append
      (ih (lastWrite_pulses hh (writes_iterationEvents batch)) (m := m.after batch))
    have hcount : sampled m (batch :: batches)
        = (executed? batch).elim 0 (fun c => if c.takesSample then 1 else 0)
          + (if (m.after batch).isContinuous then 1 else 0) + sampled (m.after batch) batches := by
      unfold sampled
      rw [countP_commands_cons, modesAfter, List.countP_cons]
      omega
    rw [trace, hcount]
    exact hlogged

end Clock

end Runs

/-! ## The log -/

/-- The state lines of all that was ever printed. -/
def log (t : Target) (batches : List (List Byte)) : List (List Char) :=
  stateLines (output (run t (ready t) batches).port.events)

/-- **What the serial output says of a run** which has appended `es` since `setup`. -/
structure FaithfulLog (t : Target) (batches : List (List Byte)) (es : List Event) : Prop where
  history : (run t (ready t) batches).port.events = (ready t).port.events ++ es
  /-- The state lines report the samples, one each and in the same order. -/
  reports : List.Forall₂ Reports (log t batches) (samples t (ready t).port.events es)
  /-- The samples are those of the commands and those of the iterations in continuous
  mode. -/
  count : (samples t (ready t).port.events es).length = sampled .idle batches
  /-- In the next iteration the first part takes a sample if its command does, the
  second if the mode is continuous, and each of them is reported. -/
  iteration : ∀ batch, ∃ cmd tail,
    (checkSerialInput t { run t (ready t) batches with
        port := (run t (ready t) batches).port.receive batch }).port.events
      = (run t (ready t) batches).port.events ++ cmd
    ∧ (iterate t (run t (ready t) batches) batch).port.events
      = (run t (ready t) batches).port.events ++ cmd ++ tail
    ∧ Logged t (run t (ready t) batches).port.events cmd
      ((executed? batch).elim 0 fun c => if c.takesSample then 1 else 0)
    ∧ Logged t ((run t (ready t) batches).port.events ++ cmd) tail
      (if (iterate t (run t (ready t) batches) batch).continuousMode then 1 else 0)
  /-- Samples that differ in a pin are reported by different lines. -/
  distinct : ∀ (i j : ℕ) (levels levels' : ℕ → Bool),
    (samples t (ready t).port.events es)[i]? = some levels →
    (samples t (ready t).port.events es)[j]? = some levels' →
    ∀ pin ∈ busPins, levels pin ≠ levels' pin → (log t batches)[i]? ≠ (log t batches)[j]?

/-- The lines that `setup` prints. -/
def setupLines : List (List Char) :=
  "6502 Target Debugger Ready!".toList :: helpText.map String.toList
    ++ [[], "Monitoring bus for changes...".toList]

theorem output_setupEvents (t : Target) : output (setupEvents t) = Text.unlines setupLines := by
  have hout : output setupOutput = Text.unlines setupLines := by decide +kernel
  simp only [setupEvents, output_append, output_readEvents, hout, List.append_nil]
  exact List.append_nil _

/-- None of them is a state line. -/
theorem filter_setupLines : setupLines.filter isStateLine = [] := by
  decide +kernel

theorem not_mem_setupLines : ∀ l ∈ setupLines, '\r' ∉ l := by
  decide +kernel

/-- **Samples that differ in a pin are reported by different lines.** -/
theorem ne_of_levels_ne {ls : List (List Char)} {ss : List (ℕ → Bool)}
    (hls : List.Forall₂ Reports ls ss) {i j : ℕ} {levels levels' : ℕ → Bool}
    (hi : ss[i]? = some levels) (hj : ss[j]? = some levels') {pin : ℕ} (hpin : pin ∈ busPins)
    (hne : levels pin ≠ levels' pin) : ls[i]? ≠ ls[j]? := by
  have hreports : ∀ {i : ℕ} {levels}, ss[i]? = some levels →
      ∃ l, ls[i]? = some l ∧ Reports l levels := by
    intro i levels hs
    obtain ⟨hlt, rfl⟩ := List.getElem?_eq_some_iff.mp hs
    have hlt' : i < ls.length := hls.length_eq ▸ hlt
    exact ⟨ls[i], List.getElem?_eq_getElem hlt', List.Forall₂.get hls hlt' hlt⟩
  obtain ⟨l, hl, hrep⟩ := hreports hi
  obtain ⟨l', hl', hrep'⟩ := hreports hj
  rw [hl, hl']
  rintro heq
  obtain rfl : l = l' := Option.some.inj heq
  exact hne (hrep.levels_eq hrep' hpin)

/-- **The two parts of an iteration are logged**, the command and the mode. -/
theorem iteration_logged {t : Target} {s : State} {h : List Event} {m : Mode} (ht : Steady t)
    (hs : s.At h m) (hh : lastWrite CLK_PIN h = some HIGH) (batch : List Byte) :
    ∃ cmd tail,
      (checkSerialInput t { s with port := s.port.receive batch }).port.events
        = s.port.events ++ cmd
      ∧ (iterate t s batch).port.events = s.port.events ++ cmd ++ tail
      ∧ Logged t s.port.events cmd
        ((executed? batch).elim 0 fun c => if c.takesSample then 1 else 0)
      ∧ Logged t (s.port.events ++ cmd) tail
        (if (iterate t s batch).continuousMode then 1 else 0) := by
  have hreceive : s.port.receive batch = ⟨batch, h⟩ := by rw [hs.port]; rfl
  have hcheck := checkSerialInput_at (t := t) (s := { s with port := s.port.receive batch })
    hreceive hs.mode
  have hiterate := iterate_at (t := t) hs batch
  have hevents : s.port.events = h := by rw [hs.port]
  refine ⟨batchEvents t h m batch,
    modeEvents t (h ++ batchEvents t h m batch) (m.after batch), ?_, ?_, ?_, ?_⟩
  · rw [hcheck.port, hevents]
  · rw [hiterate.port, hevents, iterationEvents, List.append_assoc]
  · rw [hevents]
    exact logged_batchEvents ht hh batch
  · rw [hevents, hiterate.mode.1]
    exact logged_modeEvents ht

/-- **The log is a faithful record of the bus**, if the bus keeps its levels while the
clock is high. -/
theorem faithful_log (t : Target) (ht : Steady t) (batches : List (List Byte)) :
    ∃ es, FaithfulLog t batches es := by
  have hready : (ready t).port.events = setupEvents t := by rw [(ready_at t).port]
  have hrun := run_at (t := t) (ready_at t) batches
  have hevents : (run t (ready t) batches).port.events
      = setupEvents t ++ trace t (setupEvents t) .idle batches := by rw [hrun.port]
  have hclk := (lastWrite_setupEvents t).1
  have hlogged := logged_trace (m := .idle) ht hclk batches
  have hreports : List.Forall₂ Reports (log t batches)
      (samples t (ready t).port.events (trace t (setupEvents t) .idle batches)) := by
    rw [log, hevents, output_append, output_setupEvents, stateLines_append not_mem_setupLines,
      filter_setupLines, hready]
    exact hlogged.reports
  refine ⟨trace t (setupEvents t) .idle batches, ?_⟩
  exact {
    history := by rw [hevents, hready]
    reports := hreports
    count := by rw [hready]; exact hlogged.count
    iteration := by
      intro batch
      refine iteration_logged ht hrun ?_ batch
      exact lastWrite_pulses hclk (writes_trace batches)
    distinct := fun _ _ _ _ hi hj _ hpin hne => ne_of_levels_ne hreports hi hj hpin hne }

/-- A target that shows the number of its clock cycles. -/
def cycleCounter : Target := fun h pin => ((writes CLK_PIN h).count LOW).testBit (busPins.idxOf pin)

theorem steady_cycleCounter : Steady cycleCounter := by
  intro h e _ hhigh pin _
  have hcount : (writes CLK_PIN [e]).count LOW = 0 := by
    cases e with
    | write q level =>
      by_cases hq : q = CLK_PIN
      · have hlast : lastWrite CLK_PIN (h ++ [.write q level]) = some level :=
          lastWrite_append_of_last (by simp [lastWrite, writes, hq])
        obtain rfl : level = HIGH := Option.some.inj (hlast.symm.trans hhigh)
        simp [writes, hq, LOW, HIGH]
      · simp [writes, hq]
    | _ => rfl
  rw [cycleCounter, cycleCounter, writes_append, List.count_append, hcount, Nat.add_zero]

theorem cycleCounter_logged :
    ∃ es, FaithfulLog cycleCounter [[ascii 's'], [ascii 'c', ascii '\n'], [], [ascii 'p']] es :=
  faithful_log cycleCounter steady_cycleCounter
    [[ascii 's'], [ascii 'c', ascii '\n'], [], [ascii 'p']]

end Debugger
