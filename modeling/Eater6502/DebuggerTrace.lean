import Eater6502.Debugger

/-!
# What the sketch appends to the history

For each function of the sketch the list of events it appends. A list depends on
what the function is called with and, where pins are read, on the history before
it. Put together they give an abstract sketch (`trace`): it knows nothing but the
history and a `Mode`, it takes the command of a batch, if there is one, appends
what the command and then the mode have to append, and goes on. `run_at` says
that the sketch does the same.
-/

namespace Debugger

open Arduino

/-! ## The clock -/

/-- A cycle of the clock. -/
def cycleEvents : List Event :=
  [.write CLK_PIN LOW, .wait CLK_DELAY_US, .write CLK_PIN HIGH, .wait CLK_DELAY_US]

/-- Some cycles. -/
def cycles (n : ℕ) : List Event := (List.replicate n cycleEvents).flatten

theorem cycles_succ (n : ℕ) : cycles (n + 1) = cycleEvents ++ cycles n := rfl

theorem cycleClock_eq (p : Port) : cycleClock p = p.emit cycleEvents := by
  simp only [cycleClock, Port.digitalWrite, Port.delayMicroseconds, Port.emit_emit]
  rfl

theorem cycleClock_iterate (n : ℕ) (p : Port) : cycleClock^[n] p = p.emit (cycles n) := by
  induction n generalizing p with
  | zero => exact (Port.emit_nil p).symm
  | succ n ih => rw [Function.iterate_succ_apply, ih, cycleClock_eq, Port.emit_emit, cycles_succ]

/-- What says that the target has been reset. -/
def saysReset : List Event :=
  [.write RESET_PIN HIGH, .write LED_BUILTIN HIGH, .print "Target reset!".toList,
    .print Text.newline]

/-- A reset of the target. -/
def resetEvents : List Event :=
  cycles 4 ++ ([.write RESET_PIN LOW, .write LED_BUILTIN LOW] ++ cycles 20)
    ++ (saysReset ++ cycles 20)

theorem resetTarget_eq (p : Port) : resetTarget p = p.emit resetEvents := by
  simp only [resetTarget, cycleClock_iterate, Port.digitalWrite, Port.println, Port.print,
    Port.emit_emit, resetEvents, saysReset, List.append_assoc, List.cons_append, List.nil_append]

/-! ## The bus -/

/-- Some pins read, one after the other. -/
def readEvents (t : Target) : List Event → List ℕ → List Event
  | _, [] => []
  | h, pin :: pins => .read pin (t h pin) :: readEvents t (h ++ [.read pin (t h pin)]) pins

/-- What they read. -/
def levels (t : Target) : List Event → List ℕ → List Bool
  | _, [] => []
  | h, pin :: pins => t h pin :: levels t (h ++ [.read pin (t h pin)]) pins

/-- The value made of it. -/
def readValue {width : ℕ} (t : Target) : List Event → List ℕ → ℕ → BitVec width → BitVec width
  | _, [], _, v => v
  | h, pin :: pins, n, v =>
    readValue t (h ++ [.read pin (t h pin)]) pins (n + 1)
      (if t h pin then v ||| BitVec.ofNat width 1 <<< n else v)

section Reading

variable {t : Target} {h : List Event} {width : ℕ}

theorem readPins_eq (pins : List ℕ) (n : ℕ) (v : BitVec width) (p : Port) :
    readPins t pins n v p
      = (readValue t p.events pins n v, p.emit (readEvents t p.events pins)) := by
  induction pins generalizing n v p with
  | nil => exact congrArg (Prod.mk v) (Port.emit_nil p).symm
  | cons pin pins ih =>
    refine (ih _ _ _).trans (congrArg (Prod.mk _) ?_)
    exact Port.emit_emit _ _ _

/-- A bit set in a value, if it is to be. -/
theorem getLsbD_setBit (v : BitVec width) (level : Bool) (n : ℕ) {i : ℕ} (hi : i < width) :
    (if level then v ||| BitVec.ofNat width 1 <<< n else v).getLsbD i
      = (v.getLsbD i || (level && decide (i = n))) := by
  cases level with
  | false => simp
  | true =>
    rw [if_pos rfl, BitVec.getLsbD_or, BitVec.getLsbD_shiftLeft, BitVec.getLsbD_one]
    rcases Nat.lt_trichotomy i n with hlt | rfl | hgt
    · simp [hlt, Nat.ne_of_lt hlt]
    · simp [hi, Nat.zero_lt_of_lt hi]
    · simp [Nat.not_lt_of_gt hgt, Nat.ne_of_gt hgt, Nat.sub_ne_zero_of_lt hgt]

/-- **The bits of a value read are what the pins read**, the first pin giving the
lowest bit. -/
theorem getLsbD_readValue (pins : List ℕ) (n : ℕ) (v : BitVec width) {i : ℕ} (hi : i < width) :
    (readValue t h pins n v).getLsbD i
      = (v.getLsbD i || (decide (n ≤ i) && (levels t h pins).getD (i - n) false)) := by
  induction pins generalizing h n v with
  | nil => simp [readValue, levels]
  | cons pin pins ih =>
    rw [readValue, levels, ih, getLsbD_setBit v _ n hi, Bool.or_assoc]
    refine congrArg (v.getLsbD i || ·) ?_
    rcases Nat.lt_trichotomy i n with hlt | rfl | hgt
    · have hle : ¬ n + 1 ≤ i := Nat.not_le_of_gt (Nat.lt_succ_of_lt hlt)
      simp [Nat.ne_of_lt hlt, Nat.not_le_of_gt hlt, hle]
    · rw [decide_eq_true (rfl : i = i), decide_eq_false (Nat.not_succ_le_self i),
        decide_eq_true (Nat.le_refl i), Nat.sub_self, List.getD_cons_zero, Bool.and_true,
        Bool.false_and, Bool.or_false, Bool.true_and]
    · rw [show i - n = i - (n + 1) + 1 by omega]
      simp [Nat.ne_of_gt hgt, Nat.le_of_lt hgt, Nat.succ_le_of_lt hgt]

end Reading

/-- The bits of a value, printed. -/
def bitEvents (v : ℕ) : ℕ → List Event
  | 0 => []
  | n + 1 => .print [Numeral.digit (v >>> n &&& 1)] :: bitEvents v n

theorem printBits_eq (v n : ℕ) (p : Port) : printBits v n p = p.emit (bitEvents v n) := by
  induction n generalizing p with
  | zero => exact (Port.emit_nil p).symm
  | succ n ih =>
    rw [printBits, ih, Port.print, Port.emit_emit]
    rfl

/-- What is printed of a sample. -/
def stateEvents (addr : BitVec 16) (data : Byte) (rw : Bool) : List Event :=
  .print ("Addr: 0x".toList ++ Numeral.digits 16 4 addr.toNat ++ " (".toList)
    :: bitEvents addr.toNat 16
  ++ .print (") | Data: 0x".toList ++ Numeral.digits 16 2 data.toNat ++ " (".toList)
    :: bitEvents data.toNat 8
  ++ [.print ") | R/W: ".toList, .print (if rw then "R" else "W").toList]
  ++ (if rw then [.print " | Op: ".toList, .print (getOpcodeName data)] else [])
  ++ [.print Text.newline]

theorem printCurrentState_eq (addr : BitVec 16) (data : Byte) (rw : Bool) (p : Port) :
    printCurrentState addr data rw p = p.emit (stateEvents addr data rw) := by
  cases rw <;>
    simp [printCurrentState, printBits_eq, Port.print, stateEvents]

/-- The bus read and reported. -/
def sampleEvents (t : Target) (h : List Event) : List Event :=
  let addr := readEvents t h ADDR
  let data := readEvents t (h ++ addr) DATA
  let rw := t (h ++ addr ++ data) RW_PIN
  addr ++ data ++ [.read RW_PIN rw]
    ++ stateEvents (readValue t h ADDR 0 0) (readValue t (h ++ addr) DATA 0 0) rw

/-- A cycle of the clock in which the bus is reported. -/
def pulseEvents : List Event :=
  [.write CLK_PIN LOW, .write LED_BUILTIN LOW, .wait CLK_DELAY_US, .wait CLK_DELAY_US,
    .write CLK_PIN HIGH, .write LED_BUILTIN HIGH, .wait CLK_DELAY_US, .wait CLK_DELAY_US]

/-- And the report. -/
def stepEvents (t : Target) (h : List Event) : List Event :=
  pulseEvents ++ sampleEvents t (h ++ pulseEvents)

theorem stepClock_port (t : Target) (s : State) :
    (stepClock t s).port = s.port.emit (stepEvents t s.port.events) := by
  simp [stepClock, readAddressBus, readDataBus, readRW, Port.digitalRead, readPins_eq,
    printCurrentState_eq, Port.digitalWrite, Port.delayMicroseconds, stepEvents, pulseEvents,
    sampleEvents]

/-! ## The commands -/

/-- What a command appends. -/
def commandEvents (t : Target) (h : List Event) (continuous : Bool) : Command → List Event
  | .reset => resetEvents
  | .continuous =>
    [.print "Continuous clock mode: ".toList,
      .print (if continuous then "OFF" else "ON").toList, .print Text.newline]
  | .step => stepEvents t h
  | .read => sampleEvents t h
  | .freeRun => resetEvents ++ [.print "Free run mode started!".toList, .print Text.newline]
  | .help => helpText.flatMap fun l => [.print l.toList, .print Text.newline]

theorem printLines_eq (ls : List String) (p : Port) : printLines ls p
    = p.emit (ls.flatMap fun l => [.print l.toList, .print Text.newline]) := by
  induction ls generalizing p with
  | nil => exact (Port.emit_nil p).symm
  | cons l ls ih =>
    rw [printLines, List.foldl_cons, ← printLines, ih, Port.println, Port.print, Port.print,
      Port.emit_emit, Port.emit_emit]
    rfl

theorem perform_port (t : Target) (c : Command) (s : State) : (perform t c s).port
    = s.port.emit (commandEvents t s.port.events s.continuousMode c) := by
  cases c with
  | reset => exact resetTarget_eq s.port
  | continuous =>
    cases hc : s.continuousMode <;>
      simp [perform, hc, Port.print, Port.println, commandEvents]
  | step => exact stepClock_port t s
  | read =>
    simp [perform, readAddressBus, readDataBus, readRW, Port.digitalRead, readPins_eq,
      printCurrentState_eq, commandEvents, sampleEvents]
  | freeRun =>
    simp [perform, resetTarget_eq, Port.println, Port.print, commandEvents]
  | help => exact printLines_eq helpText s.port

/-! ## The modes -/

/-- What the sketch does when nobody asks for anything. -/
inductive Mode where
  | idle
  | continuous
  | freeRun
  deriving Repr, DecidableEq

namespace Mode

def isContinuous (m : Mode) : Bool := m == continuous

def isFreeRun (m : Mode) : Bool := m == freeRun

/-- **The mode after a command.** -/
def apply : Mode → Command → Mode
  | _, .freeRun => freeRun
  | continuous, .continuous => idle
  | _, .continuous => continuous
  | m, _ => m

end Mode

/-- A sketch in a mode. -/
def State.InMode (s : State) (m : Mode) : Prop :=
  s.continuousMode = m.isContinuous ∧ s.freeRunMode = m.isFreeRun

theorem stepClock_modes (t : Target) (s : State) :
    (stepClock t s).continuousMode = s.continuousMode
      ∧ (stepClock t s).freeRunMode = s.freeRunMode := by
  simp [stepClock, readAddressBus, readDataBus, readRW, Port.digitalRead, readPins_eq]

/-- Two commands change the modes. -/
theorem perform_modes (t : Target) (c : Command) (s : State) :
    (perform t c s).continuousMode
        = (match c with
          | .continuous => !s.continuousMode
          | .freeRun => false
          | _ => s.continuousMode)
      ∧ (perform t c s).freeRunMode
        = (match c with
          | .continuous => false
          | .freeRun => true
          | _ => s.freeRunMode) := by
  cases c with
  | step => exact stepClock_modes t s
  | read => simp [perform, readAddressBus, readDataBus, readRW, Port.digitalRead, readPins_eq]
  | _ => simp only [perform, and_self]

theorem stepClock_performed (t : Target) (s : State) :
    (stepClock t s).performed = s.performed := by
  simp [stepClock, readAddressBus, readDataBus, readRW, Port.digitalRead, readPins_eq]

/-- A command leaves the record to the one that performs it. -/
theorem perform_performed (t : Target) (c : Command) (s : State) :
    (perform t c s).performed = s.performed := by
  cases c with
  | step => exact stepClock_performed t s
  | read => simp [perform, readAddressBus, readDataBus, readRW, Port.digitalRead, readPins_eq]
  | _ => simp only [perform]

theorem perform_inMode {t : Target} {c : Command} {s : State} {m : Mode} (h : s.InMode m) :
    (perform t c s).InMode (m.apply c) := by
  rw [State.InMode, (perform_modes t c s).1, (perform_modes t c s).2, h.1, h.2]
  cases c <;> cases m <;> exact ⟨rfl, rfl⟩

/-! ## Iterations and runs -/

/-- The command a batch brings: that of its first byte. -/
def executed? (batch : List Byte) : Option Command := batch.head?.bind command?

/-- The mode behind a batch. -/
def Mode.after (m : Mode) (batch : List Byte) : Mode := (executed? batch).elim m m.apply

/-- What the mode appends. -/
def modeEvents (t : Target) (h : List Event) : Mode → List Event
  | .idle => []
  | .continuous => stepEvents t h ++ [.wait 500000]
  | .freeRun => cycleEvents

/-- What the command of a batch appends. -/
def batchEvents (t : Target) (h : List Event) (m : Mode) (batch : List Byte) : List Event :=
  (executed? batch).elim [] (commandEvents t h m.isContinuous)

/-- **An iteration of the abstract sketch.** -/
def iterationEvents (t : Target) (h : List Event) (m : Mode) (batch : List Byte) : List Event :=
  batchEvents t h m batch ++ modeEvents t (h ++ batchEvents t h m batch) (m.after batch)

/-- **A run of the abstract sketch**, from a history and a mode. -/
def trace (t : Target) : List Event → Mode → List (List Byte) → List Event
  | _, _, [] => []
  | h, m, batch :: batches =>
    iterationEvents t h m batch
      ++ trace t (h ++ iterationEvents t h m batch) (m.after batch) batches

/-- **The sketch between two iterations**: the history, the mode, and nothing left
to read. -/
structure State.At (s : State) (h : List Event) (m : Mode) : Prop where
  port : s.port = ⟨[], h⟩
  mode : s.InMode m

/-- Everything in the buffer is dropped. -/
theorem drain_eq (p : Port) : drain p = { p with rx := [] } := by
  have hdrop : ∀ (n : ℕ) (rx : List Byte) (h : List Event),
      (fun p : Port => p.serialRead.2)^[n] ⟨rx, h⟩ = ⟨rx.drop n, h⟩ := by
    intro n
    induction n with
    | zero => exact fun _ _ => rfl
    | succ n ih =>
      intro rx h
      rw [Function.iterate_succ_apply]
      refine (ih rx.tail h).trans ?_
      rw [List.drop_tail]
  exact (hdrop p.rx.length p.rx p.events).trans (by rw [List.drop_length])

variable {t : Target} {s : State} {h : List Event} {m : Mode}

/-- The mode tail. -/
theorem runMode_at (hs : s.At h m) : (runMode t s).At (h ++ modeEvents t h m) m := by
  obtain ⟨hport, hc, hf⟩ := hs
  unfold runMode
  cases m with
  | idle =>
    have hc' : s.continuousMode = false := hc
    have hf' : s.freeRunMode = false := hf
    rw [hc', hf', modeEvents, List.append_nil]
    exact ⟨hport, hc, hf⟩
  | continuous =>
    have hc' : s.continuousMode = true := hc
    have hf' : s.freeRunMode = false := hf
    rw [hc', hf']
    refine ⟨?_, (stepClock_modes t s).1.trans hc, (stepClock_modes t s).2.trans hf⟩
    show (stepClock t s).port.delay 500 = _
    rw [stepClock_port, hport, Port.delay, Port.emit_emit]
    rfl
  | freeRun =>
    have hf' : s.freeRunMode = true := hf
    rw [if_pos hf']
    refine ⟨?_, hc, hf⟩
    show cycleClock s.port = _
    rw [cycleClock_eq, hport]
    rfl

/-- **A batch is its first byte acted upon**, if that is a command, and the others
dropped. -/
theorem checkSerialInput_eq {batch : List Byte} (hport : s.port = ⟨batch, h⟩) :
    checkSerialInput t s
      = (let s' := (executed? batch).elim id (execute t) { s with port := ⟨batch.tail, h⟩ }
        { s' with port := drain s'.port }) := by
  have havailable : s.port.available = batch.length := by rw [hport]; rfl
  unfold checkSerialInput
  rw [havailable]
  cases batch with
  | nil =>
    rw [List.length_nil, if_neg (Nat.lt_irrefl 0)]
    show s = { s with port := drain ⟨[], h⟩ }
    rw [drain_eq, ← hport]
  | cons b bytes =>
    have hread : s.port.serialRead = (b, ⟨bytes, h⟩) := by rw [hport]; rfl
    rw [if_pos (List.length_pos_of_mem List.mem_cons_self), hread, executed?, List.head?_cons,
      Option.bind_some]
    simp only [process]
    cases command? b <;> rfl

/-- **A batch served.** -/
theorem checkSerialInput_at {batch : List Byte} (hport : s.port = ⟨batch, h⟩)
    (hmode : s.InMode m) :
    (checkSerialInput t s).At (h ++ batchEvents t h m batch) (m.after batch) := by
  rw [checkSerialInput_eq hport, batchEvents, Mode.after]
  cases executed? batch with
  | none =>
    refine ⟨?_, hmode⟩
    show drain ⟨batch.tail, h⟩ = _
    rw [drain_eq, Option.elim_none, List.append_nil]
  | some c =>
    refine ⟨?_, perform_inMode (s := { s with port := ⟨batch.tail, h⟩ }) hmode⟩
    show drain (perform t c { s with port := ⟨batch.tail, h⟩ }).port = _
    rw [drain_eq, perform_port, hmode.1]
    rfl

theorem runMode_performed (t : Target) (s : State) : (runMode t s).performed = s.performed := by
  unfold runMode
  split
  · rfl
  · split
    · exact stepClock_performed t s
    · rfl

/-- **The command of an iteration**, as it is recorded. -/
theorem iterate_performed (hs : s.At h m) (batch : List Byte) :
    (iterate t s batch).performed = s.performed ++ (executed? batch).toList := by
  have hreceive : s.port.receive batch = ⟨batch, h⟩ := by rw [hs.port]; rfl
  refine (runMode_performed t _).trans ?_
  rw [checkSerialInput_eq (s := { s with port := s.port.receive batch }) hreceive]
  cases executed? batch with
  | none => exact (List.append_nil _).symm
  | some c => exact congrArg (· ++ [c]) (perform_performed t c _)

/-- **An iteration of the sketch is an iteration of the abstract sketch.** -/
theorem iterate_at (hs : s.At h m) (batch : List Byte) :
    (iterate t s batch).At (h ++ iterationEvents t h m batch) (m.after batch) := by
  have hreceive : s.port.receive batch = ⟨batch, h⟩ := by rw [hs.port]; rfl
  rw [iterationEvents, ← List.append_assoc]
  exact runMode_at
    (checkSerialInput_at (s := { s with port := s.port.receive batch }) hreceive hs.mode)

/-- **The sketch refines the abstract sketch**: they append the same and are in the
same mode. -/
theorem run_at (hs : s.At h m) (batches : List (List Byte)) :
    (run t s batches).At (h ++ trace t h m batches) (batches.foldl Mode.after m) := by
  induction batches generalizing s h m with
  | nil =>
    rw [trace, List.append_nil]
    exact hs
  | cons batch batches ih =>
    rw [trace, ← List.append_assoc]
    exact ih (iterate_at hs batch)

/-- **The commands of a run**, as they are recorded: those that its batches bring. -/
theorem run_performed (hs : s.At h m) (batches : List (List Byte)) :
    (run t s batches).performed = s.performed ++ batches.filterMap executed? := by
  induction batches generalizing s h m with
  | nil => exact (List.append_nil _).symm
  | cons batch batches ih =>
    refine (ih (iterate_at hs batch)).trans ?_
    rw [iterate_performed hs, List.append_assoc, List.filterMap_cons]
    cases executed? batch <;> rfl

/-! ## The start -/

/-- What `setup` writes and prints. -/
def setupOutput : List Event :=
  (ADDR ++ DATA).map (.pinMode · .input)
    ++ [.pinMode CLK_PIN .output, .write CLK_PIN HIGH, .pinMode RESET_PIN .output,
      .write RESET_PIN HIGH, .pinMode RW_PIN .input, .pinMode LED_BUILTIN .output,
      .write LED_BUILTIN LOW]
    ++ ["6502 Target Debugger Ready!"].flatMap (fun l => [.print l.toList, .print Text.newline])
    ++ helpText.flatMap (fun l => [.print l.toList, .print Text.newline])
    ++ [.print Text.newline]
    ++ ["Monitoring bus for changes..."].flatMap fun l => [.print l.toList, .print Text.newline]

/-- What `setup` appends. -/
def setupEvents (t : Target) : List Event :=
  let addr := readEvents t setupOutput ADDR
  let data := readEvents t (setupOutput ++ addr) DATA
  setupOutput ++ addr ++ data ++ [.read RW_PIN (t (setupOutput ++ addr ++ data) RW_PIN)]

/-- **The sketch is ready.** -/
theorem ready_at (t : Target) : (ready t).At (setupEvents t) .idle := by
  have hport : (ready t).port = ⟨[], setupEvents t⟩ := by
    simp [ready, setup, State.init, ADDR, DATA, Port.pinMode, Port.digitalWrite, Port.println,
      Port.print, printLines_eq, Port.emit, readAddressBus, readDataBus, readRW,
      Port.digitalRead, readPins_eq, setupEvents, setupOutput]
  refine ⟨hport, ?_⟩
  simp [State.InMode, ready, setup, State.init, readAddressBus, readDataBus, readRW,
    Port.digitalRead, readPins_eq, Mode.isContinuous, Mode.isFreeRun]

end Debugger
