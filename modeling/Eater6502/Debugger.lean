import Eater6502.Arduino
import Eater6502.Numeral

/-!
# The sketch `debug-firmware.ino`

The debugger that drives the clock and the reset line of the target and reports
what it sees on the target's bus, function by function, under the names of the
source. What a function touches is in its type: the port alone, or also the two
modes and the sample taken last.

An iteration of `loop` reads one byte, acts on it, and drops the others there
are; then it runs a cycle of the target's clock, if one of the modes is on. The
bytes come in batches, one for each iteration: those that have arrived when it
reads its command or arrive before it has dropped the others.
-/

namespace Debugger

open Arduino

/-! ## The pins -/

/-- A0-A15 -/
def ADDR : List ℕ := [22, 24, 26, 28, 30, 32, 34, 36, 38, 40, 42, 44, 46, 48, 50, 52]
/-- D0-D7 -/
def DATA : List ℕ := [53, 51, 49, 47, 45, 43, 41, 39]
/-- Clock pin (output) -/
def CLK_PIN : ℕ := 2
/-- Read/Write pin (input) -/
def RW_PIN : ℕ := 3
/-- Reset pin (output) -/
def RESET_PIN : ℕ := 4
/-- The built-in LED, where the platform has it. -/
def LED_BUILTIN : ℕ := 13
/-- Clock pulse HIGH duration in microseconds -/
def CLK_DELAY_US : ℕ := 100

/-- 6502 Opcode lookup table -/
def OPCODE_NAMES : List String := [
  -- 0x00-0x0F
  "BRK", "ORA", "???", "???", "???", "ORA", "ASL", "???", "PHP", "ORA", "ASL", "???", "???", "ORA",
  "ASL", "???",
  -- 0x10-0x1F
  "BPL", "ORA", "???", "???", "???", "ORA", "ASL", "???", "CLC", "ORA", "???", "???", "???", "ORA",
  "ASL", "???",
  -- 0x20-0x2F
  "JSR", "AND", "???", "???", "BIT", "AND", "ROL", "???", "PLP", "AND", "ROL", "???", "BIT", "AND",
  "ROL", "???",
  -- 0x30-0x3F
  "BMI", "AND", "???", "???", "???", "AND", "ROL", "???", "SEC", "AND", "???", "???", "???", "AND",
  "ROL", "???",
  -- 0x40-0x4F
  "RTI", "EOR", "???", "???", "???", "EOR", "LSR", "???", "PHA", "EOR", "LSR", "???", "JMP", "EOR",
  "LSR", "???",
  -- 0x50-0x5F
  "BVC", "EOR", "???", "???", "???", "EOR", "LSR", "???", "CLI", "EOR", "???", "???", "???", "EOR",
  "LSR", "???",
  -- 0x60-0x6F
  "RTS", "ADC", "???", "???", "???", "ADC", "ROR", "???", "PLA", "ADC", "ROR", "???", "JMP", "ADC",
  "ROR", "???",
  -- 0x70-0x7F
  "BVS", "ADC", "???", "???", "???", "ADC", "ROR", "???", "SEI", "ADC", "???", "???", "???", "ADC",
  "ROR", "???",
  -- 0x80-0x8F
  "???", "STA", "???", "???", "STY", "STA", "STX", "???", "DEY", "???", "TXA", "???", "STY", "STA",
  "STX", "???",
  -- 0x90-0x9F
  "BCC", "STA", "???", "???", "STY", "STA", "STX", "???", "TYA", "STA", "TXS", "???", "???", "STA",
  "???", "???",
  -- 0xA0-0xAF
  "LDY", "LDA", "LDX", "???", "LDY", "LDA", "LDX", "???", "TAY", "LDA", "TAX", "???", "LDY", "LDA",
  "LDX", "???",
  -- 0xB0-0xBF
  "BCS", "LDA", "???", "???", "LDY", "LDA", "LDX", "???", "CLV", "LDA", "TSX", "???", "LDY", "LDA",
  "LDX", "???",
  -- 0xC0-0xCF
  "CPY", "CMP", "???", "???", "CPY", "CMP", "DEC", "???", "INY", "CMP", "DEX", "???", "CPY", "CMP",
  "DEC", "???",
  -- 0xD0-0xDF
  "BNE", "CMP", "???", "???", "???", "CMP", "DEC", "???", "CLD", "CMP", "???", "???", "???", "CMP",
  "DEC", "???",
  -- 0xE0-0xEF
  "CPX", "SBC", "???", "???", "CPX", "SBC", "INC", "???", "INX", "SBC", "NOP", "???", "CPX", "SBC",
  "INC", "???",
  -- 0xF0-0xFF
  "BEQ", "SBC", "???", "???", "???", "SBC", "INC", "???", "SED", "SBC", "???", "???", "???", "SBC",
  "INC", "???"]

/-! ## The state -/

/-- What a byte can ask for. -/
inductive Command where
  | reset
  | continuous
  | step
  | read
  | freeRun
  | help
  deriving Repr, DecidableEq

/-- The variables of the sketch, its port, and a record of what it has done. -/
structure State where
  continuousMode : Bool
  freeRunMode : Bool
  prevAddr : BitVec 16
  prevData : Byte
  prevRW : Bool
  port : Port
  /-- The commands that were performed. The sketch itself does not remember them. -/
  performed : List Command

/-- As the sketch is started. -/
def State.init : State := ⟨false, false, 0, 0, true, ⟨[], []⟩, []⟩

/-! ## Reading and reporting the bus -/

/-- A value read from some pins, bit by bit from the `n`-th one up. -/
def readPins {width : ℕ} (t : Target) :
    List ℕ → ℕ → BitVec width → Port → BitVec width × Port
  | [], _, v, p => (v, p)
  | pin :: pins, n, v, p =>
    let (level, p) := p.digitalRead t pin
    readPins t pins (n + 1) (if level then v ||| BitVec.ofNat width 1 <<< n else v) p

def readAddressBus (t : Target) (p : Port) : BitVec 16 × Port := readPins t ADDR 0 0 p

def readDataBus (t : Target) (p : Port) : Byte × Port := readPins t DATA 0 0 p

def readRW (t : Target) (p : Port) : Bool × Port := p.digitalRead t RW_PIN

def getOpcodeName (opcode : Byte) : List Char :=
  (OPCODE_NAMES.getD opcode.toNat "").toList

/-- The bits of a value from the `n`-th one down, each printed as a number. -/
def printBits (v : ℕ) : ℕ → Port → Port
  | 0, p => p
  | n + 1, p => printBits v n (p.print [Numeral.digit (v >>> n &&& 1)])

def printCurrentState (addr : BitVec 16) (data : Byte) (rw : Bool) (p : Port) : Port :=
  -- sprintf with "Addr: 0x%04X ("
  let p := p.print ("Addr: 0x".toList ++ Numeral.digits 16 4 addr.toNat ++ " (".toList)
  let p := printBits addr.toNat 16 p
  -- sprintf with ") | Data: 0x%02X ("
  let p := p.print (") | Data: 0x".toList ++ Numeral.digits 16 2 data.toNat ++ " (".toList)
  let p := printBits data.toNat 8 p
  let p := p.print ") | R/W: ".toList
  let p := p.print (if rw then "R" else "W").toList
  -- Decode opcode on reads
  let p := if rw then (p.print " | Op: ".toList).print (getOpcodeName data) else p
  p.print Text.newline

/-! ## Driving the target -/

/-- A cycle of the target's clock. -/
def cycleClock (p : Port) : Port :=
  (((p.digitalWrite CLK_PIN LOW).delayMicroseconds CLK_DELAY_US).digitalWrite CLK_PIN
    HIGH).delayMicroseconds CLK_DELAY_US

def resetTarget (p : Port) : Port :=
  let p := cycleClock^[4] p
  let p := p.digitalWrite RESET_PIN LOW
  let p := p.digitalWrite LED_BUILTIN LOW
  let p := cycleClock^[20] p
  let p := p.digitalWrite RESET_PIN HIGH
  let p := p.digitalWrite LED_BUILTIN HIGH
  let p := p.println "Target reset!".toList
  cycleClock^[20] p

def stepClock (t : Target) (s : State) : State :=
  let p := s.port.digitalWrite CLK_PIN LOW
  let p := p.digitalWrite LED_BUILTIN LOW
  let p := p.delayMicroseconds CLK_DELAY_US
  let p := p.delayMicroseconds CLK_DELAY_US
  let p := p.digitalWrite CLK_PIN HIGH
  let p := p.digitalWrite LED_BUILTIN HIGH
  let p := p.delayMicroseconds CLK_DELAY_US
  let p := p.delayMicroseconds CLK_DELAY_US
  -- Read bus while PHI2 is HIGH (when data is valid)
  let (addr, p) := readAddressBus t p
  let (data, p) := readDataBus t p
  let (rw, p) := readRW t p
  { s with
    port := printCurrentState addr data rw p
    prevAddr := addr
    prevData := data
    prevRW := rw }

def stepClockFast (p : Port) : Port := cycleClock p

/-! ## The commands -/

/-- A character, as it arrives. -/
def ascii (c : Char) : Byte := BitVec.ofNat 8 c.toNat

/-- The cases of the `switch`. Whitespace and unknown bytes are ignored. -/
def command? (b : Byte) : Option Command :=
  if b = ascii 'r' ∨ b = ascii 'R' then some .reset
  else if b = ascii 'c' ∨ b = ascii 'C' then some .continuous
  else if b = ascii 's' ∨ b = ascii 'S' then some .step
  else if b = ascii 'p' ∨ b = ascii 'P' then some .read
  else if b = ascii 'f' ∨ b = ascii 'F' then some .freeRun
  else if b = ascii 'h' ∨ b = ascii 'H' then some .help
  else none

/-- The list of commands, as it is shown. -/
def helpText : List String := [
  "Commands:",
  "  'r' = Reset target",
  "  'c' = Toggle continuous mode (slow, ~2 Hz)",
  "  's' = Single clock step",
  "  'p' = Read bus (no clock step)",
  "  'f' = Free run (reset + fast clock)",
  "  'h' = Show this help"]

/-- Some lines printed. -/
def printLines (ls : List String) (p : Port) : Port :=
  ls.foldl (fun p l => p.println l.toList) p

/-- The branches of the `switch`. -/
def perform (t : Target) : Command → State → State
  | .reset, s => { s with port := resetTarget s.port }
  | .continuous, s =>
    let s := { s with continuousMode := !s.continuousMode, freeRunMode := false }
    let p := s.port.print "Continuous clock mode: ".toList
    { s with port := p.println (if s.continuousMode then "ON" else "OFF").toList }
  | .step, s => stepClock t s
  | .read, s =>
    -- Read and print current bus state without stepping clock
    let (addr, p) := readAddressBus t s.port
    let (data, p) := readDataBus t p
    let (rw, p) := readRW t p
    { s with port := printCurrentState addr data rw p }
  | .freeRun, s =>
    let s := { s with port := resetTarget s.port }
    let s := { s with freeRunMode := true, continuousMode := false }
    { s with port := s.port.println "Free run mode started!".toList }
  | .help, s => { s with port := printLines helpText s.port }

/-- A command performed, and recorded. -/
def execute (t : Target) (c : Command) (s : State) : State :=
  let s := perform t c s
  { s with performed := s.performed ++ [c] }

/-- A byte acted upon. -/
def process (t : Target) (b : Byte) (s : State) : State :=
  match command? b with
  | some c => execute t c s
  | none => s

/-- The bytes in the buffer dropped, one by one. -/
def drain (p : Port) : Port := (fun p => p.serialRead.2)^[p.available] p

/-! ## The sketch -/

def setup (t : Target) (s : State) : State :=
  -- Serial.begin(9600), and the wait for the port, are not seen at the pins
  let p := ADDR.foldl (fun p pin => p.pinMode pin .input) s.port
  let p := DATA.foldl (fun p pin => p.pinMode pin .input) p
  -- clock pin as OUTPUT (initially HIGH - idle state)
  let p := p.pinMode CLK_PIN .output
  let p := p.digitalWrite CLK_PIN HIGH
  -- reset pin as OUTPUT (initially HIGH - not reset)
  let p := p.pinMode RESET_PIN .output
  let p := p.digitalWrite RESET_PIN HIGH
  let p := p.pinMode RW_PIN .input
  let p := p.pinMode LED_BUILTIN .output
  let p := p.digitalWrite LED_BUILTIN LOW
  let p := p.println "6502 Target Debugger Ready!".toList
  let p := printLines helpText p
  let p := p.print Text.newline
  let p := p.println "Monitoring bus for changes...".toList
  let (addr, p) := readAddressBus t p
  let (data, p) := readDataBus t p
  let (rw, p) := readRW t p
  { s with port := p, prevAddr := addr, prevData := data, prevRW := rw }

/-- The mode tail: a cycle, if one of the modes is on. -/
def runMode (t : Target) (s : State) : State :=
  if s.freeRunMode then { s with port := stepClockFast s.port }
  else if s.continuousMode then
    let s := stepClock t s
    -- ~2 instructions per second
    { s with port := s.port.delay 500 }
  else s

/-- Check for serial input: a byte read and acted upon, and the others dropped. -/
def checkSerialInput (t : Target) (s : State) : State :=
  if 0 < s.port.available then
    let (command, p) := s.port.serialRead
    let s := process t command { s with port := p }
    -- DROP any remaining characters in buffer
    { s with port := drain s.port }
  else s

def loop (t : Target) (s : State) : State := runMode t (checkSerialInput t s)

/-- An iteration of `loop`, with the batch of bytes that arrives for it. -/
def iterate (t : Target) (s : State) (batch : List Byte) : State :=
  loop t { s with port := s.port.receive batch }

/-- **A run of the sketch** from a state between two iterations, with a batch for
each iteration to come. -/
def run (t : Target) (s : State) (batches : List (List Byte)) : State :=
  batches.foldl (iterate t) s

/-- The state in which `loop` is called for the first time. -/
def ready (t : Target) : State := setup t .init

end Debugger
