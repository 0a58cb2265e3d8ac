import Mathlib.Data.Nat.Notation
import Mathlib.Logic.Function.Iterate
import Eater6502.Isa
import Eater6502.TextLines

/-!
# A sketch and its surroundings

What an Arduino sketch does to its pins and its serial port is a history of
events, the oldest first, and a `Port` is that history together with the bytes
that have been received and not yet read. The functions of the platform append
to it.

What is on the other side of the input pins is a `Target`: it gives the level of
a pin, and may let it depend on everything that has happened before. A history
is read again through what was written to a pin (`writes`), through the text that
went out (`output`), and through what the pins were when somebody looked
(`Watched`).
-/

namespace Arduino

def LOW : Bool := false
def HIGH : Bool := true

/-- The directions of a pin. -/
inductive PinMode where
  | input
  | output
  deriving Repr, DecidableEq

/-- What can happen at the pins and at the serial port. -/
inductive Event where
  | pinMode (pin : ℕ) (mode : PinMode)
  | write (pin : ℕ) (level : Bool)
  /-- A pin was read, and this is what it read. -/
  | read (pin : ℕ) (level : Bool)
  /-- Time passed, in microseconds. -/
  | wait (us : ℕ)
  | print (text : List Char)
  deriving Repr, DecidableEq

/-- What drives the input pins: the level of each, after a history. -/
abbrev Target := List Event → ℕ → Bool

/-- The pins and the serial port. -/
structure Port where
  /-- The bytes received and not yet read. -/
  rx : List Byte
  events : List Event

namespace Port

/-- Something happens. -/
def emit (p : Port) (es : List Event) : Port := { p with events := p.events ++ es }

@[simp] theorem emit_nil (p : Port) : p.emit [] = p := by
  rw [emit, List.append_nil]

@[simp] theorem emit_emit (p : Port) (es es' : List Event) :
    (p.emit es).emit es' = p.emit (es ++ es') := by
  rw [emit, emit, emit, List.append_assoc]

@[simp] theorem events_emit (p : Port) (es : List Event) :
    (p.emit es).events = p.events ++ es := rfl

/-! ## The functions of the platform -/

def pinMode (pin : ℕ) (mode : PinMode) (p : Port) : Port := p.emit [.pinMode pin mode]

def digitalWrite (pin : ℕ) (level : Bool) (p : Port) : Port := p.emit [.write pin level]

def digitalRead (t : Target) (pin : ℕ) (p : Port) : Bool × Port :=
  (t p.events pin, p.emit [.read pin (t p.events pin)])

def delayMicroseconds (us : ℕ) (p : Port) : Port := p.emit [.wait us]

def delay (ms : ℕ) (p : Port) : Port := p.emit [.wait (1000 * ms)]

/-- `Serial.print` of a text. -/
def print (text : List Char) (p : Port) : Port := p.emit [.print text]

/-- `Serial.println` of a text. -/
def println (text : List Char) (p : Port) : Port := (p.print text).print Text.newline

/-- `Serial.available`. -/
def available (p : Port) : ℕ := p.rx.length

/-- `Serial.read`: the next byte, or -1 if there is none. -/
def serialRead (p : Port) : Byte × Port := (p.rx.headD 0xff, { p with rx := p.rx.tail })

/-- A batch of bytes is received. -/
def receive (batch : List Byte) (p : Port) : Port := { p with rx := p.rx ++ batch }

end Port

/-! ## Reading a history -/

/-- What was written to a pin. -/
def writes (pin : ℕ) (es : List Event) : List Bool :=
  es.filterMap fun
    | .write q level => if q = pin then some level else none
    | _ => none

/-- What was written to it last. -/
def lastWrite (pin : ℕ) (es : List Event) : Option Bool := (writes pin es).getLast?

/-- What went out on the serial port. -/
def output (es : List Event) : List Char :=
  es.flatMap fun
    | .print text => text
    | _ => []

/-- A look at a pin, or something said to somebody looking. -/
def Event.observes : Event → Bool
  | read _ _ => true
  | print _ => true
  | _ => false

/-- **A pin is high whenever somebody looks**, after a history. -/
def Watched (pin : ℕ) (h es : List Event) : Prop :=
  ∀ pre e post, es = pre ++ e :: post → e.observes = true →
    lastWrite pin (h ++ pre) = some HIGH

variable {pin : ℕ} {h es es' : List Event}

@[simp] theorem writes_append : writes pin (es ++ es') = writes pin es ++ writes pin es' :=
  List.filterMap_append

@[simp] theorem output_append : output (es ++ es') = output es ++ output es' :=
  List.flatMap_append

theorem lastWrite_append_of_nil (hw : writes pin es = []) :
    lastWrite pin (h ++ es) = lastWrite pin h := by
  rw [lastWrite, writes_append, hw, List.append_nil, lastWrite]

theorem lastWrite_append_of_last {level : Bool} (hw : lastWrite pin es = some level) :
    lastWrite pin (h ++ es) = some level := by
  rw [lastWrite] at hw
  rw [lastWrite, writes_append, List.getLast?_append, hw, Option.some_or]

namespace Watched

theorem append (hes : Watched pin h es) (hes' : Watched pin (h ++ es) es') :
    Watched pin h (es ++ es') := by
  intro pre e post heq he
  rcases List.append_eq_append_iff.mp heq with ⟨mid, rfl, hmid⟩ | ⟨mid, rfl, hmid⟩
  · rw [← List.append_assoc]
    exact hes' mid e post hmid he
  · cases mid with
    | nil =>
      have hlast := hes' [] e post hmid.symm he
      rw [List.append_nil, List.append_nil] at hlast
      exact hlast
    | cons d mid =>
      obtain ⟨rfl, rfl⟩ := List.cons_eq_cons.mp hmid
      exact hes pre e mid rfl he

/-- Where nobody looks, nothing is asked. -/
theorem of_quiet (hes : ∀ e ∈ es, e.observes = false) : Watched pin h es := by
  rintro pre e post rfl he
  rw [hes e (List.mem_append_right pre List.mem_cons_self)] at he
  exact absurd he Bool.false_ne_true

/-- Where the pin is high and nobody writes to it, everybody may look. -/
theorem of_high (hh : lastWrite pin h = some HIGH) (hes : writes pin es = []) :
    Watched pin h es := by
  rintro pre e post rfl -
  rw [writes_append] at hes
  rw [lastWrite_append_of_nil (List.append_eq_nil_iff.mp hes).1, hh]

end Watched

end Arduino
