import Mathlib.Logic.Function.Basic
import Eater6502.Isa

/-!
# The 6502 as a machine over a bus

The processor's registers, its stack page, and a bus on which everything else
hangs. The stack page `$0100`–`$01FF` is part of the machine because the
processor itself writes there; for every other address it asks the bus, of
which it knows only that a read yields a byte and may change the state of
whatever is connected, and that a write changes that state.

One step fetches an instruction through the same reads as data and executes
it. Every address the processor writes is appended to `written`, which no
instruction reads: it is what an observer of the write line would note down.
-/

namespace Cpu

open Isa

variable {β : Type}

/-- What answers the processor outside the stack page. -/
structure Bus (β : Type) where
  /-- The byte read at an address, and the state of the bus afterwards. -/
  read : β → Word → Byte × β
  /-- The state of the bus after a byte is written at an address. -/
  write : β → Word → Byte → β

/-- The flags of the status register. -/
structure Flags where
  /-- negative -/
  n : Bool
  /-- overflow -/
  v : Bool
  /-- decimal -/
  d : Bool
  /-- interrupts disabled -/
  i : Bool
  /-- zero -/
  z : Bool
  /-- carry -/
  c : Bool
  deriving Repr, DecidableEq

/-- The flags after a result: `n` is its sign bit, `z` whether it is zero. -/
def Flags.result (p : Flags) (b : Byte) : Flags :=
  { p with n := b.msb, z := b == 0 }

@[simp] theorem Flags.result_z (p : Flags) (b : Byte) : (p.result b).z = (b == 0) := rfl

/-- A processor, its stack page, and the bus. -/
structure Machine (β : Type) where
  a : Byte
  x : Byte
  y : Byte
  sp : Byte
  p : Flags
  pc : Word
  /-- The RAM at `$0100`–`$01FF`, by low address byte. -/
  page1 : Byte → Byte
  bus : β
  /-- The addresses written so far, the latest one last. -/
  written : List Word

namespace Machine

/-- A read: the stack page answers for itself, the bus for the rest. -/
def read (B : Bus β) (m : Machine β) (w : Word) : Byte × Machine β :=
  if hi w = 1 then (m.page1 (lo w), m)
  else ((B.read m.bus w).1, { m with bus := (B.read m.bus w).2 })

/-- A write, noted down. -/
def write (B : Bus β) (m : Machine β) (w : Word) (b : Byte) : Machine β :=
  if hi w = 1 then
    { m with page1 := Function.update m.page1 (lo w) b, written := m.written ++ [w] }
  else { m with bus := B.write m.bus w b, written := m.written ++ [w] }

/-- The byte at the program counter, which moves on. -/
def fetch (B : Bus β) (m : Machine β) : Byte × Machine β :=
  ((m.read B m.pc).1, { (m.read B m.pc).2 with pc := m.pc + 1 })

/-- A push: the stack grows downwards and wraps within its page. -/
def push (B : Bus β) (m : Machine β) (b : Byte) : Machine β :=
  { m.write B (word 1 m.sp) b with sp := m.sp - 1 }

/-- A pull, as the other way round. -/
def pull (B : Bus β) (m : Machine β) : Byte × Machine β :=
  { m with sp := m.sp + 1 }.read B (word 1 (m.sp + 1))

/-- A result in the accumulator. -/
def setA (m : Machine β) (b : Byte) : Machine β :=
  { m with a := b, p := m.p.result b }

/-- A result in the index register. -/
def setX (m : Machine β) (b : Byte) : Machine β :=
  { m with x := b, p := m.p.result b }

/-- The whole instruction at the program counter, which moves behind it. -/
def fetchInstr (B : Bus β) (m : Machine β) : Option (Instr Word Byte × Machine β) :=
  let (op, m) := m.fetch B
  match form op with
  | none => none
  | some (.implied i) => some (i, m)
  | some (.byte f) =>
    let (b, m) := m.fetch B
    some (f b, m)
  | some (.word f) =>
    let (l, m) := m.fetch B
    let (h, m) := m.fetch B
    some (f (word h l), m)

/-- **The effect of an instruction**, once the program counter stands behind
it. A call pushes the address of its own last byte, high byte first, and a
return goes to the address after the one it pulls. -/
def exec (B : Bus β) (m : Machine β) : Instr Word Byte → Machine β
  | .ldaImm b => m.setA b
  | .ldaAbs w =>
    let (b, m) := m.read B w
    m.setA b
  | .ldaAbsX w =>
    let (b, m) := m.read B (w + m.x.setWidth 16)
    m.setA b
  | .ldxImm b => m.setX b
  | .staAbs w => m.write B w m.a
  | .andImm b => m.setA (m.a &&& b)
  | .txs => { m with sp := m.x }
  | .inx => m.setX (m.x + 1)
  | .pha => m.push B m.a
  | .pla =>
    let (b, m) := m.pull B
    m.setA b
  | .jsr w => { (m.push B (hi (m.pc - 1))).push B (lo (m.pc - 1)) with pc := w }
  | .rts =>
    let (l, m) := m.pull B
    let (h, m) := m.pull B
    { m with pc := word h l + 1 }
  | .jmpAbs w => { m with pc := w }
  | .beq r => if m.p.z then { m with pc := m.pc + r.signExtend 16 } else m
  | .bne r => if m.p.z then m else { m with pc := m.pc + r.signExtend 16 }

/-- One instruction. The machine stops at an opcode the decoder does not know. -/
def step (B : Bus β) (m : Machine β) : Option (Machine β) :=
  (m.fetchInstr B).map fun im => im.2.exec B im.1

/-- Reset: the program counter is loaded from the vector at `$FFFC`, interrupts
are disabled and decimal mode is left. The other registers keep what they held. -/
def reset (B : Bus β) (m : Machine β) : Machine β :=
  let (l, m) := m.read B 0xfffc
  let (h, m) := m.read B 0xfffd
  { m with pc := word h l, p := { m.p with i := true, d := false } }

end Machine

end Cpu
