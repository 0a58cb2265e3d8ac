import Eater6502.Machine

/-!
# The board: ROM, VIA and LCD

What hangs on the processor's bus. The ROM answers from `$8000` up, the VIA's
two ports and their direction registers at `$6000`–`$6003`, and RAM everywhere
else below the ROM. The LCD has its data lines on port B and its control lines
`E`, `RW` and `RS` on the top three pins of port A.

A pin the VIA does not drive reads low on port A; on port B it carries what the
LCD puts there. What the LCD answers is not for the board to decide: it is a
sequence of bytes `lcd`, one for each read of port B, of which bit 7 is the busy
flag. Every access to the VIA that can matter to the LCD is appended to `log`,
which nothing on the board reads.
-/

namespace Eater

open Isa Cpu

/-! ## The VIA -/

/-- Port B of the VIA. -/
def PORTB : Word := 0x6000
/-- Port A. -/
def PORTA : Word := 0x6001
/-- The data direction register of port B. -/
def DDRB : Word := 0x6002
/-- The data direction register of port A. -/
def DDRA : Word := 0x6003

/-- The LCD's enable line, on port A. -/
def E : Byte := 0b10000000
/-- The LCD's read/write line: high is a read. -/
def RW : Byte := 0b01000000
/-- The LCD's register select: low is an instruction, high is data. -/
def RS : Byte := 0b00100000

/-- The four registers. -/
inductive Reg where
  | portb
  | porta
  | ddrb
  | ddra
  deriving Repr, DecidableEq

/-- Where a register is. -/
def Reg.addr : Reg → Word
  | portb => PORTB
  | porta => PORTA
  | ddrb => DDRB
  | ddra => DDRA

/-- Which register is at an address. -/
def Reg.at (w : Word) : Option Reg :=
  if w = PORTB then some portb
  else if w = PORTA then some porta
  else if w = DDRB then some ddrb
  else if w = DDRA then some ddra
  else none

@[simp] theorem Reg.at_addr (r : Reg) : Reg.at r.addr = some r := by
  cases r <;> rfl

/-- The state of the VIA. -/
structure Via where
  portb : Byte
  porta : Byte
  ddrb : Byte
  ddra : Byte
  deriving Repr, DecidableEq

namespace Via

/-- After a reset all registers are zero. -/
def cleared : Via := ⟨0, 0, 0, 0⟩

/-- A register written. -/
def set (v : Via) : Reg → Byte → Via
  | .portb, b => { v with portb := b }
  | .porta, b => { v with porta := b }
  | .ddrb, b => { v with ddrb := b }
  | .ddra, b => { v with ddra := b }

/-- The levels on the pins of port A: an undriven pin reads low. -/
def pinsA (v : Via) : Byte := v.porta &&& v.ddra

/-- The level of the LCD's `E`. -/
def e (v : Via) : Bool := v.pinsA &&& E != 0

/-- The level of the LCD's `RW`. -/
def rw (v : Via) : Bool := v.pinsA &&& RW != 0

/-- The level of the LCD's `RS`. -/
def rs (v : Via) : Bool := v.pinsA &&& RS != 0

/-- The levels on the pins of port B, with `lines` on those the VIA does not
drive. -/
def pinsB (v : Via) (lines : Byte) : Byte := v.portb &&& v.ddrb ||| lines &&& ~~~v.ddrb

end Via

/-! ## What the LCD sees -/

/-- An access to the VIA. -/
inductive Access where
  /-- A register was written; the VIA before and after. -/
  | store (r : Reg) (before after : Via)
  /-- Port B was read; the VIA, and the byte that was read. -/
  | read (v : Via) (b : Byte)
  deriving Repr, DecidableEq

/-- A byte the LCD takes in: `RS` and the data lines at the falling edge. -/
structure Strobe where
  rs : Bool
  data : Byte
  deriving Repr, DecidableEq

namespace Access

/-- **A write strobe**: `E` falls while `RW` is low. -/
def strobe? : Access → Option Strobe
  | store _ v v' => if v.e && !v'.e && !v.rw then some ⟨v.rs, v.portb &&& v.ddrb⟩ else none
  | read _ _ => none

/-- A read of the busy flag: `RS` low, `RW` and `E` high, the data lines left to
the LCD. -/
def isPoll : Access → Bool
  | read v _ => !v.rs && v.rw && v.e && v.ddrb == 0
  | store _ _ _ => false

/-- A read of the busy flag that found it clear. -/
def isReady : Access → Bool
  | read v b => (read v b).isPoll && !b.msb
  | store _ _ _ => false

/-- A write to the VIA. -/
def isStore : Access → Bool
  | store _ _ _ => true
  | read _ _ => false

end Access

/-- The write strobes in a log, in order. -/
def strobes (log : List Access) : List Strobe := log.filterMap Access.strobe?

@[simp] theorem strobes_append (l l' : List Access) :
    strobes (l ++ l') = strobes l ++ strobes l' := List.filterMap_append

/-! ## The board -/

/-- Everything on the bus. -/
structure Board where
  via : Via
  /-- RAM, by address. -/
  ram : Word → Byte
  /-- How often port B has been read. -/
  polls : ℕ
  /-- The accesses to the VIA so far, the latest last. -/
  log : List Access

namespace Board

/-- A byte stored in a register of the VIA. -/
def store (b : Board) (r : Reg) (v : Byte) : Board :=
  { b with via := b.via.set r v, log := b.log ++ [.store r b.via (b.via.set r v)] }

/-- What is read at port B. -/
def portB (lcd : ℕ → Byte) (b : Board) : Byte := b.via.pinsB (lcd b.polls)

/-- Port B read. -/
def poll (lcd : ℕ → Byte) (b : Board) : Board :=
  { b with polls := b.polls + 1, log := b.log ++ [.read b.via (b.portB lcd)] }

/-- **The address decoding of the board.** -/
def bus (rom : Word → Byte) (lcd : ℕ → Byte) : Bus Board where
  read b w :=
    match Reg.at w with
    | some .portb => (b.portB lcd, b.poll lcd)
    | some .porta => (b.via.pinsA, b)
    | some .ddrb => (b.via.ddrb, b)
    | some .ddra => (b.via.ddra, b)
    | none => if 0x8000 ≤ w then (rom w, b) else (b.ram w, b)
  write b w v :=
    match Reg.at w with
    | some r => b.store r v
    | none => if 0x8000 ≤ w then b else { b with ram := Function.update b.ram w v }

variable {rom : Word → Byte} {lcd : ℕ → Byte}

theorem write_addr (b : Board) (r : Reg) (v : Byte) :
    (bus rom lcd).write b r.addr v = b.store r v := by
  simp only [bus, Reg.at_addr]

theorem read_portb (b : Board) :
    (bus rom lcd).read b PORTB = (b.portB lcd, b.poll lcd) := rfl

/-- The ROM answers from `$8000` up, and a read of it disturbs nothing. -/
theorem read_rom (b : Board) {w : Word} (hw : 0x8000 ≤ w) :
    (bus rom lcd).read b w = (rom w, b) := by
  have hat : Reg.at w = none := by
    have hne : ∀ v : Word, v < 0x8000 → w ≠ v := by
      rintro v hv rfl
      exact absurd hw (BitVec.not_le.mpr hv)
    rw [Reg.at, if_neg (hne _ (by decide)), if_neg (hne _ (by decide)),
      if_neg (hne _ (by decide)), if_neg (hne _ (by decide))]
  simp only [bus, hat, if_pos hw]

end Board

end Eater
