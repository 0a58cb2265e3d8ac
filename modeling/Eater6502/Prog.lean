import Eater6502.Assembler
import Eater6502.Board

/-!
# The listing `prog.s` and its ROM image

`prog` is the program section of `roms/prog.s`, line by line, with the data at
the label `message` left open; the listing's own is `"Hello, world!"` and a
zero. The image places it at `$8000`, fills up with zeros to `$fffc` and puts
the reset vector there, which is what `vasm -Fbin` makes of the two `.org`s.

Data of any length shifts the subroutines behind it, so no address after
`message` is a constant. `assemble_prog` says that the listing assembles for
all data nevertheless, and `loaded` that the board's ROM holds the result, so
that the processor finds the listing there (`Asm.fetchInstr_addr`).
-/

namespace Eater

open Isa Cpu Asm

/-- The labels of the listing. -/
inductive Label where
  | reset
  | print
  | loop
  | message
  | lcdWait
  | lcdBusy
  | lcdInstruction
  | printChar
  deriving Repr, DecidableEq

/-- A line without a label. -/
abbrev ins (i : Instr (Operand Label) Label) : Line Label := ⟨none, .instr i⟩

/-- A line with a label. -/
abbrev lab (l : Label) (i : Instr (Operand Label) Label) : Line Label := ⟨some l, .instr i⟩

/-- **`prog.s`**, line by line, with some data at `message`. -/
def lines (data : List Byte) : List (Line Label) := [
  lab .reset (.ldxImm 0xff),
  ins .txs,
  -- init VIA
  ins (.ldaImm 0b11111111),
  ins (.staAbs (.addr DDRB)),
  ins (.ldaImm 0b11100000),
  ins (.staAbs (.addr DDRA)),
  -- function set, display on, entry mode, clear display
  ins (.ldaImm 0b00111000),
  ins (.jsr (.label .lcdInstruction)),
  ins (.ldaImm 0b00001110),
  ins (.jsr (.label .lcdInstruction)),
  ins (.ldaImm 0b00000110),
  ins (.jsr (.label .lcdInstruction)),
  ins (.ldaImm 0b00000001),
  ins (.jsr (.label .lcdInstruction)),
  -- write data
  ins (.ldaImm 0),
  lab .print (.ldaAbsX (.label .message)),
  ins (.beq .loop),
  ins (.jsr (.label .printChar)),
  ins .inx,
  ins (.jmpAbs (.label .print)),
  lab .loop (.jmpAbs (.label .loop)),
  ⟨some .message, .bytes data⟩,
  lab .lcdWait .pha,
  ins (.ldaImm 0b00000000),
  ins (.staAbs (.addr DDRB)),
  lab .lcdBusy (.ldaImm RW),
  ins (.staAbs (.addr PORTA)),
  ins (.ldaImm (RW ||| E)),
  ins (.staAbs (.addr PORTA)),
  ins (.ldaAbs (.addr PORTB)),
  ins (.andImm 0b10000000),
  ins (.bne .lcdBusy),
  ins (.ldaImm RW),
  ins (.staAbs (.addr PORTA)),
  ins (.ldaImm 0b11111111),
  ins (.staAbs (.addr DDRB)),
  ins .pla,
  ins .rts,
  lab .lcdInstruction (.jsr (.label .lcdWait)),
  ins (.staAbs (.addr PORTB)),
  ins (.ldaImm 0),
  ins (.staAbs (.addr PORTA)),
  ins (.ldaImm E),
  ins (.staAbs (.addr PORTA)),
  ins (.ldaImm 0),
  ins (.staAbs (.addr PORTA)),
  ins .rts,
  lab .printChar (.jsr (.label .lcdWait)),
  ins (.staAbs (.addr PORTB)),
  ins (.ldaImm RS),
  ins (.staAbs (.addr PORTA)),
  ins (.ldaImm (RS ||| E)),
  ins (.staAbs (.addr PORTA)),
  ins (.ldaImm RS),
  ins (.staAbs (.addr PORTA)),
  ins .rts]

/-- The section, at its origin. -/
def prog (data : List Byte) : Listing Label := ⟨0x8000, lines data⟩

/-- The data of an `.asciiz`. -/
def asciiz (s : List Byte) : List Byte := s ++ [0]

/-- Data that leaves the program below the reset vector. -/
structure Message where
  data : List Byte
  fits : data.length ≤ 0x7f7b

/-- The listing's own string. -/
def hello : List Byte := "Hello, world!".toList.map fun c => BitVec.ofNat 8 c.toNat

/-- The listing's own data. -/
def helloWorld : Message where
  data := asciiz hello
  fits := by decide

/-- The bytes of the program section. -/
def code (msg : Message) : List Byte := ((prog msg.data).assemble).getD []

/-- The value of a label. -/
def label (msg : Message) (l : Label) : Word := ((prog msg.data).symbol l).getD 0

/-- **The ROM image**: the program section, zeros up to `$fffc`, the reset
vector and an unused one. -/
def image (msg : Message) : List Byte :=
  code msg ++ (List.replicate (0x7ffc - (code msg).length) 0
    ++ [lo (label msg .reset), hi (label msg .reset), 0x00, 0x00])

/-- The ROM, by address. -/
def rom (msg : Message) (w : Word) : Byte := (image msg).getD (w - 0x8000).toNat 0

/-- The board with this ROM in it and an LCD that answers `lcd`. -/
def board (msg : Message) (lcd : ℕ → Byte) : Bus Board := Board.bus (rom msg) lcd

/-! ## The listing assembles -/

section Assembling

variable (data : List Byte)

/-- `beq loop` reaches its label. -/
theorem beq_loop : (prog data).displacement ((prog data).addr 17) .loop = some 7 :=
  Listing.displacement_of (w := (prog data).addr 20) rfl 7 ((prog data).addr_add 17 3)

/-- `bne lcd_busy` reaches its label, which is 17 bytes before the line behind it. -/
theorem bne_lcdBusy : (prog data).displacement ((prog data).addr 32) .lcdBusy = some 0xef := by
  refine Listing.displacement_of (w := (prog data).addr 25) rfl 0xef ?_
  rw [show (prog data).addr 32 = (prog data).addr 25 + 17 from (prog data).addr_add 25 7,
    BitVec.add_assoc]
  exact (BitVec.add_zero _).symm

theorem symbol_message : (prog data).symbol .message = some ((prog data).addr 21) := rfl
theorem symbol_print : (prog data).symbol .print = some ((prog data).addr 15) := rfl
theorem symbol_loop : (prog data).symbol .loop = some ((prog data).addr 20) := rfl
theorem symbol_lcdWait : (prog data).symbol .lcdWait = some ((prog data).addr 22) := rfl
theorem symbol_lcdInstruction :
    (prog data).symbol .lcdInstruction = some ((prog data).addr 38) := rfl
theorem symbol_printChar : (prog data).symbol .printChar = some ((prog data).addr 47) := rfl

/-- **The listing assembles**, whatever the data. -/
theorem assemble_prog : ∃ bs, (prog data).assemble = some bs
    ∧ bs.length = offset (lines data) 56 := by
  refine Listing.emitFrom_of ?_
  show (prog data).Emits 0 (lines data)
  rw [lines]
  simp only [Listing.Emits, Listing.emit, Listing.resolve, Instr.resolve, Listing.operand,
    symbol_message, symbol_print, symbol_loop, symbol_lcdWait, symbol_lcdInstruction,
    symbol_printChar, Nat.reduceAdd, beq_loop, bne_lcdBusy, Option.map_some, Option.isSome_some,
    and_self]

/-- The code in front of the data is 50 bytes long. -/
theorem offset_message : offset (lines data) 21 = 50 := by
  simp only [offset, lines, List.take_succ_cons, List.take_zero, List.map_cons, List.map_nil,
    Item.size, Instr.size, List.sum_cons, List.sum_nil, Nat.reduceAdd]

/-- The code behind the data is 79 bytes long. -/
theorem offset_lines : offset (lines data) 56 = 129 + data.length := by
  have hcode : offset ((lines data).drop 22) 34 = 79 := by
    simp only [offset, lines, List.drop_succ_cons, List.drop_zero, List.take_succ_cons,
      List.take_zero, List.map_cons, List.map_nil, Item.size, Instr.size, List.sum_cons,
      List.sum_nil, Nat.reduceAdd]
  have hdata : offset (lines data) (21 + 1) = 50 + data.length := by
    rw [offset_succ (i := 21) rfl, offset_message]
    rfl
  rw [show 56 = 21 + 1 + 34 from rfl, offset_add, hdata, hcode]
  omega

end Assembling

/-! ## The image in the ROM -/

variable (msg : Message) (lcd : ℕ → Byte)

theorem assemble_code : (prog msg.data).assemble = some (code msg) := by
  obtain ⟨bs, hbs, -⟩ := assemble_prog msg.data
  rw [code, hbs, Option.getD_some]

theorem length_code : (code msg).length = 129 + msg.data.length := by
  obtain ⟨bs, hbs, hlen⟩ := assemble_prog msg.data
  rw [code, hbs, Option.getD_some, hlen, offset_lines]

/-- The program section ends below the reset vector. -/
theorem length_code_le : (code msg).length ≤ 0x7ffc := by
  rw [length_code]
  exact Nat.add_le_add_left msg.fits 129

/-- The byte at an offset of the image is where the ROM has it. -/
theorem rom_apply {k : ℕ} (hk : k < 0x8000) :
    rom msg (0x8000 + BitVec.ofNat 16 k) = (image msg).getD k 0 := by
  rw [rom, BitVec.add_comm, BitVec.add_sub_cancel, BitVec.toNat_ofNat,
    Nat.mod_eq_of_lt (Nat.lt_of_lt_of_le hk (by decide))]

theorem rom_code {k : ℕ} {b : Byte} (hb : (code msg)[k]? = some b) :
    rom msg (0x8000 + BitVec.ofNat 16 k) = b := by
  have hk : k < (code msg).length := (List.getElem?_eq_some_iff.mp hb).1
  rw [rom_apply msg (Nat.lt_of_lt_of_le hk (Nat.le_trans (length_code_le msg) (by decide))),
    List.getD_eq_getElem?_getD, image, List.getElem?_append_left hk, hb, Option.getD_some]

/-- The gap between the program and the reset vector is filled with zeros. -/
theorem rom_gap {k : ℕ} (hk : (code msg).length ≤ k) (hk' : k < 0x7ffc) :
    rom msg (0x8000 + BitVec.ofNat 16 k) = 0 := by
  have hgap : k - (code msg).length < 0x7ffc - (code msg).length := by omega
  rw [rom_apply msg (Nat.lt_trans hk' (by decide)), List.getD_eq_getElem?_getD, image,
    List.getElem?_append_right hk,
    List.getElem?_append_left (by rw [List.length_replicate]; exact hgap),
    List.getElem?_replicate, if_pos hgap, Option.getD_some]

/-- The four bytes at the end. -/
theorem rom_vector {k : ℕ} (hk : k < 4) :
    rom msg (0x8000 + BitVec.ofNat 16 (0x7ffc + k))
      = [lo (label msg .reset), hi (label msg .reset), 0x00, 0x00].getD k 0 := by
  have hle := length_code_le msg
  have hlen : (code msg ++ List.replicate (0x7ffc - (code msg).length) 0).length = 0x7ffc := by
    rw [List.length_append, List.length_replicate, Nat.add_sub_cancel' hle]
  rw [rom_apply msg (by omega), List.getD_eq_getElem?_getD, image, ← List.append_assoc,
    List.getElem?_append_right (by omega), hlen, Nat.add_sub_cancel_left,
    List.getD_eq_getElem?_getD]

/-- **The program section is loaded**: the ROM holds it, whatever happens on the
board. -/
theorem loaded : Loaded (board msg lcd) (prog msg.data).org (code msg) where
  low := by show 0x200 ≤ 0x8000; decide
  high := by
    show 0x8000 + (code msg).length ≤ 0x10000
    exact Nat.le_trans (Nat.add_le_add_left (length_code_le msg) _) (by decide)
  read := by
    intro s k b hb
    have hk : k < (code msg).length := (List.getElem?_eq_some_iff.mp hb).1
    have hle := length_code_le msg
    show (Board.bus (rom msg) lcd).read s (0x8000 + BitVec.ofNat 16 k) = (b, s)
    rw [Board.read_rom, rom_code msg hb]
    rw [BitVec.le_def, BitVec.toNat_add, BitVec.toNat_ofNat]
    show 0x8000 ≤ (0x8000 + k % 2 ^ 16) % 2 ^ 16
    omega

/-! ## The message window

`lda message,x` reaches 256 bytes: the data at `message`, what follows it in the
image, and zeros behind that. -/

/-- The byte `lda message,x` loads. -/
def window (x : Byte) : Byte := rom msg (label msg .message + x.setWidth 16)

/-- Where that byte is. -/
theorem message_addr (x : Byte) : (prog msg.data).addr 21 + x.setWidth 16
    = 0x8000 + BitVec.ofNat 16 (50 + x.toNat) := by
  have hx : (x.setWidth 16 : Word) = BitVec.ofNat 16 x.toNat := (BitVec.ofNat_toNat 16 x).symm
  rw [Listing.addr, prog, offset_message, hx, BitVec.ofNat_add, BitVec.add_assoc]

theorem window_eq (x : Byte) :
    window msg x = rom msg (0x8000 + BitVec.ofNat 16 (50 + x.toNat)) := by
  rw [window, label, symbol_message, Option.getD_some, message_addr]

/-- It is in the ROM. -/
theorem le_message_addr (x : Byte) : 0x8000 ≤ (prog msg.data).addr 21 + x.setWidth 16 := by
  have hlt := x.isLt
  rw [message_addr, BitVec.le_def, BitVec.toNat_add, BitVec.toNat_ofNat]
  show 0x8000 ≤ (0x8000 + (50 + x.toNat) % 2 ^ 16) % 2 ^ 16
  omega

/-- The load of a byte of the message. -/
theorem read_message (s : Board) (x : Byte) :
    (board msg lcd).read s ((prog msg.data).addr 21 + x.setWidth 16) = (window msg x, s) := by
  rw [board, Board.read_rom s (le_message_addr msg x), window, label, symbol_message,
    Option.getD_some]

/-- It is not a load from the stack. -/
theorem hi_message_addr (x : Byte) : hi ((prog msg.data).addr 21 + x.setWidth 16) ≠ 1 := by
  intro h
  have hval := congrArg BitVec.toNat h
  have hle : 0x8000 ≤ ((prog msg.data).addr 21 + x.setWidth 16).toNat := le_message_addr msg x
  rw [toNat_hi] at hval
  change _ = 1 at hval
  omega

/-- Inside the data the window shows the data. -/
theorem window_data {x b : Byte} (hb : msg.data[x.toNat]? = some b) : window msg x = b := by
  obtain ⟨e, pre, post, he, hcode, hpre⟩ :=
    Listing.emitFrom_get (i := 21) (assemble_code msg) rfl
  obtain rfl : msg.data = e := Option.some_inj.mp he
  have hx : x.toNat < msg.data.length := (List.getElem?_eq_some_iff.mp hb).1
  have hpre' : pre.length = 50 := hpre.trans (offset_message msg.data)
  rw [window_eq]
  refine rom_code msg ?_
  rw [hcode, List.getElem?_append_right (by omega), hpre', Nat.add_sub_cancel_left,
    List.getElem?_append_left hx, hb]

/-- Behind the last subroutine the window shows the gap. -/
theorem window_gap {x : Byte} (hx : 79 + msg.data.length ≤ x.toNat) : window msg x = 0 := by
  have hlt := x.isLt
  rw [window_eq]
  exact rom_gap msg (by rw [length_code]; omega) (by omega)

/-! ## Power-on -/

/-- **The board as the processor leaves reset**: the VIA is cleared, the log is
empty, and the program counter comes from the reset vector. The registers, the
flags and all RAM are what they were. -/
def powerOn (m : Machine Board) : Machine Board :=
  Machine.reset (board msg lcd)
    { m with bus := { m.bus with via := .cleared, polls := 0, log := [] }, written := [] }

/-- The reset vector leads to the first line. -/
theorem powerOn_eq (m : Machine Board) :
    powerOn msg lcd m = { m with
      bus := { m.bus with via := .cleared, polls := 0, log := [] }
      written := []
      pc := (prog msg.data).addr 0
      p := { m.p with i := true, d := false } } := by
  have hlo : rom msg 0xfffc = lo (label msg .reset) := rom_vector msg (k := 0) (by decide)
  have hhi : rom msg 0xfffd = hi (label msg .reset) := rom_vector msg (k := 1) (by decide)
  have hread : ∀ (m : Machine Board) (w : Word), 0x8000 ≤ w → hi w ≠ 1 →
      m.read (board msg lcd) w = (rom msg w, m) := by
    intro m w hw hne
    rw [Machine.read, if_neg hne, board, Board.read_rom m.bus hw]
  unfold powerOn Machine.reset
  simp only [hread _ 0xfffc (by decide) (by decide), hread _ 0xfffd (by decide) (by decide)]
  rw [hlo, hhi, word_hi_lo]
  rfl

end Eater
