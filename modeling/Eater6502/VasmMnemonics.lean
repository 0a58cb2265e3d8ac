import Eater6502.Isa

/-!
# The instruction table of the assembler

What `vasm6502` knows of the processors of the family: the addressing modes (`cpu.h`),
how many bytes an operand of each of them takes (`opsize`), and the table of the
mnemonics (`opcodes.h`). A mnemonic has an opcode, and where there are such, an opcode
for the zero page and one for absolute long addresses, which the assembler may choose
instead. The same name may stand in several rows, and the assembler takes the first
whose operands match.
-/

namespace Vasm

/-- The addressing modes. -/
inductive OpType where
  /-- no operand -/
  | implied
  /-- data operand -/
  | dataop
  /-- `$1234` -/
  | abs
  /-- `$1234,X` -/
  | absx
  /-- `$1234,Y` -/
  | absy
  /-- `$1234,Z` -/
  | absz
  /-- `$123456` -/
  | labs
  /-- `$123456,X` -/
  | labsx
  /-- `$12` -/
  | dpage
  /-- `$12,X` -/
  | dpagex
  /-- `$12,Y` -/
  | dpagey
  /-- `$12,Z` -/
  | dpagez
  /-- `$12,S` -/
  | sr
  /-- `($1234)` -/
  | indir
  /-- `($12,X)` -/
  | dpindx
  /-- `($12),Y` -/
  | dpindy
  /-- `($12),Z` -/
  | dpindz
  /-- `($12)` -/
  | dpind
  /-- `($12,S),Y` -/
  | srindy
  /-- `($1234,X)` -/
  | indirx
  /-- `[$1234]` -/
  | lindir
  /-- `[$12],Y` -/
  | ldpindy
  /-- `[$12],Z`, with a prefix -/
  | qdpindz
  /-- `[$12]` -/
  | ldpind
  /-- `[$12]`, with a prefix -/
  | qdpind
  /-- a branch on the opposite condition, over a jump -/
  | reljmp
  /-- an 8-bit relative branch -/
  | rel8
  /-- a 16-bit relative branch -/
  | rel16
  /-- `#$12`, or `#$1234` if the accumulator has 16 bits -/
  | immed
  /-- `#$12`, or `#$1234` if the index registers have 16 bits -/
  | immedx
  /-- `#$12` -/
  | immed8
  /-- `#$1234` -/
  | immed16
  /-- a bit number -/
  | wbit
  /-- a bank of a block move -/
  | mvbank
  /-- the accumulator -/
  | accu
  deriving Repr, DecidableEq

namespace OpType

/-- The bytes an operand takes. -/
def opsize : OpType → ℕ
  | implied | dataop => 0
  | abs | absx | absy | absz => 2
  | labs | labsx => 3
  | dpage | dpagex | dpagey | dpagez | sr => 1
  | indir => 2
  | dpindx | dpindy | dpindz | dpind | srindy => 1
  | indirx | lindir => 2
  | ldpindy => 1
  | qdpindz => 2
  | ldpind => 1
  | qdpind => 2
  | reljmp => 4
  | rel8 => 1
  | rel16 => 2
  | immed | immedx => 0
  | immed8 => 1
  | immed16 => 2
  | wbit => 0
  | mvbank => 1
  | accu => 0

/-- The absolute modes, which may become zero page or long ones. -/
def isAbs : OpType → Bool
  | abs | absx | absy | absz => true
  | _ => false

/-- The zero-page mode of an absolute one. -/
def toDpage : OpType → OpType
  | abs => dpage
  | absx => dpagex
  | absy => dpagey
  | absz => dpagez
  | t => t

/-- The long mode of an absolute one. There are two of them, and behind them in the
enumeration come two of the zero page. -/
def toLabs : OpType → OpType
  | abs => labs
  | absx => labsx
  | absy => dpage
  | absz => dpagex
  | t => t

end OpType

/-- What a processor can do, a bit for each extension. -/
abbrev Cpu := BitVec 16

/-- standard 6502 instruction set -/
def M6502 : Cpu := 0x0001
/-- illegal 6502 instructions -/
def ILL : Cpu := 0x0002
/-- C64 DTV instruction set extension -/
def DTV : Cpu := 0x0004
/-- basic 65C02 extensions on 6502 instruction set -/
def M65C02 : Cpu := 0x0008
/-- basic WDC65C02 extensions on 65C02 instruction set -/
def WDC02 : Cpu := 0x0010
/-- all WDC65C02 extensions on 65C02 instruction set -/
def WDC02ALL : Cpu := 0x0020
/-- CSG65CE02 extensions on WDC65C02 instruction set -/
def CSGCE02 : Cpu := 0x0040
/-- HuC6280 extensions on WDC65C02 instruction set -/
def HU6280 : Cpu := 0x0080
/-- MEGA65 45GS02, extends WDC02 instruction set -/
def M45GS02 : Cpu := 0x0100
/-- MEGA65 quad instructions -/
def M45GS02Q : Cpu := 0x0200
/-- WDC65816/65802 extensions on WDC65C02 instruction set -/
def WDC65816 : Cpu := 0x0400

/-- A row of the table. -/
structure Mnemonic where
  name : String
  /-- The modes of its operands, at most three. -/
  operandType : List OpType
  opcode : Byte
  /-- Not zero if there is a form for the zero page. -/
  zpOpcode : Byte
  /-- Not zero if there is a form for long addresses. -/
  alOpcode : Byte
  available : Cpu
  deriving Repr, DecidableEq

/-- A row is there for one of the extensions of a processor. -/
def Mnemonic.availableOn (m : Mnemonic) (cpu : Cpu) : Bool := m.available &&& cpu != 0

/-- **The table of the mnemonics.** -/
def mnemonics : List Mnemonic := [
  ⟨"adc", [.immed], 0x69, 0x00, 0x00, M6502⟩,
  ⟨"adc", [.abs], 0x6d, 0x65, 0x6f, M6502⟩,
  ⟨"adc", [.sr], 0x63, 0x00, 0x00, WDC65816⟩,
  ⟨"adc", [.srindy], 0x73, 0x00, 0x00, WDC65816⟩,
  ⟨"adc", [.dpindx], 0x61, 0x00, 0x00, M6502⟩,
  ⟨"adc", [.dpindy], 0x71, 0x00, 0x00, M6502⟩,
  ⟨"adc", [.dpindz], 0x72, 0x00, 0x00, CSGCE02⟩,
  ⟨"adc", [.dpind], 0x72, 0x00, 0x00, M65C02⟩,
  ⟨"adc", [.absx], 0x7d, 0x75, 0x7f, M6502⟩,
  ⟨"adc", [.absy], 0x79, 0x00, 0x00, M6502⟩,
  ⟨"adc", [.qdpindz], 0x72, 0x00, 0x00, M45GS02⟩,
  ⟨"adc", [.ldpindy], 0x77, 0x00, 0x00, WDC65816⟩,
  ⟨"adc", [.ldpind], 0x67, 0x00, 0x00, WDC65816⟩,
  ⟨"adcq", [.abs], 0x6d, 0x65, 0x00, M45GS02Q⟩,
  ⟨"adcq", [.dpind], 0x72, 0x00, 0x00, M45GS02Q⟩,
  ⟨"adcq", [.qdpind], 0x72, 0x00, 0x00, M45GS02Q⟩,
  ⟨"ahx", [.dpindy], 0x93, 0x00, 0x00, ILL⟩,
  ⟨"ahx", [.absy], 0x9f, 0x00, 0x00, ILL⟩,
  ⟨"alr", [.immed], 0x4b, 0x00, 0x00, ILL⟩,
  ⟨"anc", [.immed], 0x0b, 0x00, 0x00, ILL⟩,
  ⟨"anc2", [.immed], 0x2b, 0x00, 0x00, ILL⟩,
  ⟨"and", [.immed], 0x29, 0x00, 0x00, M6502⟩,
  ⟨"and", [.abs], 0x2d, 0x25, 0x2f, M6502⟩,
  ⟨"and", [.sr], 0x23, 0x00, 0x00, WDC65816⟩,
  ⟨"and", [.srindy], 0x33, 0x00, 0x00, WDC65816⟩,
  ⟨"and", [.dpindx], 0x21, 0x00, 0x00, M6502⟩,
  ⟨"and", [.dpindy], 0x31, 0x00, 0x00, M6502⟩,
  ⟨"and", [.dpindz], 0x32, 0x00, 0x00, CSGCE02⟩,
  ⟨"and", [.dpind], 0x32, 0x00, 0x00, M65C02⟩,
  ⟨"and", [.absx], 0x3d, 0x35, 0x3f, M6502⟩,
  ⟨"and", [.absy], 0x39, 0x00, 0x00, M6502⟩,
  ⟨"and", [.qdpindz], 0x32, 0x00, 0x00, M45GS02⟩,
  ⟨"and", [.ldpindy], 0x37, 0x00, 0x00, WDC65816⟩,
  ⟨"and", [.ldpind], 0x27, 0x00, 0x00, WDC65816⟩,
  ⟨"andq", [.abs], 0x2d, 0x25, 0x00, M45GS02Q⟩,
  ⟨"andq", [.dpind], 0x32, 0x00, 0x00, M45GS02Q⟩,
  ⟨"andq", [.qdpind], 0x32, 0x00, 0x00, M45GS02Q⟩,
  ⟨"arr", [.immed], 0x6b, 0x00, 0x00, ILL⟩,
  ⟨"asl", [.accu], 0x0a, 0x00, 0x00, M6502⟩,
  ⟨"asl", [.abs], 0x0e, 0x06, 0x00, M6502⟩,
  ⟨"asl", [.absx], 0x1e, 0x16, 0x00, M6502⟩,
  ⟨"asl", [], 0x0a, 0x00, 0x00, M6502⟩,
  ⟨"aslq", [.abs], 0x0e, 0x06, 0x00, M45GS02Q⟩,
  ⟨"aslq", [.absx], 0x1e, 0x16, 0x00, M45GS02Q⟩,
  ⟨"aslq", [], 0x0a, 0x00, 0x00, M45GS02Q⟩,
  ⟨"aso", [.abs], 0x0f, 0x07, 0x00, ILL⟩,
  ⟨"aso", [.dpindx], 0x03, 0x00, 0x00, ILL⟩,
  ⟨"aso", [.dpindy], 0x13, 0x00, 0x00, ILL⟩,
  ⟨"aso", [.absx], 0x1f, 0x17, 0x00, ILL⟩,
  ⟨"aso", [.absy], 0x1b, 0x00, 0x00, ILL⟩,
  ⟨"asr", [.accu], 0x43, 0x00, 0x00, CSGCE02⟩,
  ⟨"asr", [.abs], 0x00, 0x44, 0x00, CSGCE02⟩,
  ⟨"asr", [.absx], 0x00, 0x54, 0x00, CSGCE02⟩,
  ⟨"asr", [], 0x43, 0x00, 0x00, CSGCE02⟩,
  ⟨"asrq", [.abs], 0x00, 0x44, 0x00, M45GS02Q⟩,
  ⟨"asrq", [.absx], 0x00, 0x54, 0x00, M45GS02Q⟩,
  ⟨"asrq", [], 0x43, 0x00, 0x00, M45GS02Q⟩,
  ⟨"asw", [.abs], 0xcb, 0x00, 0x00, CSGCE02⟩,
  ⟨"axa", [.dpindy], 0x93, 0x00, 0x00, ILL⟩,
  ⟨"axa", [.absy], 0x9f, 0x00, 0x00, ILL⟩,
  ⟨"axs", [.immed], 0xcb, 0x00, 0x00, ILL⟩,
  ⟨"axs", [.abs], 0x8f, 0x87, 0x00, ILL⟩,
  ⟨"axs", [.dpindx], 0x83, 0x00, 0x00, ILL⟩,
  ⟨"axs", [.absy], 0x00, 0x97, 0x00, ILL⟩,
  ⟨"bbr", [.wbit, .dpage, .rel8], 0x00, 0x0f, 0x00, WDC02⟩,
  ⟨"bbr0", [.dpage, .rel8], 0x00, 0x0f, 0x00, WDC02⟩,
  ⟨"bbr1", [.dpage, .rel8], 0x00, 0x1f, 0x00, WDC02⟩,
  ⟨"bbr2", [.dpage, .rel8], 0x00, 0x2f, 0x00, WDC02⟩,
  ⟨"bbr3", [.dpage, .rel8], 0x00, 0x3f, 0x00, WDC02⟩,
  ⟨"bbr4", [.dpage, .rel8], 0x00, 0x4f, 0x00, WDC02⟩,
  ⟨"bbr5", [.dpage, .rel8], 0x00, 0x5f, 0x00, WDC02⟩,
  ⟨"bbr6", [.dpage, .rel8], 0x00, 0x6f, 0x00, WDC02⟩,
  ⟨"bbr7", [.dpage, .rel8], 0x00, 0x7f, 0x00, WDC02⟩,
  ⟨"bbs", [.wbit, .dpage, .rel8], 0x00, 0x8f, 0x00, WDC02⟩,
  ⟨"bbs0", [.dpage, .rel8], 0x00, 0x8f, 0x00, WDC02⟩,
  ⟨"bbs1", [.dpage, .rel8], 0x00, 0x9f, 0x00, WDC02⟩,
  ⟨"bbs2", [.dpage, .rel8], 0x00, 0xaf, 0x00, WDC02⟩,
  ⟨"bbs3", [.dpage, .rel8], 0x00, 0xbf, 0x00, WDC02⟩,
  ⟨"bbs4", [.dpage, .rel8], 0x00, 0xcf, 0x00, WDC02⟩,
  ⟨"bbs5", [.dpage, .rel8], 0x00, 0xdf, 0x00, WDC02⟩,
  ⟨"bbs6", [.dpage, .rel8], 0x00, 0xef, 0x00, WDC02⟩,
  ⟨"bbs7", [.dpage, .rel8], 0x00, 0xff, 0x00, WDC02⟩,
  ⟨"bcc", [.rel8], 0x90, 0x00, 0x00, M6502⟩,
  ⟨"bcs", [.rel8], 0xb0, 0x00, 0x00, M6502⟩,
  ⟨"beq", [.rel8], 0xf0, 0x00, 0x00, M6502⟩,
  ⟨"bit", [.immed], 0x89, 0x00, 0x00, M65C02⟩,
  ⟨"bit", [.abs], 0x2c, 0x24, 0x00, M6502⟩,
  ⟨"bit", [.absx], 0x3c, 0x34, 0x00, M65C02⟩,
  ⟨"bitq", [.abs], 0x2c, 0x24, 0x00, M45GS02Q⟩,
  ⟨"blt", [.rel8], 0x90, 0x00, 0x00, M6502⟩,
  ⟨"bge", [.rel8], 0xb0, 0x00, 0x00, M6502⟩,
  ⟨"bmi", [.rel8], 0x30, 0x00, 0x00, M6502⟩,
  ⟨"bne", [.rel8], 0xd0, 0x00, 0x00, M6502⟩,
  ⟨"bpl", [.rel8], 0x10, 0x00, 0x00, M6502⟩,
  ⟨"bra", [.rel8], 0x12, 0x00, 0x00, DTV⟩,
  ⟨"bra", [.rel8], 0x80, 0x00, 0x00, M65C02⟩,
  ⟨"brk", [.immed8], 0x00, 0x00, 0x00, M6502⟩,
  ⟨"brk", [], 0x00, 0x00, 0x00, M6502⟩,
  ⟨"brl", [.rel16], 0x82, 0x00, 0x00, WDC65816⟩,
  ⟨"bsr", [.rel8], 0x44, 0x00, 0x00, HU6280⟩,
  ⟨"bvc", [.rel8], 0x50, 0x00, 0x00, M6502⟩,
  ⟨"bvs", [.rel8], 0x70, 0x00, 0x00, M6502⟩,
  ⟨"cla", [], 0x62, 0x00, 0x00, HU6280⟩,
  ⟨"clc", [], 0x18, 0x00, 0x00, M6502⟩,
  ⟨"cld", [], 0xd8, 0x00, 0x00, M6502⟩,
  ⟨"cle", [], 0x02, 0x00, 0x00, CSGCE02⟩,
  ⟨"cli", [], 0x58, 0x00, 0x00, M6502⟩,
  ⟨"clv", [], 0xb8, 0x00, 0x00, M6502⟩,
  ⟨"clx", [], 0x82, 0x00, 0x00, HU6280⟩,
  ⟨"cly", [], 0xc2, 0x00, 0x00, HU6280⟩,
  ⟨"cmp", [.immed], 0xc9, 0x00, 0x00, M6502⟩,
  ⟨"cmp", [.abs], 0xcd, 0xc5, 0xcf, M6502⟩,
  ⟨"cmp", [.sr], 0xc3, 0x00, 0x00, WDC65816⟩,
  ⟨"cmp", [.srindy], 0xd3, 0x00, 0x00, WDC65816⟩,
  ⟨"cmp", [.dpindx], 0xc1, 0x00, 0x00, M6502⟩,
  ⟨"cmp", [.dpindy], 0xd1, 0x00, 0x00, M6502⟩,
  ⟨"cmp", [.dpindz], 0xd2, 0x00, 0x00, CSGCE02⟩,
  ⟨"cmp", [.dpind], 0xd2, 0x00, 0x00, M65C02⟩,
  ⟨"cmp", [.absx], 0xdd, 0xd5, 0xdf, M6502⟩,
  ⟨"cmp", [.absy], 0xd9, 0x00, 0x00, M6502⟩,
  ⟨"cmp", [.qdpindz], 0xd2, 0x00, 0x00, M45GS02⟩,
  ⟨"cmp", [.ldpindy], 0xd7, 0x00, 0x00, WDC65816⟩,
  ⟨"cmp", [.ldpind], 0xc7, 0x00, 0x00, WDC65816⟩,
  ⟨"cpa", [.immed], 0xc9, 0x00, 0x00, WDC65816⟩,
  ⟨"cpa", [.abs], 0xcd, 0xc5, 0xcf, WDC65816⟩,
  ⟨"cpa", [.sr], 0xc3, 0x00, 0x00, WDC65816⟩,
  ⟨"cpa", [.srindy], 0xd3, 0x00, 0x00, WDC65816⟩,
  ⟨"cpa", [.dpindx], 0xc1, 0x00, 0x00, WDC65816⟩,
  ⟨"cpa", [.dpindy], 0xd1, 0x00, 0x00, WDC65816⟩,
  ⟨"cpa", [.dpind], 0xd2, 0x00, 0x00, WDC65816⟩,
  ⟨"cpa", [.absx], 0xdd, 0xd5, 0xdf, WDC65816⟩,
  ⟨"cpa", [.absy], 0xd9, 0x00, 0x00, WDC65816⟩,
  ⟨"cpa", [.ldpindy], 0xd7, 0x00, 0x00, WDC65816⟩,
  ⟨"cpa", [.ldpind], 0xc7, 0x00, 0x00, WDC65816⟩,
  ⟨"cop", [.immed8], 0x02, 0x00, 0x00, WDC65816⟩,
  ⟨"cpq", [.abs], 0xcd, 0xc5, 0x00, M45GS02Q⟩,
  ⟨"cpq", [.dpind], 0xd2, 0x00, 0x00, M45GS02Q⟩,
  ⟨"cpq", [.qdpind], 0xd2, 0x00, 0x00, M45GS02Q⟩,
  ⟨"cpx", [.immedx], 0xe0, 0x00, 0x00, M6502⟩,
  ⟨"cpx", [.abs], 0xec, 0xe4, 0x00, M6502⟩,
  ⟨"cpy", [.immedx], 0xc0, 0x00, 0x00, M6502⟩,
  ⟨"cpy", [.abs], 0xcc, 0xc4, 0x00, M6502⟩,
  ⟨"cpz", [.immed], 0xc2, 0x00, 0x00, CSGCE02⟩,
  ⟨"cpz", [.abs], 0xdc, 0xd4, 0x00, CSGCE02⟩,
  ⟨"csh", [], 0xd4, 0x00, 0x00, HU6280⟩,
  ⟨"csl", [], 0x54, 0x00, 0x00, HU6280⟩,
  ⟨"dcm", [.abs], 0xcf, 0xc7, 0x00, ILL⟩,
  ⟨"dcm", [.dpindx], 0xc3, 0x00, 0x00, ILL⟩,
  ⟨"dcm", [.dpindy], 0xd3, 0x00, 0x00, ILL⟩,
  ⟨"dcm", [.absx], 0xdf, 0xd7, 0x00, ILL⟩,
  ⟨"dcm", [.absy], 0xdb, 0x00, 0x00, ILL⟩,
  ⟨"dcp", [.abs], 0xcf, 0xc7, 0x00, ILL⟩,
  ⟨"dcp", [.dpindx], 0xc3, 0x00, 0x00, ILL⟩,
  ⟨"dcp", [.dpindy], 0xd3, 0x00, 0x00, ILL⟩,
  ⟨"dcp", [.absx], 0xdf, 0xd7, 0x00, ILL⟩,
  ⟨"dcp", [.absy], 0xdb, 0x00, 0x00, ILL⟩,
  ⟨"dea", [], 0x3a, 0x00, 0x00, M65C02⟩,
  ⟨"dec", [.accu], 0x3a, 0x00, 0x00, M65C02⟩,
  ⟨"dec", [.abs], 0xce, 0xc6, 0x00, M6502⟩,
  ⟨"dec", [.absx], 0xde, 0xd6, 0x00, M6502⟩,
  ⟨"dec", [], 0x3a, 0x00, 0x00, M65C02⟩,
  ⟨"deq", [.abs], 0xce, 0xc6, 0x00, M45GS02Q⟩,
  ⟨"deq", [.absx], 0xde, 0xd6, 0x00, M45GS02Q⟩,
  ⟨"deq", [], 0x3a, 0x00, 0x00, M45GS02Q⟩,
  ⟨"dew", [.dpage], 0x00, 0xc3, 0x00, CSGCE02⟩,
  ⟨"dex", [], 0xca, 0x00, 0x00, M6502⟩,
  ⟨"dey", [], 0x88, 0x00, 0x00, M6502⟩,
  ⟨"dez", [], 0x3b, 0x00, 0x00, CSGCE02⟩,
  ⟨"eom", [], 0xea, 0x00, 0x00, M45GS02⟩,
  ⟨"eor", [.immed], 0x49, 0x00, 0x00, M6502⟩,
  ⟨"eor", [.abs], 0x4d, 0x45, 0x4f, M6502⟩,
  ⟨"eor", [.sr], 0x43, 0x00, 0x00, WDC65816⟩,
  ⟨"eor", [.srindy], 0x53, 0x00, 0x00, WDC65816⟩,
  ⟨"eor", [.dpindx], 0x41, 0x00, 0x00, M6502⟩,
  ⟨"eor", [.dpindy], 0x51, 0x00, 0x00, M6502⟩,
  ⟨"eor", [.dpindz], 0x52, 0x00, 0x00, CSGCE02⟩,
  ⟨"eor", [.dpind], 0x52, 0x00, 0x00, M65C02⟩,
  ⟨"eor", [.absx], 0x5d, 0x55, 0x5f, M6502⟩,
  ⟨"eor", [.absy], 0x59, 0x00, 0x00, M6502⟩,
  ⟨"eor", [.qdpindz], 0x52, 0x00, 0x00, M45GS02⟩,
  ⟨"eor", [.ldpindy], 0x57, 0x00, 0x00, WDC65816⟩,
  ⟨"eor", [.ldpind], 0x47, 0x00, 0x00, WDC65816⟩,
  ⟨"eorq", [.abs], 0x4d, 0x45, 0x00, M45GS02Q⟩,
  ⟨"eorq", [.dpind], 0x52, 0x00, 0x00, M45GS02Q⟩,
  ⟨"eorq", [.qdpind], 0x52, 0x00, 0x00, M45GS02Q⟩,
  ⟨"ina", [], 0x1a, 0x00, 0x00, M65C02⟩,
  ⟨"inc", [.accu], 0x1a, 0x00, 0x00, M65C02⟩,
  ⟨"inc", [.abs], 0xee, 0xe6, 0x00, M6502⟩,
  ⟨"inc", [.absx], 0xfe, 0xf6, 0x00, M6502⟩,
  ⟨"inc", [], 0x1a, 0x00, 0x00, M65C02⟩,
  ⟨"inq", [.abs], 0xee, 0xe6, 0x00, M45GS02Q⟩,
  ⟨"inq", [.absx], 0xfe, 0xf6, 0x00, M45GS02Q⟩,
  ⟨"inq", [], 0x1a, 0x00, 0x00, M45GS02Q⟩,
  ⟨"ins", [.abs], 0xef, 0xe7, 0x00, ILL⟩,
  ⟨"ins", [.dpindx], 0xe3, 0x00, 0x00, ILL⟩,
  ⟨"ins", [.dpindy], 0xf3, 0x00, 0x00, ILL⟩,
  ⟨"ins", [.absx], 0xff, 0xf7, 0x00, ILL⟩,
  ⟨"ins", [.absy], 0xfb, 0x00, 0x00, ILL⟩,
  ⟨"inw", [.abs], 0x00, 0xe3, 0x00, CSGCE02⟩,
  ⟨"inx", [], 0xe8, 0x00, 0x00, M6502⟩,
  ⟨"iny", [], 0xc8, 0x00, 0x00, M6502⟩,
  ⟨"inz", [], 0x1b, 0x00, 0x00, CSGCE02⟩,
  ⟨"isc", [.abs], 0xef, 0xe7, 0x00, ILL⟩,
  ⟨"isc", [.dpindx], 0xe3, 0x00, 0x00, ILL⟩,
  ⟨"isc", [.dpindy], 0xf3, 0x00, 0x00, ILL⟩,
  ⟨"isc", [.absx], 0xff, 0xf7, 0x00, ILL⟩,
  ⟨"isc", [.absy], 0xfb, 0x00, 0x00, ILL⟩,
  ⟨"jml", [.labs], 0x00, 0x00, 0x5c, WDC65816⟩,
  ⟨"jml", [.lindir], 0xdc, 0x00, 0x00, WDC65816⟩,
  ⟨"jmp", [.abs], 0x4c, 0x00, 0x5c, M6502⟩,
  ⟨"jmp", [.indirx], 0x7c, 0x00, 0x00, M65C02⟩,
  ⟨"jmp", [.indir], 0x6c, 0x00, 0x00, M6502⟩,
  ⟨"jmp", [.lindir], 0xdc, 0x00, 0x00, WDC65816⟩,
  ⟨"jsl", [.labs], 0x00, 0x00, 0x22, WDC65816⟩,
  ⟨"jsr", [.abs], 0x20, 0x00, 0x22, M6502⟩,
  ⟨"jsr", [.indirx], 0xfc, 0x00, 0x00, WDC65816⟩,
  ⟨"las", [.absy], 0xbb, 0x00, 0x00, ILL⟩,
  ⟨"lax", [.immed], 0xab, 0x00, 0x00, ILL⟩,
  ⟨"lax", [.abs], 0xaf, 0xa7, 0x00, ILL⟩,
  ⟨"lax", [.absy], 0xbf, 0xb7, 0x00, ILL⟩,
  ⟨"lax", [.dpindx], 0xa3, 0x00, 0x00, ILL⟩,
  ⟨"lax", [.dpindy], 0xb3, 0x00, 0x00, ILL⟩,
  ⟨"lda", [.immed], 0xa9, 0x00, 0x00, M6502⟩,
  ⟨"lda", [.abs], 0xad, 0xa5, 0xaf, M6502⟩,
  ⟨"lda", [.sr], 0xa3, 0x00, 0x00, WDC65816⟩,
  ⟨"lda", [.srindy], 0xb3, 0x00, 0x00, WDC65816⟩,
  ⟨"lda", [.dpindx], 0xa1, 0x00, 0x00, M6502⟩,
  ⟨"lda", [.dpindy], 0xb1, 0x00, 0x00, M6502⟩,
  ⟨"lda", [.dpindz], 0xb2, 0x00, 0x00, CSGCE02⟩,
  ⟨"lda", [.dpind], 0xb2, 0x00, 0x00, M65C02⟩,
  ⟨"lda", [.absx], 0xbd, 0xb5, 0xbf, M6502⟩,
  ⟨"lda", [.absy], 0xb9, 0x00, 0x00, M6502⟩,
  ⟨"lda", [.qdpindz], 0xb2, 0x00, 0x00, M45GS02⟩,
  ⟨"lda", [.ldpindy], 0xb7, 0x00, 0x00, WDC65816⟩,
  ⟨"lda", [.ldpind], 0xa7, 0x00, 0x00, WDC65816⟩,
  ⟨"ldq", [.abs], 0xad, 0xa5, 0x00, M45GS02Q⟩,
  ⟨"ldq", [.dpindz], 0xb2, 0x00, 0x00, M45GS02Q⟩,
  ⟨"ldq", [.qdpindz], 0xb2, 0x00, 0x00, M45GS02Q⟩,
  ⟨"ldx", [.immedx], 0xa2, 0x00, 0x00, M6502⟩,
  ⟨"ldx", [.abs], 0xae, 0xa6, 0x00, M6502⟩,
  ⟨"ldx", [.absy], 0xbe, 0xb6, 0x00, M6502⟩,
  ⟨"ldy", [.immedx], 0xa0, 0x00, 0x00, M6502⟩,
  ⟨"ldy", [.abs], 0xac, 0xa4, 0x00, M6502⟩,
  ⟨"ldy", [.absx], 0xbc, 0xb4, 0x00, M6502⟩,
  ⟨"ldz", [.immed], 0xa3, 0x00, 0x00, CSGCE02⟩,
  ⟨"ldz", [.abs], 0xab, 0x00, 0x00, CSGCE02⟩,
  ⟨"ldz", [.absx], 0xbb, 0x00, 0x00, CSGCE02⟩,
  ⟨"lse", [.abs], 0x4f, 0x47, 0x00, ILL⟩,
  ⟨"lse", [.dpindx], 0x43, 0x00, 0x00, ILL⟩,
  ⟨"lse", [.dpindy], 0x53, 0x00, 0x00, ILL⟩,
  ⟨"lse", [.absx], 0x5f, 0x57, 0x00, ILL⟩,
  ⟨"lse", [.absy], 0x5b, 0x00, 0x00, ILL⟩,
  ⟨"lsr", [.accu], 0x4a, 0x00, 0x00, M6502⟩,
  ⟨"lsr", [.abs], 0x4e, 0x46, 0x00, M6502⟩,
  ⟨"lsr", [.absx], 0x5e, 0x56, 0x00, M6502⟩,
  ⟨"lsr", [], 0x4a, 0x00, 0x00, M6502⟩,
  ⟨"lsrq", [.abs], 0x4e, 0x46, 0x00, M45GS02Q⟩,
  ⟨"lsrq", [.absx], 0x5e, 0x56, 0x00, M45GS02Q⟩,
  ⟨"lsrq", [], 0x4a, 0x00, 0x00, M45GS02Q⟩,
  ⟨"map", [], 0x5c, 0x00, 0x00, CSGCE02⟩,
  ⟨"mvn", [.immed8, .immed8], 0x54, 0x00, 0x00, WDC65816⟩,
  ⟨"mvn", [.mvbank, .mvbank], 0x54, 0x00, 0x00, WDC65816⟩,
  ⟨"mvp", [.immed8, .immed8], 0x44, 0x00, 0x00, WDC65816⟩,
  ⟨"mvp", [.mvbank, .mvbank], 0x44, 0x00, 0x00, WDC65816⟩,
  ⟨"neg", [.accu], 0x42, 0x00, 0x00, CSGCE02⟩,
  ⟨"neg", [], 0x42, 0x00, 0x00, CSGCE02⟩,
  ⟨"nop", [], 0xea, 0x00, 0x00, M6502⟩,
  ⟨"oal", [.immed], 0xab, 0x00, 0x00, ILL⟩,
  ⟨"ora", [.immed], 0x09, 0x00, 0x00, M6502⟩,
  ⟨"ora", [.abs], 0x0d, 0x05, 0x0f, M6502⟩,
  ⟨"ora", [.sr], 0x03, 0x00, 0x00, WDC65816⟩,
  ⟨"ora", [.srindy], 0x13, 0x00, 0x00, WDC65816⟩,
  ⟨"ora", [.dpindx], 0x01, 0x00, 0x00, M6502⟩,
  ⟨"ora", [.dpindy], 0x11, 0x00, 0x00, M6502⟩,
  ⟨"ora", [.dpindz], 0x12, 0x00, 0x00, CSGCE02⟩,
  ⟨"ora", [.dpind], 0x12, 0x00, 0x00, M65C02⟩,
  ⟨"ora", [.absx], 0x1d, 0x15, 0x1f, M6502⟩,
  ⟨"ora", [.absy], 0x19, 0x00, 0x00, M6502⟩,
  ⟨"ora", [.qdpindz], 0x12, 0x00, 0x00, M45GS02⟩,
  ⟨"ora", [.ldpindy], 0x17, 0x00, 0x00, WDC65816⟩,
  ⟨"ora", [.ldpind], 0x07, 0x00, 0x00, WDC65816⟩,
  ⟨"orq", [.abs], 0x0d, 0x05, 0x00, M45GS02Q⟩,
  ⟨"orq", [.dpind], 0x12, 0x00, 0x00, M45GS02Q⟩,
  ⟨"orq", [.qdpind], 0x12, 0x00, 0x00, M45GS02Q⟩,
  ⟨"pea", [.immed16], 0xf4, 0x00, 0x00, WDC65816⟩,
  ⟨"pea", [.abs], 0xf4, 0x00, 0x00, WDC65816⟩,
  ⟨"pei", [.dpind], 0xd4, 0x00, 0x00, WDC65816⟩,
  ⟨"per", [.rel16], 0x62, 0x00, 0x00, WDC65816⟩,
  ⟨"pha", [], 0x48, 0x00, 0x00, M6502⟩,
  ⟨"phb", [], 0x8b, 0x00, 0x00, WDC65816⟩,
  ⟨"phd", [], 0x0b, 0x00, 0x00, WDC65816⟩,
  ⟨"phk", [], 0x4b, 0x00, 0x00, WDC65816⟩,
  ⟨"php", [], 0x08, 0x00, 0x00, M6502⟩,
  ⟨"phw", [.immed16], 0xf4, 0x00, 0x00, CSGCE02⟩,
  ⟨"phw", [.abs], 0xfc, 0x00, 0x00, CSGCE02⟩,
  ⟨"phx", [], 0xda, 0x00, 0x00, M65C02⟩,
  ⟨"phy", [], 0x5a, 0x00, 0x00, M65C02⟩,
  ⟨"phz", [], 0xdb, 0x00, 0x00, CSGCE02⟩,
  ⟨"pla", [], 0x68, 0x00, 0x00, M6502⟩,
  ⟨"plb", [], 0xab, 0x00, 0x00, WDC65816⟩,
  ⟨"pld", [], 0x2b, 0x00, 0x00, WDC65816⟩,
  ⟨"plp", [], 0x28, 0x00, 0x00, M6502⟩,
  ⟨"plx", [], 0xfa, 0x00, 0x00, M65C02⟩,
  ⟨"ply", [], 0x7a, 0x00, 0x00, M65C02⟩,
  ⟨"plz", [], 0xfb, 0x00, 0x00, CSGCE02⟩,
  ⟨"rep", [.immed8], 0xc2, 0x00, 0x00, WDC65816⟩,
  ⟨"rla", [.abs], 0x2f, 0x27, 0x00, ILL⟩,
  ⟨"rla", [.dpindx], 0x23, 0x00, 0x00, ILL⟩,
  ⟨"rla", [.dpindy], 0x33, 0x00, 0x00, ILL⟩,
  ⟨"rla", [.absx], 0x3f, 0x37, 0x00, ILL⟩,
  ⟨"rla", [.absy], 0x3b, 0x00, 0x00, ILL⟩,
  ⟨"rmb", [.wbit, .dpage], 0x00, 0x07, 0x00, WDC02⟩,
  ⟨"rmb0", [.dpage], 0x00, 0x07, 0x00, WDC02⟩,
  ⟨"rmb1", [.dpage], 0x00, 0x17, 0x00, WDC02⟩,
  ⟨"rmb2", [.dpage], 0x00, 0x27, 0x00, WDC02⟩,
  ⟨"rmb3", [.dpage], 0x00, 0x37, 0x00, WDC02⟩,
  ⟨"rmb4", [.dpage], 0x00, 0x47, 0x00, WDC02⟩,
  ⟨"rmb5", [.dpage], 0x00, 0x57, 0x00, WDC02⟩,
  ⟨"rmb6", [.dpage], 0x00, 0x67, 0x00, WDC02⟩,
  ⟨"rmb7", [.dpage], 0x00, 0x77, 0x00, WDC02⟩,
  ⟨"rol", [.accu], 0x2a, 0x00, 0x00, M6502⟩,
  ⟨"rol", [.abs], 0x2e, 0x26, 0x00, M6502⟩,
  ⟨"rol", [.absx], 0x3e, 0x36, 0x00, M6502⟩,
  ⟨"rol", [], 0x2a, 0x00, 0x00, M6502⟩,
  ⟨"rolq", [.abs], 0x2e, 0x26, 0x00, M45GS02Q⟩,
  ⟨"rolq", [.absx], 0x3e, 0x36, 0x00, M45GS02Q⟩,
  ⟨"rolq", [], 0x2a, 0x00, 0x00, M45GS02Q⟩,
  ⟨"ror", [.accu], 0x6a, 0x00, 0x00, M6502⟩,
  ⟨"ror", [.abs], 0x6e, 0x66, 0x00, M6502⟩,
  ⟨"ror", [.absx], 0x7e, 0x76, 0x00, M6502⟩,
  ⟨"ror", [], 0x6a, 0x00, 0x00, M6502⟩,
  ⟨"rorq", [.abs], 0x6e, 0x66, 0x00, M45GS02Q⟩,
  ⟨"rorq", [.absx], 0x7e, 0x76, 0x00, M45GS02Q⟩,
  ⟨"rorq", [], 0x6a, 0x00, 0x00, M45GS02Q⟩,
  ⟨"row", [.abs], 0xeb, 0x00, 0x00, CSGCE02⟩,
  ⟨"rra", [.abs], 0x6f, 0x67, 0x00, ILL⟩,
  ⟨"rra", [.dpindx], 0x63, 0x00, 0x00, ILL⟩,
  ⟨"rra", [.dpindy], 0x73, 0x00, 0x00, ILL⟩,
  ⟨"rra", [.absx], 0x7f, 0x77, 0x00, ILL⟩,
  ⟨"rra", [.absy], 0x7b, 0x00, 0x00, ILL⟩,
  ⟨"rti", [], 0x40, 0x00, 0x00, M6502⟩,
  ⟨"rtl", [], 0x6b, 0x00, 0x00, WDC65816⟩,
  ⟨"rts", [.immed], 0x62, 0x60, 0x00, CSGCE02⟩,
  ⟨"rts", [], 0x60, 0x00, 0x00, M6502⟩,
  ⟨"sac", [.immed], 0x32, 0x00, 0x00, DTV⟩,
  ⟨"sax", [.immed], 0xcb, 0x00, 0x00, ILL⟩,
  ⟨"sax", [.abs], 0x8f, 0x87, 0x00, ILL⟩,
  ⟨"sax", [.dpindx], 0x83, 0x00, 0x00, ILL⟩,
  ⟨"sax", [.absy], 0x00, 0x97, 0x00, ILL⟩,
  ⟨"sax", [], 0x22, 0x00, 0x00, HU6280⟩,
  ⟨"say", [.absx], 0x9c, 0x00, 0x00, ILL⟩,
  ⟨"say", [], 0x42, 0x00, 0x00, HU6280⟩,
  ⟨"sbc", [.immed], 0xe9, 0x00, 0x00, M6502⟩,
  ⟨"sbc", [.abs], 0xed, 0xe5, 0xef, M6502⟩,
  ⟨"sbc", [.sr], 0xe3, 0x00, 0x00, WDC65816⟩,
  ⟨"sbc", [.srindy], 0xf3, 0x00, 0x00, WDC65816⟩,
  ⟨"sbc", [.dpindx], 0xe1, 0x00, 0x00, M6502⟩,
  ⟨"sbc", [.dpindy], 0xf1, 0x00, 0x00, M6502⟩,
  ⟨"sbc", [.dpindz], 0xf2, 0x00, 0x00, CSGCE02⟩,
  ⟨"sbc", [.dpind], 0xf2, 0x00, 0x00, M65C02⟩,
  ⟨"sbc", [.absx], 0xfd, 0xf5, 0xff, M6502⟩,
  ⟨"sbc", [.absy], 0xf9, 0x00, 0x00, M6502⟩,
  ⟨"sbc", [.qdpindz], 0xf2, 0x00, 0x00, M45GS02⟩,
  ⟨"sbc", [.ldpindy], 0xf7, 0x00, 0x00, WDC65816⟩,
  ⟨"sbc", [.ldpind], 0xe7, 0x00, 0x00, WDC65816⟩,
  ⟨"sbc2", [.immed], 0xeb, 0x00, 0x00, ILL⟩,
  ⟨"sbcq", [.abs], 0xed, 0xe5, 0x00, M45GS02Q⟩,
  ⟨"sbcq", [.dpind], 0xf2, 0x00, 0x00, M45GS02Q⟩,
  ⟨"sbcq", [.qdpind], 0xf2, 0x00, 0x00, M45GS02Q⟩,
  ⟨"sec", [], 0x38, 0x00, 0x00, M6502⟩,
  ⟨"sed", [], 0xf8, 0x00, 0x00, M6502⟩,
  ⟨"see", [], 0x03, 0x00, 0x00, CSGCE02⟩,
  ⟨"sei", [], 0x78, 0x00, 0x00, M6502⟩,
  ⟨"sep", [.immed8], 0xe2, 0x00, 0x00, WDC65816⟩,
  ⟨"set", [], 0xf4, 0x00, 0x00, HU6280⟩,
  ⟨"shx", [.absy], 0x9e, 0x00, 0x00, ILL⟩,
  ⟨"shy", [.absx], 0x9c, 0x00, 0x00, ILL⟩,
  ⟨"sir", [.immed], 0x42, 0x00, 0x00, DTV⟩,
  ⟨"slo", [.abs], 0x0f, 0x07, 0x00, ILL⟩,
  ⟨"slo", [.dpindx], 0x03, 0x00, 0x00, ILL⟩,
  ⟨"slo", [.dpindy], 0x13, 0x00, 0x00, ILL⟩,
  ⟨"slo", [.absx], 0x1f, 0x17, 0x00, ILL⟩,
  ⟨"slo", [.absy], 0x1b, 0x00, 0x00, ILL⟩,
  ⟨"smb", [.wbit, .dpage], 0x00, 0x87, 0x00, WDC02⟩,
  ⟨"smb0", [.dpage], 0x00, 0x87, 0x00, WDC02⟩,
  ⟨"smb1", [.dpage], 0x00, 0x97, 0x00, WDC02⟩,
  ⟨"smb2", [.dpage], 0x00, 0xa7, 0x00, WDC02⟩,
  ⟨"smb3", [.dpage], 0x00, 0xb7, 0x00, WDC02⟩,
  ⟨"smb4", [.dpage], 0x00, 0xc7, 0x00, WDC02⟩,
  ⟨"smb5", [.dpage], 0x00, 0xd7, 0x00, WDC02⟩,
  ⟨"smb6", [.dpage], 0x00, 0xe7, 0x00, WDC02⟩,
  ⟨"smb7", [.dpage], 0x00, 0xf7, 0x00, WDC02⟩,
  ⟨"sre", [.abs], 0x4f, 0x47, 0x00, ILL⟩,
  ⟨"sre", [.dpindx], 0x43, 0x00, 0x00, ILL⟩,
  ⟨"sre", [.dpindy], 0x53, 0x00, 0x00, ILL⟩,
  ⟨"sre", [.absx], 0x5f, 0x57, 0x00, ILL⟩,
  ⟨"sre", [.absy], 0x5b, 0x00, 0x00, ILL⟩,
  ⟨"st0", [.immed], 0x03, 0x00, 0x00, HU6280⟩,
  ⟨"st1", [.immed], 0x13, 0x00, 0x00, HU6280⟩,
  ⟨"st2", [.immed], 0x23, 0x00, 0x00, HU6280⟩,
  ⟨"sta", [.abs], 0x8d, 0x85, 0x8f, M6502⟩,
  ⟨"sta", [.sr], 0x83, 0x00, 0x00, WDC65816⟩,
  ⟨"sta", [.srindy], 0x93, 0x00, 0x00, WDC65816⟩,
  ⟨"sta", [.dpindx], 0x81, 0x00, 0x00, M6502⟩,
  ⟨"sta", [.dpindy], 0x91, 0x00, 0x00, M6502⟩,
  ⟨"sta", [.dpindz], 0x92, 0x00, 0x00, CSGCE02⟩,
  ⟨"sta", [.dpind], 0x92, 0x00, 0x00, M65C02⟩,
  ⟨"sta", [.absx], 0x9d, 0x95, 0x9f, M6502⟩,
  ⟨"sta", [.absy], 0x99, 0x00, 0x00, M6502⟩,
  ⟨"sta", [.qdpindz], 0x92, 0x00, 0x00, M45GS02⟩,
  ⟨"sta", [.ldpindy], 0x97, 0x00, 0x00, WDC65816⟩,
  ⟨"sta", [.ldpind], 0x87, 0x00, 0x00, WDC65816⟩,
  ⟨"stp", [], 0xdb, 0x00, 0x00, WDC02ALL⟩,
  ⟨"stq", [.abs], 0x8d, 0x85, 0x00, M45GS02Q⟩,
  ⟨"stq", [.dpind], 0x92, 0x00, 0x00, M45GS02Q⟩,
  ⟨"stq", [.qdpind], 0x92, 0x00, 0x00, M45GS02Q⟩,
  ⟨"stx", [.abs], 0x8e, 0x86, 0x00, M6502⟩,
  ⟨"stx", [.absy], 0x00, 0x96, 0x00, M6502⟩,
  ⟨"sty", [.abs], 0x8c, 0x84, 0x00, M6502⟩,
  ⟨"sty", [.absx], 0x00, 0x94, 0x00, M6502⟩,
  ⟨"stz", [.abs], 0x9c, 0x64, 0x00, M65C02⟩,
  ⟨"stz", [.absx], 0x9e, 0x74, 0x00, M65C02⟩,
  ⟨"swa", [], 0xeb, 0x00, 0x00, WDC65816⟩,
  ⟨"sxy", [], 0x02, 0x00, 0x00, HU6280⟩,
  ⟨"tab", [], 0x5b, 0x00, 0x00, CSGCE02⟩,
  ⟨"tad", [], 0x5b, 0x00, 0x00, WDC65816⟩,
  ⟨"tai", [.abs, .abs, .abs], 0xf3, 0x00, 0x00, HU6280⟩,
  ⟨"tam", [.immed], 0x53, 0x00, 0x00, HU6280⟩,
  ⟨"tas", [.absy], 0x9b, 0x00, 0x00, ILL⟩,
  ⟨"tas", [], 0x1b, 0x00, 0x00, WDC65816⟩,
  ⟨"tax", [], 0xaa, 0x00, 0x00, M6502⟩,
  ⟨"tay", [], 0xa8, 0x00, 0x00, M6502⟩,
  ⟨"taz", [], 0x4b, 0x00, 0x00, CSGCE02⟩,
  ⟨"tba", [], 0x7b, 0x00, 0x00, CSGCE02⟩,
  ⟨"tcd", [], 0x5b, 0x00, 0x00, WDC65816⟩,
  ⟨"tcs", [], 0x1b, 0x00, 0x00, WDC65816⟩,
  ⟨"tda", [], 0x7b, 0x00, 0x00, WDC65816⟩,
  ⟨"tdc", [], 0x7b, 0x00, 0x00, WDC65816⟩,
  ⟨"tdd", [.abs, .abs, .abs], 0xc3, 0x00, 0x00, HU6280⟩,
  ⟨"tia", [.abs, .abs, .abs], 0xe3, 0x00, 0x00, HU6280⟩,
  ⟨"tii", [.abs, .abs, .abs], 0x73, 0x00, 0x00, HU6280⟩,
  ⟨"tin", [.abs, .abs, .abs], 0xd3, 0x00, 0x00, HU6280⟩,
  ⟨"tma", [.immed], 0x43, 0x00, 0x00, HU6280⟩,
  ⟨"trb", [.abs], 0x1c, 0x14, 0x00, M65C02⟩,
  ⟨"tsa", [], 0x3b, 0x00, 0x00, WDC65816⟩,
  ⟨"tsb", [.abs], 0x0c, 0x04, 0x00, M65C02⟩,
  ⟨"tsc", [], 0x3b, 0x00, 0x00, WDC65816⟩,
  ⟨"tst", [.immed, .abs], 0x93, 0x83, 0x00, HU6280⟩,
  ⟨"tst", [.immed, .absx], 0xb3, 0xa3, 0x00, HU6280⟩,
  ⟨"tsx", [], 0xba, 0x00, 0x00, M6502⟩,
  ⟨"tsy", [], 0x0b, 0x00, 0x00, CSGCE02⟩,
  ⟨"txa", [], 0x8a, 0x00, 0x00, M6502⟩,
  ⟨"txs", [], 0x9a, 0x00, 0x00, M6502⟩,
  ⟨"txy", [], 0x9b, 0x00, 0x00, WDC65816⟩,
  ⟨"tya", [], 0x98, 0x00, 0x00, M6502⟩,
  ⟨"tys", [], 0x2b, 0x00, 0x00, CSGCE02⟩,
  ⟨"tyx", [], 0xbb, 0x00, 0x00, WDC65816⟩,
  ⟨"tza", [], 0x6b, 0x00, 0x00, CSGCE02⟩,
  ⟨"wai", [], 0xcb, 0x00, 0x00, WDC02ALL⟩,
  ⟨"wdm", [], 0x42, 0x00, 0x00, WDC65816⟩,
  ⟨"xaa", [.immed], 0x8b, 0x00, 0x00, ILL⟩,
  ⟨"xas", [.absy], 0x9e, 0x00, 0x00, ILL⟩,
  ⟨"xba", [], 0xeb, 0x00, 0x00, WDC65816⟩,
  ⟨"xce", [], 0xfb, 0x00, 0x00, WDC65816⟩]

end Vasm
