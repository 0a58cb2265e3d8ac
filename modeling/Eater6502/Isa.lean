import Mathlib.Algebra.Ring.Nat
import Mathlib.Data.Nat.Notation

/-!
# The 6502 instructions: their meaning on paper and their bytes

The part of the 6502 instruction set that a small program lives on: loads and
stores in the immediate, absolute and absolute-indexed modes, the stack, the
subroutine calls, the jumps and the two branches on zero.

`Instr α ρ` is an instruction whose addresses are written `α` and whose branch
targets are written `ρ`. An assembler listing has symbols in both places; what
the processor decodes is `Instr Word Byte`, with absolute addresses and
displacements. `encode` gives the bytes of the latter, and `form_opcode` says
that the opcode byte alone decides which instruction they are and how many
operand bytes follow, which is all that decoding needs.
-/

/-- An 8-bit register or memory cell. -/
abbrev Byte := BitVec 8

/-- A 16-bit address. -/
abbrev Word := BitVec 16

namespace Isa

/-- The high byte of an address. -/
def hi (w : Word) : Byte := w.extractLsb' 8 8

/-- The low byte of an address. -/
def lo (w : Word) : Byte := w.setWidth 8

/-- The address with a high and a low byte. -/
def word (h l : Byte) : Word := h ++ l

/-- An address is its two bytes. -/
theorem toNat_hi (w : Word) : (hi w).toNat = w.toNat / 2 ^ 8 := by
  rw [hi, BitVec.extractLsb'_toNat, Nat.shiftRight_eq_div_pow]
  exact Nat.mod_eq_of_lt (Nat.div_lt_of_lt_mul w.isLt)

@[simp] theorem word_hi_lo (w : Word) : word (hi w) (lo w) = w := by
  unfold word hi lo
  refine BitVec.eq_of_getLsbD_eq fun i h => ?_
  rw [BitVec.getLsbD_append]
  rcases Nat.lt_or_ge i 8 with h8 | h8
  · simp [h8]
  · rw [if_neg (Nat.not_lt.mpr h8)]
    simp [Nat.add_sub_cancel' h8, show i - 8 < 8 by omega]

@[simp] theorem hi_word (h l : Byte) : hi (word h l) = h := by
  unfold word hi
  refine BitVec.eq_of_getLsbD_eq fun i hi => ?_
  rw [BitVec.getLsbD_extractLsb', BitVec.getLsbD_append]
  simp [hi]

@[simp] theorem lo_word (h l : Byte) : lo (word h l) = l := by
  unfold word lo
  refine BitVec.eq_of_getLsbD_eq fun i hi => ?_
  rw [BitVec.getLsbD_setWidth, BitVec.getLsbD_append]
  simp [hi]

/-- An instruction with addresses in `α` and branch targets in `ρ`. -/
inductive Instr (α ρ : Type) where
  /-- `lda #b` -/
  | ldaImm (b : Byte)
  /-- `lda a` -/
  | ldaAbs (a : α)
  /-- `lda a,x` -/
  | ldaAbsX (a : α)
  /-- `ldx #b` -/
  | ldxImm (b : Byte)
  /-- `sta a` -/
  | staAbs (a : α)
  /-- `and #b` -/
  | andImm (b : Byte)
  | txs
  | inx
  | pha
  | pla
  | jsr (a : α)
  | rts
  /-- `jmp a` -/
  | jmpAbs (a : α)
  | beq (r : ρ)
  | bne (r : ρ)
  deriving Repr, DecidableEq

/-- How the bytes after an opcode make up the instruction. -/
inductive Form where
  /-- No operand. -/
  | implied (i : Instr Word Byte)
  /-- One operand byte. -/
  | byte (f : Byte → Instr Word Byte)
  /-- An address, low byte first. -/
  | word (f : Word → Instr Word Byte)

/-- The processor's decoder. A byte without an entry is an opcode outside the
modelled part of the instruction set. -/
def form : Byte → Option Form
  | 0xa9#8 => some (.byte .ldaImm)
  | 0xad#8 => some (.word .ldaAbs)
  | 0xbd#8 => some (.word .ldaAbsX)
  | 0xa2#8 => some (.byte .ldxImm)
  | 0x8d#8 => some (.word .staAbs)
  | 0x29#8 => some (.byte .andImm)
  | 0x9a#8 => some (.implied .txs)
  | 0xe8#8 => some (.implied .inx)
  | 0x48#8 => some (.implied .pha)
  | 0x68#8 => some (.implied .pla)
  | 0x20#8 => some (.word .jsr)
  | 0x60#8 => some (.implied .rts)
  | 0x4c#8 => some (.word .jmpAbs)
  | 0xf0#8 => some (.byte .beq)
  | 0xd0#8 => some (.byte .bne)
  | _ => none

namespace Instr

variable {α ρ : Type}

/-- The instruction with its addresses and branch targets worked out, if they
all can be. -/
def resolve {α' ρ' : Type} (f : α → Option α') (g : ρ → Option ρ') :
    Instr α ρ → Option (Instr α' ρ')
  | ldaImm b => some (ldaImm b)
  | ldaAbs a => (f a).map ldaAbs
  | ldaAbsX a => (f a).map ldaAbsX
  | ldxImm b => some (ldxImm b)
  | staAbs a => (f a).map staAbs
  | andImm b => some (andImm b)
  | txs => some txs
  | inx => some inx
  | pha => some pha
  | pla => some pla
  | jsr a => (f a).map jsr
  | rts => some rts
  | jmpAbs a => (f a).map jmpAbs
  | beq r => (g r).map beq
  | bne r => (g r).map bne

/-- How many bytes the instruction takes. -/
def size : Instr α ρ → ℕ
  | txs | inx | pha | pla | rts => 1
  | ldaImm _ | ldxImm _ | andImm _ | beq _ | bne _ => 2
  | ldaAbs _ | ldaAbsX _ | staAbs _ | jsr _ | jmpAbs _ => 3

/-- Its size does not depend on where an instruction points. -/
theorem size_resolve {α' ρ' : Type} {f : α → Option α'} {g : ρ → Option ρ'}
    {i : Instr α ρ} {i' : Instr α' ρ'} (h : i.resolve f g = some i') : i'.size = i.size := by
  cases i with
  | ldaImm | ldxImm | andImm | txs | inx | pha | pla | rts =>
    rw [← Option.some_inj.mp h]
    rfl
  | ldaAbs | ldaAbsX | staAbs | jsr | jmpAbs | beq | bne =>
    obtain ⟨_, -, rfl⟩ := Option.map_eq_some_iff.mp h
    rfl

theorem size_pos (i : Instr α ρ) : 0 < i.size := by
  cases i <;> exact Nat.succ_pos _

/-- The assembler's opcode table. -/
def opcode : Instr α ρ → Byte
  | ldaImm _ => 0xa9
  | ldaAbs _ => 0xad
  | ldaAbsX _ => 0xbd
  | ldxImm _ => 0xa2
  | staAbs _ => 0x8d
  | andImm _ => 0x29
  | txs => 0x9a
  | inx => 0xe8
  | pha => 0x48
  | pla => 0x68
  | jsr _ => 0x20
  | rts => 0x60
  | jmpAbs _ => 0x4c
  | beq _ => 0xf0
  | bne _ => 0xd0

/-- The bytes after the opcode. -/
def operand : Instr Word Byte → List Byte
  | txs | inx | pha | pla | rts => []
  | ldaImm b | ldxImm b | andImm b | beq b | bne b => [b]
  | ldaAbs w | ldaAbsX w | staAbs w | jsr w | jmpAbs w => [lo w, hi w]

/-- The bytes of an instruction. -/
def encode (i : Instr Word Byte) : List Byte := i.opcode :: i.operand

@[simp] theorem length_encode (i : Instr Word Byte) : i.encode.length = i.size := by
  cases i <;> rfl

end Instr

/-- **The opcode decides the instruction**: whatever the decoder finds behind an
instruction's opcode, putting the instruction's own operand bytes there gives
the instruction back. -/
theorem form_opcode (i : Instr Word Byte) :
    (form i.opcode = some (.implied i) ∧ i.operand = [])
      ∨ (∃ f b, form i.opcode = some (.byte f) ∧ i.operand = [b] ∧ f b = i)
      ∨ (∃ f w, form i.opcode = some (.word f) ∧ i.operand = [lo w, hi w] ∧ f w = i) := by
  cases i with
  | txs | inx | pha | pla | rts => exact Or.inl ⟨rfl, rfl⟩
  | ldaImm b | ldxImm b | andImm b | beq b | bne b =>
    exact Or.inr (Or.inl ⟨_, b, rfl, rfl, rfl⟩)
  | ldaAbs w | ldaAbsX w | staAbs w | jsr w | jmpAbs w =>
    exact Or.inr (Or.inr ⟨_, w, rfl, rfl, rfl⟩)

end Isa
