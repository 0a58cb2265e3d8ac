import Mathlib.Data.List.Basic
import Eater6502.Machine

/-!
# An assembler, and what the processor sees of its output

A listing is a list of lines, each an instruction or some data, possibly with a
label in front. The assembler lays the lines out one after the other from an
origin, takes the address of a label from that layout, and emits the bytes; it
fails on a symbol nobody defines and on a branch that is too far away.

`fetchInstr_addr` is what the processor sees of it. With the emitted bytes in
memory, a fetch at the address of a line finds the instruction of that line,
with its symbols replaced by their addresses, and leaves the program counter at
the next line. Everything said about a listing in terms of its lines rests on
this.
-/

namespace Asm

open Isa Cpu

variable {L β : Type}

/-- An operand that names an address: a symbol, or the address itself. -/
inductive Operand (L : Type) where
  | label (l : L)
  | addr (w : Word)
  deriving Repr, DecidableEq

/-- What a line puts into memory. -/
inductive Item (L : Type) where
  | instr (i : Instr (Operand L) L)
  | bytes (bs : List Byte)
  deriving Repr, DecidableEq

/-- How many bytes that is. -/
def Item.size : Item L → ℕ
  | .instr i => i.size
  | .bytes bs => bs.length

/-- A line of a listing. -/
structure Line (L : Type) where
  /-- The label in front of it, if there is one. -/
  label : Option L
  item : Item L
  deriving Repr, DecidableEq

/-- The distance of the `i`-th line from the first one. -/
def offset (lines : List (Line L)) (i : ℕ) : ℕ :=
  ((lines.take i).map fun ln => ln.item.size).sum

theorem offset_cons_succ (ln : Line L) (lines : List (Line L)) (i : ℕ) :
    offset (ln :: lines) (i + 1) = ln.item.size + offset lines i := by
  rw [offset, List.take_succ_cons, List.map_cons, List.sum_cons]
  rfl

/-- The next line begins where a line ends. -/
theorem offset_succ {lines : List (Line L)} {i : ℕ} {ln : Line L}
    (h : lines[i]? = some ln) : offset lines (i + 1) = offset lines i + ln.item.size := by
  rw [offset, List.take_add_one, h, Option.toList_some, List.map_append, List.sum_append,
    List.map_singleton, List.sum_singleton]
  rfl

/-- The lines behind the `i`-th one are laid out behind it. -/
theorem offset_add (lines : List (Line L)) (i k : ℕ) :
    offset lines (i + k) = offset lines i + offset (lines.drop i) k := by
  rw [offset, List.take_add, List.map_append, List.sum_append]
  rfl

/-- What is behind an instruction is laid out behind it. -/
theorem offset_lt {lines : List (Line L)} {i j : ℕ} {lbl : Option L}
    {ins : Instr (Operand L) L} (hi : lines[i]? = some ⟨lbl, .instr ins⟩) (hij : i < j) :
    offset lines i < offset lines j := by
  obtain ⟨k, rfl⟩ := Nat.exists_eq_add_of_lt hij
  rw [Nat.add_right_comm, offset_add, offset_succ hi]
  exact Nat.lt_of_lt_of_le (Nat.lt_add_of_pos_right ins.size_pos) (Nat.le_add_right _ _)

/-- A listing with the address its first byte goes to. -/
structure Listing (L : Type) where
  org : Word
  lines : List (Line L)

namespace Listing

/-- The address of the `i`-th line. -/
def addr (p : Listing L) (i : ℕ) : Word := p.org + BitVec.ofNat 16 (offset p.lines i)

theorem addr_add (p : Listing L) (i k : ℕ) :
    p.addr (i + k) = p.addr i + BitVec.ofNat 16 (offset (p.lines.drop i) k) := by
  rw [addr, addr, offset_add, BitVec.ofNat_add, BitVec.add_assoc]

theorem addr_succ {p : Listing L} {i : ℕ} {ln : Line L} (h : p.lines[i]? = some ln) :
    p.addr (i + 1) = p.addr i + BitVec.ofNat 16 ln.item.size := by
  rw [addr, addr, offset_succ h, BitVec.ofNat_add, BitVec.add_assoc]

/-- **No two instructions of a listing share an address**, if it fits into memory. -/
theorem addr_inj {p : Listing L} (hfit : offset p.lines p.lines.length < 2 ^ 16) {i j : ℕ}
    {lbl lbl' : Option L} {ins ins' : Instr (Operand L) L}
    (hi : p.lines[i]? = some ⟨lbl, .instr ins⟩) (hj : p.lines[j]? = some ⟨lbl', .instr ins'⟩)
    (h : p.addr i = p.addr j) : i = j := by
  have hoff := congrArg BitVec.toNat ((BitVec.add_right_inj p.org).mp h)
  have hlt : ∀ {k : ℕ} {lbl : Option L} {ins : Instr (Operand L) L},
      p.lines[k]? = some ⟨lbl, .instr ins⟩ → offset p.lines k < 2 ^ 16 := fun hk =>
    Nat.lt_trans (offset_lt hk (List.getElem?_eq_some_iff.mp hk).1) hfit
  rw [BitVec.toNat_ofNat, BitVec.toNat_ofNat, Nat.mod_eq_of_lt (hlt hi),
    Nat.mod_eq_of_lt (hlt hj)] at hoff
  rcases Nat.lt_trichotomy i j with hij | hij | hij
  · exact absurd hoff (Nat.ne_of_lt (offset_lt hi hij))
  · exact hij
  · exact absurd hoff (Nat.ne_of_gt (offset_lt hj hij))

variable [DecidableEq L]

/-- The line a label stands in front of. -/
def index (p : Listing L) (l : L) : Option ℕ :=
  p.lines.findIdx? fun ln => ln.label == some l

/-- The value of a label: the address of its line. -/
def symbol (p : Listing L) (l : L) : Option Word := (p.index l).map p.addr

/-- The address an operand names. -/
def operand (p : Listing L) : Operand L → Option Word
  | .label l => p.symbol l
  | .addr w => some w

@[simp] theorem operand_label (p : Listing L) (l : L) :
    p.operand (.label l) = p.symbol l := rfl

@[simp] theorem operand_addr (p : Listing L) (w : Word) : p.operand (.addr w) = some w := rfl

/-- The displacement that takes a branch to a label from the instruction behind
it, if one byte is enough for it. -/
def displacement (p : Listing L) (next : Word) (l : L) : Option Byte :=
  (p.symbol l).bind fun w =>
    if next + ((w - next).setWidth 8).signExtend 16 = w then some ((w - next).setWidth 8)
    else none

/-- A branch that reaches its label is assembled. -/
theorem displacement_of {p : Listing L} {next w : Word} {l : L} (hl : p.symbol l = some w)
    (d : Byte) (h : w = next + d.signExtend 16) : p.displacement next l = some d := by
  have hd : (w - next).setWidth 8 = d := by
    rw [h, BitVec.add_comm, BitVec.add_sub_cancel]
    refine BitVec.eq_of_getLsbD_eq fun i hi => ?_
    rw [BitVec.getLsbD_setWidth, BitVec.getLsbD_signExtend]
    simp [hi, Nat.lt_of_lt_of_le hi (show 8 ≤ 16 by decide)]
  rw [displacement, hl, Option.bind_some, hd, if_pos h.symm]

/-- The instruction the assembler makes of the one on the `i`-th line. -/
def resolve (p : Listing L) (i : ℕ) (ins : Instr (Operand L) L) : Option (Instr Word Byte) :=
  ins.resolve p.operand (p.displacement (p.addr (i + 1)))

/-- The bytes of the `i`-th line. -/
def emit (p : Listing L) (i : ℕ) : Item L → Option (List Byte)
  | .instr ins => (p.resolve i ins).map Instr.encode
  | .bytes bs => some bs

/-- The bytes of some lines, the first of them being the `i`-th of the listing. -/
def emitFrom (p : Listing L) : ℕ → List (Line L) → Option (List Byte)
  | _, [] => some []
  | i, ln :: lines =>
    (p.emit i ln.item).bind fun e => (emitFrom p (i + 1) lines).map fun es => e ++ es

/-- **The assembler.** -/
def assemble (p : Listing L) : Option (List Byte) := p.emitFrom 0 p.lines

theorem length_emit {p : Listing L} {i : ℕ} {it : Item L} {e : List Byte}
    (h : p.emit i it = some e) : e.length = it.size := by
  cases it with
  | instr ins =>
    obtain ⟨ins', hr, rfl⟩ := Option.map_eq_some_iff.mp h
    rw [Instr.length_encode]
    exact Instr.size_resolve hr
  | bytes bs =>
    obtain rfl : bs = e := Option.some_inj.mp h
    rfl

/-- Each of some lines can be emitted where it stands. -/
def Emits (p : Listing L) : ℕ → List (Line L) → Prop
  | _, [] => True
  | i, ln :: lines => (p.emit i ln.item).isSome ∧ Emits p (i + 1) lines

/-- Lines that can be emitted one by one can be emitted together. -/
theorem emitFrom_of {p : Listing L} {lines : List (Line L)} {k : ℕ} (h : p.Emits k lines) :
    ∃ bs, p.emitFrom k lines = some bs ∧ bs.length = offset lines lines.length := by
  induction lines generalizing k with
  | nil => exact ⟨[], rfl, rfl⟩
  | cons l lines ih =>
    obtain ⟨e, he⟩ := Option.isSome_iff_exists.mp h.1
    obtain ⟨es, hes, hlen⟩ := ih h.2
    refine ⟨e ++ es, ?_, ?_⟩
    · rw [emitFrom, he, Option.bind_some, hes, Option.map_some]
    · rw [List.length_append, length_emit he, hlen, List.length_cons, offset_cons_succ]

/-- The bytes of a line stand in the output at the offset of the line. -/
theorem emitFrom_get {p : Listing L} {lines : List (Line L)} {k i : ℕ} {bs : List Byte}
    {ln : Line L} (h : p.emitFrom k lines = some bs) (hi : lines[i]? = some ln) :
    ∃ e pre post, p.emit (k + i) ln.item = some e ∧ bs = pre ++ (e ++ post)
      ∧ pre.length = offset lines i := by
  induction lines generalizing k i bs with
  | nil => exact absurd hi (by simp)
  | cons l lines ih =>
    obtain ⟨e, he, hrest⟩ := Option.bind_eq_some_iff.mp h
    obtain ⟨es, hes, rfl⟩ := Option.map_eq_some_iff.mp hrest
    cases i with
    | zero =>
      obtain rfl : l = ln := Option.some_inj.mp hi
      exact ⟨e, [], es, he, rfl, rfl⟩
    | succ i =>
      rw [List.getElem?_cons_succ] at hi
      obtain ⟨e', pre, post, he', rfl, hpre⟩ := ih hes hi
      refine ⟨e', e ++ pre, post, ?_, (List.append_assoc _ _ _).symm, ?_⟩
      · rw [← Nat.add_assoc, Nat.add_right_comm]
        exact he'
      · rw [List.length_append, hpre, length_emit he, offset_cons_succ]

end Listing

/-! ## The output in memory -/

/-- **Bytes that read as themselves**: wherever the bus is in its life, a read
among these addresses gives the byte put there and changes nothing. They lie
above the stack page and do not run past the end of memory. -/
structure Loaded (B : Bus β) (org : Word) (bs : List Byte) : Prop where
  low : 0x200 ≤ org.toNat
  high : org.toNat + bs.length ≤ 0x10000
  read : ∀ s k b, bs[k]? = some b → B.read s (org + BitVec.ofNat 16 k) = (b, s)

namespace Loaded

variable {B : Bus β} {org : Word} {bs : List Byte}

/-- The loaded bytes are not in the stack page. -/
theorem hi_ne_one (h : Loaded B org bs) {k : ℕ} (hk : k < bs.length) :
    hi (org + BitVec.ofNat 16 k) ≠ 1 := by
  intro h1
  have hlow := h.low
  have hhigh := h.high
  have hval := congrArg BitVec.toNat h1
  rw [toNat_hi, BitVec.toNat_add, BitVec.toNat_ofNat] at hval
  change _ = 1 at hval
  omega

/-- A fetch of a loaded byte. -/
theorem fetch (h : Loaded B org bs) {m : Machine β} {k : ℕ} {b : Byte}
    (hb : bs[k]? = some b) (hpc : m.pc = org + BitVec.ofNat 16 k) :
    m.fetch B = (b, { m with pc := org + BitVec.ofNat 16 (k + 1) }) := by
  have hk : k < bs.length := (List.getElem?_eq_some_iff.mp hb).1
  have hr : B.read m.bus m.pc = (b, m.bus) := by rw [hpc, h.read m.bus k b hb]
  have hne : hi m.pc ≠ 1 := by rw [hpc]; exact h.hi_ne_one hk
  have hpc' : m.pc + 1 = org + BitVec.ofNat 16 (k + 1) := by
    rw [hpc, BitVec.ofNat_add, BitVec.add_assoc]
    rfl
  rw [Machine.fetch, Machine.read, if_neg hne, hr, hpc']

/-- **A fetch of a loaded instruction.** -/
theorem fetchInstr (h : Loaded B org bs) {m : Machine β} {pre post : List Byte}
    {i : Instr Word Byte} (hbs : bs = pre ++ (i.encode ++ post))
    (hpc : m.pc = org + BitVec.ofNat 16 pre.length) :
    m.fetchInstr B
      = some (i, { m with pc := org + BitVec.ofNat 16 (pre.length + i.size) }) := by
  have hget : ∀ k b, i.encode[k]? = some b → bs[pre.length + k]? = some b := by
    intro k b hk
    have hlt : k < i.encode.length := (List.getElem?_eq_some_iff.mp hk).1
    rw [hbs, List.getElem?_append_right (Nat.le_add_right _ _), Nat.add_sub_cancel_left,
      List.getElem?_append_left hlt, hk]
  have hop : m.fetch B
      = (i.opcode, { m with pc := org + BitVec.ofNat 16 (pre.length + 1) }) :=
    h.fetch (hget 0 _ rfl) hpc
  unfold Machine.fetchInstr
  rw [hop]
  rcases form_opcode i with ⟨hf, ho⟩ | ⟨f, b, hf, ho, hfi⟩ | ⟨f, w, hf, ho, hfi⟩
  · have hs : i.size = 1 := by rw [← Instr.length_encode, Instr.encode, ho]; rfl
    rw [hs]
    simp only [hf]
  · have hs : i.size = 2 := by rw [← Instr.length_encode, Instr.encode, ho]; rfl
    have hb : bs[pre.length + 1]? = some b := hget 1 b (by rw [Instr.encode, ho]; rfl)
    simp only [hf]
    rw [h.fetch hb rfl, hfi, hs]
  · have hs : i.size = 3 := by rw [← Instr.length_encode, Instr.encode, ho]; rfl
    have hl : bs[pre.length + 1]? = some (lo w) :=
      hget 1 _ (by rw [Instr.encode, ho]; rfl)
    have hh : bs[pre.length + 1 + 1]? = some (hi w) :=
      hget 2 _ (by rw [Instr.encode, ho]; rfl)
    have hm₁ := h.fetch (m := { m with pc := org + BitVec.ofNat 16 (pre.length + 1) }) hl rfl
    have hm₂ :=
      h.fetch (m := { m with pc := org + BitVec.ofNat 16 (pre.length + 1 + 1) }) hh rfl
    simp only [hf, hm₁, hm₂]
    rw [word_hi_lo, hfi, hs]

end Loaded

variable [DecidableEq L]

/-- **The processor finds the listing.** With the assembled bytes loaded, a
fetch at the address of a line yields the instruction of that line, and the
program counter goes to the address of the next. -/
theorem fetchInstr_addr {p : Listing L} {B : Bus β} {bs : List Byte}
    (hload : Loaded B p.org bs) (hasm : p.assemble = some bs) {m : Machine β} {i : ℕ}
    {lbl : Option L} {ins : Instr (Operand L) L} (hi : p.lines[i]? = some ⟨lbl, .instr ins⟩)
    (hpc : m.pc = p.addr i) :
    ∃ ins', p.resolve i ins = some ins'
      ∧ m.fetchInstr B = some (ins', { m with pc := p.addr (i + 1) }) := by
  obtain ⟨e, pre, post, he, hbs, hpre⟩ := Listing.emitFrom_get hasm hi
  rw [Nat.zero_add] at he
  obtain ⟨ins', hins', rfl⟩ := Option.map_eq_some_iff.mp he
  refine ⟨ins', hins', ?_⟩
  rw [hload.fetchInstr hbs (by rw [hpc, hpre]; rfl), hpre, Listing.addr, offset_succ hi,
    Instr.size_resolve hins']
  rfl

end Asm
