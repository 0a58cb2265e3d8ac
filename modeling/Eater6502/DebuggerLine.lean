import Eater6502.DebuggerTrace

/-!
# A state line, written and read

What `printCurrentState` prints is a line of text (`stateLine`): the address and
the data, each in hexadecimal and in binary, the direction, and on a read the
name of the opcode. The binary digits come from a loop of their own, and are the
numeral of the value nevertheless (`output_bitEvents`).

`parseLine` reads such a line from left to right, knowing nothing but its fixed
texts and the widths of its fields. It gets back what the line was made of
(`parseLine_stateLine`), so that a line `Reports` the levels of the pins of the bus
if its address, its data and its direction were made of them, and no two
different ones (`Reports.levels_eq`).
-/

namespace Debugger

open Arduino

/-- The line printed of a sample. -/
def stateLine (addr : BitVec 16) (data : Byte) (rw : Bool) : List Char :=
  "Addr: 0x".toList ++ (Numeral.digits 16 4 addr.toNat ++ (" (".toList
    ++ (Numeral.digits 2 16 addr.toNat ++ (") | Data: 0x".toList
    ++ (Numeral.digits 16 2 data.toNat ++ (" (".toList
    ++ (Numeral.digits 2 8 data.toNat ++ (") | R/W: ".toList
    ++ ((if rw then "R" else "W").toList
    ++ (if rw then " | Op: ".toList ++ getOpcodeName data else []))))))))))

/-! ## Writing -/

/-- **The bits printed one by one are the binary numeral.** -/
theorem output_bitEvents (v n : ℕ) : output (bitEvents v n) = Numeral.digits 2 n v := by
  induction n with
  | zero => rfl
  | succ n ih =>
    rw [Numeral.digits_succ, bitEvents, ← ih, ← Nat.shiftRight_eq_div_pow, ← Nat.and_one_is_mod]
    rfl

theorem output_stateEvents (addr : BitVec 16) (data : Byte) (rw : Bool) :
    output (stateEvents addr data rw) = Text.unlines [stateLine addr data rw] := by
  have hcons : ∀ (text : List Char) (es : List Event),
      output (.print text :: es) = text ++ output es := fun _ _ => rfl
  have hnil : output [] = [] := rfl
  unfold stateEvents stateLine Text.unlines
  cases rw <;>
    simp only [output_append, hcons, hnil, output_bitEvents, List.append_nil, List.append_assoc,
      List.flatMap_cons, List.flatMap_nil, if_true, if_false, Bool.false_eq_true]

/-! ## Reading -/

/-- What the fields of a state line hold. -/
structure Fields where
  hexAddr : ℕ
  binAddr : ℕ
  hexData : ℕ
  binData : ℕ
  rw : List Char
  op : Option (List Char)
  deriving Repr, DecidableEq

/-- The number in the next characters, and what stands behind them. -/
def number (base width : ℕ) (l : List Char) : Option (ℕ × List Char) := do
  let (digits, l) ← Text.field width l
  let n ← Numeral.value base digits
  return (n, l)

/-- The last field, which may be missing. -/
def parseOp : List Char → Option (Option (List Char))
  | [] => some none
  | c :: l => (Text.expect " | Op: ".toList (c :: l)).map some

/-- **A state line read.** -/
def parseLine (l : List Char) : Option Fields := do
  let l ← Text.expect "Addr: 0x".toList l
  let (hexAddr, l) ← number 16 4 l
  let l ← Text.expect " (".toList l
  let (binAddr, l) ← number 2 16 l
  let l ← Text.expect ") | Data: 0x".toList l
  let (hexData, l) ← number 16 2 l
  let l ← Text.expect " (".toList l
  let (binData, l) ← number 2 8 l
  let l ← Text.expect ") | R/W: ".toList l
  let (rw, l) ← Text.field 1 l
  let op ← parseOp l
  return { hexAddr, binAddr, hexData, binData, rw, op }

/-- Reading goes on behind what has been read. -/
theorem bind_of_eq_some {α β : Type} {x : Option α} {a : α} (h : x = some a)
    (k : α → Option β) : x >>= k = k a := by
  rw [h]
  rfl

theorem number_digits {base width n : ℕ} (hpos : 0 < base) (hbase : base ≤ 16)
    (hn : n < base ^ width) (l : List Char) :
    number base width (Numeral.digits base width n ++ l) = some (n, l) :=
  (bind_of_eq_some (Text.field_append Numeral.length_digits l) _).trans
    (bind_of_eq_some (Numeral.value_digits hpos hbase hn) _)

theorem parseOp_append (name : List Char) :
    parseOp (" | Op: ".toList ++ name) = some (some name) :=
  congrArg (Option.map some) (Text.expect_append " | Op: ".toList name)

/-- **A state line reads back as what it was made of.** -/
theorem parseLine_stateLine (addr : BitVec 16) (data : Byte) (rw : Bool) :
    parseLine (stateLine addr data rw)
      = some {
          hexAddr := addr.toNat
          binAddr := addr.toNat
          hexData := data.toNat
          binData := data.toNat
          rw := (if rw then "R" else "W").toList
          op := if rw then some (getOpcodeName data) else none } := by
  have hrw : ((if rw then "R" else "W").toList).length = 1 := by
    cases rw <;> rfl
  have hop : parseOp (if rw then " | Op: ".toList ++ getOpcodeName data else [])
      = some (if rw then some (getOpcodeName data) else none) := by
    cases rw with
    | false => rfl
    | true => exact parseOp_append (getOpcodeName data)
  have hexAddr : addr.toNat < 16 ^ 4 := addr.isLt
  have binAddr : addr.toNat < 2 ^ 16 := addr.isLt
  have hexData : data.toNat < 16 ^ 2 := data.isLt
  have binData : data.toNat < 2 ^ 8 := data.isLt
  unfold parseLine stateLine
  refine (bind_of_eq_some (Text.expect_append _ _) _).trans ?_
  refine (bind_of_eq_some (number_digits (by decide) (by decide) hexAddr _) _).trans ?_
  refine (bind_of_eq_some (Text.expect_append _ _) _).trans ?_
  refine (bind_of_eq_some (number_digits (by decide) (by decide) binAddr _) _).trans ?_
  refine (bind_of_eq_some (Text.expect_append _ _) _).trans ?_
  refine (bind_of_eq_some (number_digits (by decide) (by decide) hexData _) _).trans ?_
  refine (bind_of_eq_some (Text.expect_append _ _) _).trans ?_
  refine (bind_of_eq_some (number_digits (by decide) (by decide) binData _) _).trans ?_
  refine (bind_of_eq_some (Text.expect_append _ _) _).trans ?_
  refine (bind_of_eq_some (Text.field_append hrw _) _).trans ?_
  exact bind_of_eq_some hop _

example :
    parseLine "Addr: 0x8002 (1000000000000010) | Data: 0xA9 (10101001) | R/W: R | Op: LDA".toList
      = some ⟨0x8002, 0x8002, 0xa9, 0xa9, ['R'], some ['L', 'D', 'A']⟩ := by
  decide +kernel

/-! ## What a line says of the bus -/

/-- The pins of the bus. -/
def busPins : List ℕ := ADDR ++ DATA ++ [RW_PIN]

/-- **Fields that describe the levels of the bus.** -/
structure Describes (f : Fields) (levels : ℕ → Bool) : Prop where
  binAddr : f.binAddr = f.hexAddr
  binData : f.binData = f.hexData
  addr : ∀ n pin, ADDR[n]? = some pin → f.hexAddr.testBit n = levels pin
  data : ∀ n pin, DATA[n]? = some pin → f.hexData.testBit n = levels pin
  rw : f.rw = (if levels RW_PIN then "R" else "W").toList
  opOnRead : levels RW_PIN = true →
    ∃ name, OPCODE_NAMES[f.hexData]? = some name ∧ f.op = some name.toList
  noOpOnWrite : levels RW_PIN = false → f.op = none

/-- A line that reports the levels of the bus. -/
def Reports (l : List Char) (levels : ℕ → Bool) : Prop :=
  ∃ f, parseLine l = some f ∧ Describes f levels

/-- A line that begins like a state line. -/
def isStateLine (l : List Char) : Bool := (Text.expect "Addr: ".toList l).isSome

theorem length_OPCODE_NAMES : OPCODE_NAMES.length = 256 := by
  decide +kernel

/-- Every byte has its name. -/
theorem getOpcodeName_eq (data : Byte) :
    ∃ name, OPCODE_NAMES[data.toNat]? = some name ∧ getOpcodeName data = name.toList := by
  have hlt : data.toNat < OPCODE_NAMES.length := by
    rw [length_OPCODE_NAMES]
    exact data.isLt
  have hget := List.getElem?_eq_getElem hlt
  refine ⟨OPCODE_NAMES[data.toNat], hget, ?_⟩
  rw [getOpcodeName, List.getD_eq_getElem?_getD, hget, Option.getD_some]

/-- A line is one line. -/
theorem not_mem_stateLine (addr : BitVec 16) (data : Byte) (rw : Bool) :
    '\r' ∉ stateLine addr data rw := by
  have hdigits : ∀ base width n, '\r' ∉ Numeral.digits base width n :=
    fun _ _ _ h => absurd (Numeral.mem_digits h) (by decide)
  have hnames : ∀ name ∈ OPCODE_NAMES, '\r' ∉ name.toList := by decide +kernel
  have hname : '\r' ∉ getOpcodeName data := by
    obtain ⟨name, hget, hname⟩ := getOpcodeName_eq data
    rw [hname]
    exact hnames name (List.mem_of_getElem? hget)
  unfold stateLine
  cases rw <;> simp [hdigits, hname]

theorem isStateLine_stateLine (addr : BitVec 16) (data : Byte) (rw : Bool) :
    isStateLine (stateLine addr data rw) = true := rfl

/-- **A line made of the levels of the bus reports them.** -/
theorem stateLine_reports {addr : BitVec 16} {data : Byte} {levels : ℕ → Bool}
    (haddr : ∀ n pin, ADDR[n]? = some pin → addr.getLsbD n = levels pin)
    (hdata : ∀ n pin, DATA[n]? = some pin → data.getLsbD n = levels pin) :
    Reports (stateLine addr data (levels RW_PIN)) levels := by
  refine ⟨_, parseLine_stateLine addr data (levels RW_PIN), rfl, rfl, haddr, hdata, rfl,
    fun hread => ?_, fun hwrite => if_neg (by rw [hwrite]; exact Bool.false_ne_true)⟩
  obtain ⟨name, hget, hname⟩ := getOpcodeName_eq data
  exact ⟨name, hget, (if_pos hread).trans (congrArg some hname)⟩

/-- **Two samples reported by one line are the same.** -/
theorem Reports.levels_eq {l : List Char} {levels levels' : ℕ → Bool} (h : Reports l levels)
    (h' : Reports l levels') {pin : ℕ} (hpin : pin ∈ busPins) : levels pin = levels' pin := by
  obtain ⟨f, hf, hd⟩ := h
  obtain ⟨f', hf', hd'⟩ := h'
  obtain rfl : f = f' := Option.some.inj (hf.symm.trans hf')
  rcases List.mem_append.mp hpin with hpin | hpin
  · rcases List.mem_append.mp hpin with hpin | hpin
    · obtain ⟨n, hn⟩ := List.mem_iff_getElem?.mp hpin
      rw [← hd.addr n pin hn, hd'.addr n pin hn]
    · obtain ⟨n, hn⟩ := List.mem_iff_getElem?.mp hpin
      rw [← hd.data n pin hn, hd'.data n pin hn]
  · have hrw := hd.rw.symm.trans hd'.rw
    rw [List.mem_singleton.mp hpin]
    cases hl : levels RW_PIN <;> cases hl' : levels' RW_PIN
    · rfl
    · rw [hl, hl'] at hrw
      exact absurd hrw (by decide)
    · rw [hl, hl'] at hrw
      exact absurd hrw (by decide)
    · rfl

end Debugger
