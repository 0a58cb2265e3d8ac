import Mathlib.Algebra.Ring.Nat
import Mathlib.Data.Nat.Notation

/-!
# Numerals of a fixed width

A number written in a base of at most sixteen with a fixed number of digits,
leading zeros included and letters in upper case, and the number read back from
such a numeral. A numeral wide enough for its number loses nothing
(`value_digits`), so that two numbers with one numeral are one number.
-/

namespace Numeral

/-- The digits there are. -/
def digitChars : List Char :=
  ['0', '1', '2', '3', '4', '5', '6', '7', '8', '9', 'A', 'B', 'C', 'D', 'E', 'F']

/-- The digit of a number. -/
def digit (n : ℕ) : Char := digitChars.getD n '0'

/-- The number of a digit, if it is one of the base. -/
def digitValue (base : ℕ) (c : Char) : Option ℕ :=
  (digitChars.idxOf? c).filter (· < base)

/-- A number in `width` digits, the most significant first. What does not fit is cut
off. -/
def digits (base : ℕ) : ℕ → ℕ → List Char
  | 0, _ => []
  | width + 1, n => digits base width (n / base) ++ [digit (n % base)]

/-- The number of a numeral. -/
def value (base : ℕ) (cs : List Char) : Option ℕ :=
  cs.foldlM (fun n c => (digitValue base c).map (n * base + ·)) 0

variable {base width n : ℕ}

@[simp] theorem length_digits : (digits base width n).length = width := by
  induction width generalizing n with
  | zero => rfl
  | succ width ih => rw [digits, List.length_append, ih, List.length_singleton]

theorem digitValue_digit (hbase : base ≤ 16) (hn : n < base) :
    digitValue base (digit n) = some n := by
  have hidx : ∀ n < 16, digitChars.idxOf? (digit n) = some n := by decide
  rw [digitValue, hidx n (Nat.lt_of_lt_of_le hn hbase)]
  exact Option.filter_some_pos (decide_eq_true hn)

/-- **A numeral reads back** as its number, if the number fits. -/
theorem value_digits (hpos : 0 < base) (hbase : base ≤ 16) (hn : n < base ^ width) :
    value base (digits base width n) = some n := by
  induction width generalizing n with
  | zero =>
    rw [Nat.lt_one_iff.mp hn]
    rfl
  | succ width ih =>
    have hdiv : n / base < base ^ width := Nat.div_lt_of_lt_mul (by rwa [← Nat.pow_succ'])
    have hih := ih hdiv
    rw [value] at hih ⊢
    rw [digits, List.foldlM_append, hih]
    show ((digitValue base (digit (n % base))).map (n / base * base + ·)).bind some = some n
    rw [digitValue_digit hbase (Nat.mod_lt n hpos), Option.map_some, Option.bind_some,
      Nat.div_add_mod']

/-- A numeral begins with its most significant digit. -/
theorem digits_succ : digits base (width + 1) n
    = digit (n / base ^ width % base) :: digits base width n := by
  induction width generalizing n with
  | zero => rw [Nat.pow_zero, Nat.div_one]; rfl
  | succ width ih =>
    rw [digits, ih, Nat.div_div_eq_div_mul, ← Nat.pow_succ']
    rfl

/-- Every character of a numeral is a digit. -/
theorem mem_digits {c : Char} (hc : c ∈ digits base width n) : c ∈ digitChars := by
  have hdigit : ∀ n, digit n ∈ digitChars := fun n => by
    rw [digit, List.getD_eq_getElem?_getD]
    cases h : digitChars[n]? with
    | none => exact List.mem_cons_self
    | some d => exact List.mem_of_getElem? h
  induction width generalizing n with
  | zero => exact absurd hc List.not_mem_nil
  | succ width ih =>
    rcases List.mem_append.mp hc with hc | hc
    · exact ih hc
    · rw [List.mem_singleton.mp hc]
      exact hdigit _

end Numeral
