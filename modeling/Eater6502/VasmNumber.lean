import Eater6502.VasmExpr
import Mathlib.Algebra.Ring.Nat
import Mathlib.Data.List.TakeWhile
import Mathlib.Logic.Basic
import Mathlib.Tactic.ByContra

/-!
# The constants of a listing

A number in a listing may be marked in front or behind: `$ff`, `0xff` and `0ffh` are one
number, and without a mark it is decimal. Its digits are read one after the other, as long
as the number fits into a target address. Every documented constant that fits is read as its
value (`constant_read`), with one exception: a decimal one that starts with a zero is read in
octal, as far as that goes (`constant_octal`).

Whether a number fits is found out before each digit, from those in front of it
(`push?_eq`). So what is accepted is the number as far as 32 bits go (`readDigits_mod`). In a
base that is a power of two it is the number (`lt_of_readDigits`), but 4294967296 in decimal
is read as zero.
-/

namespace Vasm

/-! ## Characters -/

def isspace (c : Char) : Bool := c == ' ' || ('\t' ≤ c && c ≤ '\r')

def isdigit (c : Char) : Bool := '0' ≤ c && c ≤ '9'

def isxdigit (c : Char) : Bool :=
  isdigit c || ('a' ≤ c && c ≤ 'f') || ('A' ≤ c && c ≤ 'F')

def isalpha (c : Char) : Bool := ('a' ≤ c && c ≤ 'z') || ('A' ≤ c && c ≤ 'Z')

/-- What a hexadecimal digit stands for. -/
def xdigit (c : Char) : ℕ :=
  if isdigit c then c.toNat - '0'.toNat
  else if 'a' ≤ c then c.toNat - 'a'.toNat + 10
  else c.toNat - 'A'.toNat + 10

/-! ## Digits -/

/-- The value of a character that is a digit of the base. -/
def digit? (base : ℕ) (c : Char) : Option ℕ :=
  if base ≤ 10 then
    if '0' ≤ c ∧ c.toNat < base + '0'.toNat then some (xdigit c) else none
  else if isxdigit c then some (xdigit c) else none

/-- A digit more, if what was there before it is not too large. -/
def push? (base : ℕ) (val : Taddr) (d : ℕ) : Option Taddr :=
  if base ≤ 10 then
    let nval := BitVec.ofNat 32 base * val
    if nval / BitVec.ofNat 32 base = val then some (nval + BitVec.ofNat 32 d) else none
  else
    let nval := (val <<< 4) + BitVec.ofNat 32 d
    if nval >>> 4 = val then some nval else none

/-- **The digits of a constant**, read as far as they go. There is none if they are too many
for a target address. -/
def readDigits (base : ℕ) : Taddr → List Char → Option (Taddr × List Char)
  | val, [] => some (val, [])
  | val, c :: s =>
    match digit? base c with
    | none => some (val, c :: s)
    | some d => (push? base val d).bind fun val => readDigits base val s

/-! ## Marks -/

/-- The base that is still possible when a digit was read. -/
def intelBase (base : ℕ) (c : Char) : ℕ :=
  if base ≤ 2 && c ≤ '1' then 2
  else if base ≤ 8 && c ≤ '7' then 8
  else if base ≤ 10 && c ≤ '9' then 10
  else 16

/-- The base of a constant with a letter behind it, from its hexadecimal digits and what
follows them. The letters for decimal and for binary are such digits themselves, and it
depends on those in front of them. -/
def letterBase (ds : List Char) (c : Char) : Option ℕ :=
  if c.toLower = 'h' then some 16
  else if (c.toLower = 'o' ∨ c.toLower = 'q') ∧ ds.foldl intelBase 2 ≤ 8 then some 8
  else
    let c := (ds.getLastD ' ').toLower
    let lastbase := ds.dropLast.foldl intelBase 2
    if c = 'd' ∧ lastbase ≤ 10 then some 10
    else if c = 'b' ∧ lastbase ≤ 2 then some 2
    else none

def intelSuffix (s : List Char) : Option ℕ :=
  letterBase (s.takeWhile isxdigit) ((s.dropWhile isxdigit).headD ' ')

/-- The base of the constant that starts here, and where its digits are. There is no constant
if the base is zero. -/
def constPrefix (s : List Char) : ℕ × List Char :=
  match s with
  | [] => (0, [])
  | c :: t =>
    if isdigit c then
      match intelSuffix s with
      | some base => (base, s)
      | none =>
        if c = '0' then
          if t.head? = some 'x' ∨ t.head? = some 'X' then (16, t.tail)
          else if t.head? = some 'b' ∨ t.head? = some 'B' then (2, t.tail)
          else (8, s)
        else if t.head? = some '#' ∧ '2' ≤ c ∧ c ≤ '9' then (xdigit c, t.tail)
        else (10, s)
    else if c = '$' then
      if (t.head?.map isxdigit).getD false then (16, t)
      else if (t.tail.head?.map isxdigit).getD false ∧ t.head? = some '-' then (16, t.tail)
      else (0, t)
    else if c = '@' then (8, t)
    else if c = '%' then (2, t)
    else (0, s)

/-- What follows a constant. -/
def constSuffix (start behind : List Char) : List Char :=
  if (intelSuffix start).isSome then behind.tail else behind

/-- What may come of reading a constant. -/
inductive Reading where
  /-- There is none. -/
  | absent (m : List Char)
  /-- It is too large for a target address. -/
  | huge
  /-- There are no digits (error 75), and the value is -1. -/
  | expected (base : ℕ) (m : List Char)
  | num (val : Taddr) (rest : List Char)
  deriving Repr, DecidableEq

/-- **A constant is read** (`primary_expr`). What follows `$-` is negative. -/
def readConstant (s : List Char) : Reading :=
  let (base, m) := constPrefix s
  if base = 0 then .absent m
  else
    match readDigits base 0 m with
    | none => .huge
    | some (val, t) =>
      if t.length = m.length then .expected base m
      else .num (if s = '$' :: '-' :: m then -val else val) (constSuffix s t)

/-! ## Digits make a number -/

/-- A base that a constant may have. -/
def IsBase (base : ℕ) : Prop := 2 ≤ base ∧ (base ≤ 10 ∨ base = 16)

instance (base : ℕ) : Decidable (IsBase base) := inferInstanceAs (Decidable (_ ∧ _))

/-- The number of some digits, behind a number. -/
def number (base : ℕ) (n : ℕ) (ds : List Char) : ℕ := ds.foldl (fun n c => base * n + xdigit c) n

/-- Characters that are digits of a base. -/
def Digits (base : ℕ) (ds : List Char) : Prop := ∀ c ∈ ds, (digit? base c).isSome

instance (base : ℕ) (ds : List Char) : Decidable (Digits base ds) :=
  List.decidableBAll (fun c => (digit? base c).isSome = true) ds

/-- A text that does not go on with a digit of a base. -/
def Stops (base : ℕ) (rest : List Char) : Prop := ∀ c ∈ rest.head?, digit? base c = none

section Digits

variable {base n d : ℕ} {val v : Taddr} {c : Char} {ds rest r : List Char}

theorem char_le {a b : Char} : a ≤ b ↔ a.toNat ≤ b.toNat :=
  Char.le_def.trans UInt32.le_iff_toNat_le

theorem isdigit_iff : isdigit c = true ↔ 48 ≤ c.toNat ∧ c.toNat ≤ 57 := by
  rw [isdigit, Bool.and_eq_true, decide_eq_true_iff, decide_eq_true_iff, char_le, char_le]
  rfl

theorem isxdigit_iff : isxdigit c = true ↔ (48 ≤ c.toNat ∧ c.toNat ≤ 57)
    ∨ (97 ≤ c.toNat ∧ c.toNat ≤ 102) ∨ (65 ≤ c.toNat ∧ c.toNat ≤ 70) := by
  rw [isxdigit, Bool.or_eq_true, Bool.or_eq_true, isdigit_iff, Bool.and_eq_true, Bool.and_eq_true,
    decide_eq_true_iff, decide_eq_true_iff, decide_eq_true_iff, decide_eq_true_iff, char_le,
    char_le, char_le, char_le, or_assoc]
  rfl

theorem isalpha_iff : isalpha c = true ↔ (97 ≤ c.toNat ∧ c.toNat ≤ 122)
    ∨ (65 ≤ c.toNat ∧ c.toNat ≤ 90) := by
  rw [isalpha, Bool.or_eq_true, Bool.and_eq_true, Bool.and_eq_true, decide_eq_true_iff,
    decide_eq_true_iff, decide_eq_true_iff, decide_eq_true_iff, char_le, char_le, char_le,
    char_le]
  rfl

theorem xdigit_of_isdigit (h : isdigit c = true) : xdigit c = c.toNat - 48 := by
  rw [xdigit, if_pos h]
  rfl

theorem xdigit_lt (h : isxdigit c = true) : xdigit c < 16 := by
  have hrange := isxdigit_iff.mp h
  unfold xdigit
  simp only [isdigit_iff, char_le]
  have h0 : '0'.toNat = 48 := rfl
  have ha : 'a'.toNat = 97 := rfl
  have hA : 'A'.toNat = 65 := rfl
  split
  · omega
  · split <;> omega

/-- **A digit is less than its base.** -/
theorem digit?_lt (hbase : IsBase base) (h : digit? base c = some d) : d = xdigit c ∧ d < base := by
  unfold digit? at h
  split at h
  · rename_i hle
    split at h
    · rename_i hc
      have h0 : 48 ≤ c.toNat := char_le.mp hc.1
      have hlt : c.toNat < base + 48 := hc.2
      have hval : xdigit c = c.toNat - 48 := xdigit_of_isdigit (isdigit_iff.mpr ⟨h0, by omega⟩)
      obtain rfl := Option.some_inj.mp h
      exact ⟨rfl, by omega⟩
    · exact absurd h (Option.some_ne_none d).symm
  · rename_i hle
    split at h
    · rename_i hc
      obtain rfl := Option.some_inj.mp h
      obtain rfl := hbase.2.resolve_left hle
      exact ⟨rfl, xdigit_lt hc⟩
    · exact absurd h (Option.some_ne_none d).symm

/-- What is left of a product tells whether it was too large. -/
theorem mul_mod_div {m : ℕ} (hd : d < base) (hm : base ≤ m) :
    (base * n % m + d) / base = n ↔ base * n < m := by
  constructor
  · intro h
    by_contra hge
    have hsub : base * n % m ≤ base * n - m := by
      rw [Nat.mod_eq_sub_mod (Nat.le_of_not_lt hge)]
      exact Nat.mod_le _ _
    have hle : base * n ≤ base * n % m + d := by
      have hmul := Nat.mul_div_le (base * n % m + d) base
      rwa [h] at hmul
    omega
  · intro h
    rw [Nat.mod_eq_of_lt h, Nat.mul_add_div (by omega), Nat.div_eq_of_lt hd, Nat.add_zero]

/-- **A digit more** is too much only if the digits before it are. -/
theorem push?_eq (hbase : IsBase base) (hd : d < base) :
    push? base val d = if base * val.toNat < 2 ^ 32 then
        some (BitVec.ofNat 32 (base * val.toNat + d))
      else none := by
  have hsmall : base ≤ 16 := by
    obtain ⟨-, h | h⟩ := hbase <;> omega
  have hpos : 2 ≤ base := hbase.1
  unfold push?
  split
  · have hfits : BitVec.ofNat 32 base * val / BitVec.ofNat 32 base = val
        ↔ base * val.toNat < 2 ^ 32 := by
      have hmod : base % 2 ^ 32 = base := Nat.mod_eq_of_lt (by omega)
      rw [← mul_mod_div (d := 0) (by omega) (by omega : base ≤ 2 ^ 32), ← BitVec.toNat_inj,
        BitVec.toNat_udiv, BitVec.toNat_mul, BitVec.toNat_ofNat, hmod, Nat.add_zero]
    have hval : BitVec.ofNat 32 base * val + BitVec.ofNat 32 d
        = BitVec.ofNat 32 (base * val.toNat + d) := by
      rw [BitVec.ofNat_add, BitVec.ofNat_mul, BitVec.ofNat_toNat, BitVec.setWidth_eq]
    dsimp only
    rw [hval]
    exact if_congr hfits rfl rfl
  · have h16 : base = 16 := hbase.2.resolve_left ‹_›
    subst h16
    have hval : (val <<< 4) + BitVec.ofNat 32 d = BitVec.ofNat 32 (16 * val.toNat + d) := by
      bv_omega
    have hfits : (val <<< 4 + BitVec.ofNat 32 d) >>> 4 = val ↔ 16 * val.toNat < 2 ^ 32 := by
      bv_omega
    dsimp only
    rw [if_congr hfits rfl rfl, hval]

theorem number_cons : number base n (c :: ds) = number base (base * n + xdigit c) ds := rfl

/-- A number does not become less when there are more digits. -/
theorem le_number (hbase : IsBase base) : n ≤ number base n ds := by
  have hpos : 2 ≤ base := hbase.1
  induction ds generalizing n with
  | nil => exact Nat.le_refl n
  | cons c ds ih =>
    rw [number_cons]
    have hmul : n ≤ base * n := Nat.le_mul_of_pos_left n (Nat.lt_of_lt_of_le Nat.zero_lt_two hpos)
    exact Nat.le_trans (Nat.le_trans hmul (Nat.le_add_right _ _)) ih

theorem number_append {ds' : List Char} :
    number base n (ds ++ ds') = number base (number base n ds) ds' := List.foldl_append

theorem number_mono {base' n' : ℕ} (hbase : base ≤ base') (hn : n ≤ n') :
    number base n ds ≤ number base' n' ds := by
  induction ds generalizing n n' with
  | nil => exact hn
  | cons c ds ih => exact ih (Nat.add_le_add_right (Nat.mul_le_mul hbase hn) _)

theorem number_lt {base' n' : ℕ} (hpos : 0 < base) (hbase : base ≤ base') (hn : n < n') :
    number base n ds < number base' n' ds := by
  induction ds generalizing n n' with
  | nil => exact hn
  | cons c ds ih =>
    refine ih (Nat.add_lt_add_right ?_ _)
    exact Nat.lt_of_lt_of_le (Nat.mul_lt_mul_of_pos_left hn hpos) (Nat.mul_le_mul_right _ hbase)

theorem Digits.tail (h : Digits base (c :: ds)) : Digits base ds :=
  fun d hd => h d (List.mem_cons_of_mem c hd)

theorem Digits.head (hbase : IsBase base) (h : Digits base (c :: ds)) :
    digit? base c = some (xdigit c) ∧ xdigit c < base := by
  obtain ⟨d, hd⟩ := Option.isSome_iff_exists.mp (h c List.mem_cons_self)
  obtain ⟨rfl, hlt⟩ := digit?_lt hbase hd
  exact ⟨hd, hlt⟩

theorem readDigits_stop (h : Stops base rest) : readDigits base val rest = some (val, rest) := by
  cases rest with
  | nil => rfl
  | cons c s =>
    have hc : digit? base c = none := h c rfl
    rw [readDigits, hc]

theorem readDigits_digit (hbase : IsBase base) (h : Digits base (c :: ds)) :
    readDigits base val (c :: ds ++ rest) = if base * val.toNat < 2 ^ 32 then
        readDigits base (BitVec.ofNat 32 (base * val.toNat + xdigit c)) (ds ++ rest)
      else none := by
  obtain ⟨hc, hlt⟩ := h.head hbase
  rw [List.cons_append, readDigits, hc]
  dsimp only
  rw [push?_eq hbase hlt]
  split <;> rfl

/-- **Every number that fits is read.** -/
theorem readDigits_fits (hbase : IsBase base) (h : Digits base ds) (hrest : Stops base rest)
    (hfits : number base n ds < 2 ^ 32) : readDigits base (BitVec.ofNat 32 n) (ds ++ rest)
      = some (BitVec.ofNat 32 (number base n ds), rest) := by
  induction ds generalizing n with
  | nil => exact readDigits_stop hrest
  | cons c ds ih =>
    rw [number_cons] at hfits ⊢
    have hle : base * n + xdigit c ≤ number base (base * n + xdigit c) ds := le_number hbase
    have hn : n ≤ base * n := Nat.le_mul_of_pos_left n (by have := hbase.1; omega)
    have hmod : (BitVec.ofNat 32 n).toNat = n := by
      rw [BitVec.toNat_ofNat, Nat.mod_eq_of_lt (by omega)]
    rw [readDigits_digit hbase h, hmod, if_pos (by omega)]
    exact ih h.tail hfits

/-- **What is read is the number**, as far as 32 bits go. -/
theorem readDigits_mod (hbase : IsBase base) (h : Digits base ds) (hrest : Stops base rest)
    (hread : readDigits base (BitVec.ofNat 32 n) (ds ++ rest) = some (v, r)) :
    v = BitVec.ofNat 32 (number base n ds) ∧ r = rest := by
  induction ds generalizing n with
  | nil =>
    obtain ⟨rfl, rfl⟩ := Prod.mk.inj (Option.some_inj.mp ((readDigits_stop hrest).symm.trans hread))
    exact ⟨rfl, rfl⟩
  | cons c ds ih =>
    rw [readDigits_digit hbase h] at hread
    split at hread
    · refine ih (n := base * n + xdigit c) h.tail ?_
      rw [← hread, BitVec.ofNat_add, BitVec.ofNat_add, BitVec.ofNat_mul, BitVec.ofNat_mul,
        BitVec.ofNat_toNat, BitVec.setWidth_eq]
    · exact absurd hread (Option.some_ne_none _).symm

/-- **In a base that is a power of two a number is read only if it fits.** -/
theorem lt_of_readDigits (hbase : base = 2 ∨ base = 4 ∨ base = 8 ∨ base = 16)
    (h : Digits base ds) (hn : n < 2 ^ 32)
    (hread : (readDigits base (BitVec.ofNat 32 n) (ds ++ rest)).isSome) :
    number base n ds < 2 ^ 32 := by
  have hbase' : IsBase base := by
    rcases hbase with rfl | rfl | rfl | rfl <;> decide
  induction ds generalizing n with
  | nil => exact hn
  | cons c ds ih =>
    have hmod : (BitVec.ofNat 32 n).toNat = n := by
      rw [BitVec.toNat_ofNat, Nat.mod_eq_of_lt hn]
    have hlt := (h.head hbase').2
    rw [readDigits_digit hbase' h, hmod] at hread
    split at hread
    · rw [number_cons]
      refine ih h.tail ?_ hread
      rcases hbase with rfl | rfl | rfl | rfl <;> omega
    · exact absurd hread Bool.false_ne_true

end Digits

/-! ## The constants that are documented -/

/-- The letters behind a constant. -/
inductive Letter where
  | h
  | d
  | o
  | q
  | b
  deriving Repr, DecidableEq

namespace Letter

def base : Letter → ℕ
  | h => 16
  | d => 10
  | o | q => 8
  | b => 2

/-- The letter, in lower or in upper case. -/
def char : Letter → Bool → Char
  | h, upper => if upper then 'H' else 'h'
  | d, upper => if upper then 'D' else 'd'
  | o, upper => if upper then 'O' else 'o'
  | q, upper => if upper then 'Q' else 'q'
  | b, upper => if upper then 'B' else 'b'

end Letter

/-- **How a constant is marked**, which tells its base. -/
inductive Mark where
  | plain
  /-- `$fb2c` -/
  | dollar
  /-- `%1100101` -/
  | percent
  /-- `@237` -/
  | atSign
  /-- `0xfb2c` -/
  | zeroX (upper : Bool)
  /-- `0b1100101` -/
  | zeroB (upper : Bool)
  /-- `4#3012` -/
  | hash (base : Char) (h : '2' ≤ base ∧ base ≤ '9')
  /-- `0fb2ch` -/
  | letter (l : Letter) (upper : Bool)

namespace Mark

def base : Mark → ℕ
  | plain => 10
  | dollar | zeroX _ => 16
  | percent | zeroB _ => 2
  | atSign => 8
  | hash base _ => xdigit base
  | letter l _ => l.base

/-- What is in front of the digits. -/
def front : Mark → List Char
  | plain | letter _ _ => []
  | dollar => ['$']
  | percent => ['%']
  | atSign => ['@']
  | zeroX upper => ['0', if upper then 'X' else 'x']
  | zeroB upper => ['0', if upper then 'B' else 'b']
  | hash base _ => [base, '#']

/-- What is behind them. -/
def back : Mark → List Char
  | letter l upper => [l.char upper]
  | _ => []

theorem isBase (m : Mark) : IsBase m.base := by
  cases m with
  | hash b h =>
    have hlo : 50 ≤ b.toNat := char_le.mp h.1
    have hhi : b.toNat ≤ 57 := char_le.mp h.2
    have hval : xdigit b = b.toNat - 48 := xdigit_of_isdigit (isdigit_iff.mpr ⟨by omega, hhi⟩)
    show IsBase (xdigit b)
    rw [hval]
    exact ⟨by omega, .inl (by omega)⟩
  | letter l upper => cases l <;> decide +revert
  | _ => decide +revert

end Mark

/-- **A constant**, as it is documented. -/
structure Constant where
  mark : Mark
  digits : List Char
  ne : digits ≠ []
  valid : Digits mark.base digits
  /-- A constant with a letter behind it must start with a digit from zero to nine. -/
  head : ∀ l upper, mark = .letter l upper → ∀ c ∈ digits.head?, isdigit c = true

namespace Constant

def text (k : Constant) : List Char := k.mark.front ++ k.digits ++ k.mark.back

/-- The number it is documented to be. -/
def value (k : Constant) : ℕ := number k.mark.base 0 k.digits

/-- A decimal constant that starts with a zero, which is no decimal constant in C. -/
def Octal (k : Constant) : Prop := k.mark = .plain ∧ k.digits.head? = some '0'

end Constant

/-- A text in which no constant goes on. -/
def Ends (rest : List Char) : Prop :=
  ∀ c ∈ rest.head?, isdigit c = false ∧ isalpha c = false ∧ c ≠ '#'


section Suffix

variable {base b : ℕ} {c : Char} {ds rest t : List Char}

theorem toNat_of_digit? (hbase : base ≤ 10) (h : (digit? base c).isSome) :
    48 ≤ c.toNat ∧ c.toNat < base + 48 := by
  unfold digit? at h
  rw [if_pos hbase] at h
  split at h
  · rename_i hc
    exact ⟨char_le.mp hc.1, hc.2⟩
  · exact absurd h Bool.false_ne_true

theorem isdigit_of_digit? (hbase : base ≤ 10) (h : (digit? base c).isSome) : isdigit c = true := by
  obtain ⟨h0, hlt⟩ := toNat_of_digit? hbase h
  exact isdigit_iff.mpr ⟨h0, by omega⟩

theorem isxdigit_of_digit? (h : (digit? base c).isSome) : isxdigit c = true := by
  by_cases hbase : base ≤ 10
  · rw [isxdigit, isdigit_of_digit? hbase h]
    rfl
  · unfold digit? at h
    rw [if_neg hbase] at h
    split at h
    · assumption
    · exact absurd h Bool.false_ne_true

/-- Digits of a base leave it possible. -/
theorem intelBase_le (hbase : base = 2 ∨ base = 8 ∨ base = 10) (h : (digit? base c).isSome)
    (hb : b ≤ base) : intelBase b c ≤ base := by
  have hle : base ≤ 10 := by
    rcases hbase with rfl | rfl | rfl <;> decide
  have hlt : c.toNat < base + 48 := (toNat_of_digit? hle h).2
  have h1 : c ≤ '1' ↔ c.toNat ≤ 49 := char_le
  have h7 : c ≤ '7' ↔ c.toNat ≤ 55 := char_le
  have h9 : c ≤ '9' ↔ c.toNat ≤ 57 := char_le
  unfold intelBase
  simp only [Bool.and_eq_true, decide_eq_true_eq, h1, h7, h9]
  rcases hbase with rfl | rfl | rfl
  · exact Nat.le_of_eq (if_pos ⟨hb, by omega⟩)
  · rw [if_pos (c := b ≤ 8 ∧ c.toNat ≤ 55) ⟨hb, by omega⟩]
    split <;> decide
  · rw [if_pos (c := b ≤ 10 ∧ c.toNat ≤ 57) ⟨hb, by omega⟩]
    split
    · decide
    · split <;> decide

theorem foldl_intelBase (hbase : base = 2 ∨ base = 8 ∨ base = 10) (h : Digits base ds)
    (hb : b ≤ base) : ds.foldl intelBase b ≤ base := by
  induction ds generalizing b with
  | nil => exact hb
  | cons c ds ih => exact ih h.tail (intelBase_le hbase (h c List.mem_cons_self) hb)

theorem intelSuffix_append (hds : ∀ c ∈ ds, isxdigit c = true)
    (ht : ∀ c ∈ t.head?, isxdigit c = false) :
    intelSuffix (ds ++ t) = letterBase ds (t.headD ' ') := by
  have htake : t.takeWhile isxdigit = [] := by
    cases t with
    | nil => rfl
    | cons c t => rw [List.takeWhile_cons, ht c rfl]; rfl
  have hdrop : t.dropWhile isxdigit = t := by
    cases t with
    | nil => rfl
    | cons c t => rw [List.dropWhile_cons, ht c rfl]; rfl
  rw [intelSuffix, List.takeWhile_append_of_pos hds, List.dropWhile_append_of_pos hds, htake, hdrop,
    List.append_nil]

/-- What is no letter is none in lower case. -/
theorem toLower_ne {d : Char} (hc : isalpha c = false) (hd : isalpha d = true) : c.toLower ≠ d := by
  have hlower : c.toLower = c := by
    unfold Char.toLower
    refine dif_neg fun ⟨hA, hZ⟩ => Bool.eq_false_iff.mp hc (isalpha_iff.mpr (.inr ?_))
    exact ⟨char_le.mp hA, char_le.mp hZ⟩
  rintro rfl
  rw [hlower, hc] at hd
  exact absurd hd Bool.false_ne_true

/-- What follows a constant is no digit of it. -/
theorem Ends.isxdigit (h : Ends rest) : ∀ c ∈ rest.head?, isxdigit c = false := by
  intro c hc
  obtain ⟨hdigit, halpha, -⟩ := h c hc
  have hd := mt isdigit_iff.mpr (Bool.eq_false_iff.mp hdigit)
  have ha := mt isalpha_iff.mpr (Bool.eq_false_iff.mp halpha)
  refine Bool.eq_false_iff.mpr fun hx => ?_
  have hrange := isxdigit_iff.mp hx
  omega

/-- It is no letter behind it either. -/
theorem Ends.toLower_ne (h : Ends rest) {d : Char} (hd : isalpha d = true) :
    (rest.headD ' ').toLower ≠ d := by
  cases rest with
  | nil => exact Vasm.toLower_ne (c := ' ') rfl hd
  | cons c rest => exact Vasm.toLower_ne (h c rfl).2.1 hd

/-- **A letter behind the digits.** -/
theorem intelSuffix_letter (l : Letter) (upper : Bool) (hds : Digits l.base ds)
    (hrest : Ends rest) : intelSuffix (ds ++ l.char upper :: rest) = some l.base := by
  have hx : ∀ c ∈ ds, isxdigit c = true := fun c hc => isxdigit_of_digit? (hds c hc)
  -- a letter that is no hexadecimal digit is behind them all, and else it is the last of them
  have hbehind : ∀ d, isxdigit d = false →
      intelSuffix (ds ++ d :: rest) = letterBase ds d := fun d hd =>
    intelSuffix_append hx fun c hc => by rwa [← Option.some_inj.mp hc]
  have hamong : ∀ d, isxdigit d = true →
      intelSuffix (ds ++ d :: rest) = letterBase (ds ++ [d]) (rest.headD ' ') := by
    intro d hd
    rw [List.append_cons]
    refine intelSuffix_append (fun c hc => ?_) hrest.isxdigit
    rcases List.mem_append.mp hc with hc | hc
    · exact hx c hc
    · rwa [List.mem_singleton.mp hc]
  have hno : (rest.headD ' ').toLower ≠ 'h'
      ∧ ¬((rest.headD ' ').toLower = 'o' ∨ (rest.headD ' ').toLower = 'q') :=
    ⟨hrest.toLower_ne (by decide),
      not_or.mpr ⟨hrest.toLower_ne (by decide), hrest.toLower_ne (by decide)⟩⟩
  cases l with
  | h =>
    rw [hbehind _ (by cases upper <;> decide), letterBase, if_pos (by cases upper <;> decide)]
    rfl
  | o | q =>
    have hfold : ds.foldl intelBase 2 ≤ 8 := foldl_intelBase (.inr (.inl rfl)) hds (by decide)
    rw [hbehind _ (by cases upper <;> decide), letterBase, if_neg (by cases upper <;> decide),
      if_pos ⟨by cases upper <;> decide, hfold⟩]
    rfl
  | d =>
    have hfold : ds.foldl intelBase 2 ≤ 10 := foldl_intelBase (.inr (.inr rfl)) hds (by decide)
    rw [hamong _ (by cases upper <;> decide), letterBase, if_neg hno.1, if_neg fun h => hno.2 h.1,
      List.getLastD_concat, List.dropLast_concat]
    exact if_pos ⟨by cases upper <;> decide, hfold⟩
  | b =>
    have hfold : ds.foldl intelBase 2 ≤ 2 := foldl_intelBase (.inl rfl) hds (by decide)
    rw [hamong _ (by cases upper <;> decide), letterBase, if_neg hno.1, if_neg fun h => hno.2 h.1,
      List.getLastD_concat, List.dropLast_concat]
    refine (if_neg fun h => ?_).trans (if_pos ⟨by cases upper <;> decide, hfold⟩)
    exact absurd h.1 (by cases upper <;> decide)

/-- **No letter behind the digits**, of which the last one is decimal. -/
theorem intelSuffix_none (hds : ∀ c ∈ ds, isxdigit c = true)
    (hlast : ∀ c ∈ ds.getLast?, isdigit c = true) (ht : ∀ c ∈ t.head?, isxdigit c = false)
    (hno : (t.headD ' ').toLower ≠ 'h' ∧ (t.headD ' ').toLower ≠ 'o'
      ∧ (t.headD ' ').toLower ≠ 'q') : intelSuffix (ds ++ t) = none := by
  have halpha : isalpha (ds.getLastD ' ') = false := by
    rw [List.getLastD_eq_getLast?]
    cases hd : ds.getLast? with
    | none => rfl
    | some d =>
      have hrange := isdigit_iff.mp (hlast d hd)
      refine Bool.eq_false_iff.mpr fun ha => ?_
      have := isalpha_iff.mp ha
      rw [Option.getD_some] at this
      omega
  rw [intelSuffix_append hds ht, letterBase, if_neg hno.1,
    if_neg fun h => h.1.elim hno.2.1 hno.2.2]
  refine (if_neg fun h => ?_).trans (if_neg fun h => ?_)
  · exact Vasm.toLower_ne halpha (by decide) h.1
  · exact Vasm.toLower_ne halpha (by decide) h.1

end Suffix

/-! ## Constants are read -/

namespace Constant

variable {k : Constant} {rest : List Char}

/-- What is read of a constant is its text. -/
theorem text_append (k : Constant) (rest : List Char) :
    k.text ++ rest = k.mark.front ++ (k.digits ++ (k.mark.back ++ rest)) := by
  simp only [text, List.append_assoc]

/-- **A constant has a letter behind it if it is marked so.** -/
theorem intelSuffix_text (k : Constant) (hrest : Ends rest) : intelSuffix (k.text ++ rest)
    = match k.mark with
      | .letter l _ => some l.base
      | _ => none := by
  have hends := hrest.isxdigit
  have hno : (rest.headD ' ').toLower ≠ 'h' ∧ (rest.headD ' ').toLower ≠ 'o'
      ∧ (rest.headD ' ').toLower ≠ 'q' :=
    ⟨hrest.toLower_ne (by decide), hrest.toLower_ne (by decide), hrest.toLower_ne (by decide)⟩
  -- a mark in front that is no digit, and a digit with a mark behind it that is none
  have hmark : ∀ c s, isxdigit c = false → c.toLower ≠ 'h' ∧ c.toLower ≠ 'o' ∧ c.toLower ≠ 'q' →
      intelSuffix ([] ++ c :: s) = none := fun c s hc hlower =>
    intelSuffix_none (fun _ h => absurd h List.not_mem_nil) (fun _ h => nomatch h)
      (fun d hd => by rwa [← Option.some_inj.mp hd]) hlower
  have hdigit : ∀ d c s, isdigit d = true → isxdigit c = false →
      c.toLower ≠ 'h' ∧ c.toLower ≠ 'o' ∧ c.toLower ≠ 'q' →
      intelSuffix ([d] ++ c :: s) = none := by
    intro d c s hd hc hlower
    refine intelSuffix_none (fun e he => ?_) (fun e he => ?_)
      (fun e he => by rwa [← Option.some_inj.mp he]) hlower
    · rw [List.mem_singleton.mp he, isxdigit, hd]
      rfl
    · rwa [← Option.some_inj.mp he]
  rw [text_append]
  obtain ⟨mark, digits, hne, hvalid, hhead⟩ := k
  have hx : ∀ c ∈ digits, isxdigit c = true := fun c hc => isxdigit_of_digit? (hvalid c hc)
  cases mark with
  | plain =>
    show intelSuffix (digits ++ rest) = none
    exact intelSuffix_none hx (fun c hc => isdigit_of_digit? (by decide)
      (hvalid c (List.mem_of_getLast? hc))) hends hno
  | dollar => exact hmark '$' _ (by decide) (by decide)
  | percent => exact hmark '%' _ (by decide) (by decide)
  | atSign => exact hmark '@' _ (by decide) (by decide)
  | zeroX upper =>
    exact hdigit '0' _ _ (by decide) (by cases upper <;> decide) (by cases upper <;> decide)
  | zeroB upper =>
    show intelSuffix (('0' :: (if upper then 'B' else 'b') :: digits) ++ rest) = none
    refine intelSuffix_none ?_ ?_ hends hno
    · refine List.forall_mem_cons.mpr ⟨by decide, List.forall_mem_cons.mpr ⟨?_, hx⟩⟩
      cases upper <;> decide
    · intro c hc
      rw [List.getLast?_cons_cons, List.getLast?_cons_of_ne_nil hne] at hc
      exact isdigit_of_digit? (show 2 ≤ 10 by decide) (hvalid c (List.mem_of_getLast? hc))
  | hash b h =>
    have hlo : 50 ≤ b.toNat := char_le.mp h.1
    exact hdigit b '#' _ (isdigit_iff.mpr ⟨by omega, char_le.mp h.2⟩) (by decide) (by decide)
  | letter l upper => exact intelSuffix_letter l upper hvalid hrest

theorem constSuffix_text (k : Constant) (hrest : Ends rest) :
    constSuffix (k.text ++ rest) (k.mark.back ++ rest) = rest := by
  rw [constSuffix, intelSuffix_text k hrest]
  cases k.mark <;> rfl

/-- The first digit of a constant that starts with its digits is decimal. -/
theorem isdigit_head (hmark : k.mark.front = []) : ∀ c ∈ k.digits.head?, isdigit c = true := by
  intro c hc
  obtain ⟨mark, digits, hne, hvalid, hhead⟩ := k
  cases mark with
  | plain => exact isdigit_of_digit? (show 10 ≤ 10 by decide) (hvalid c (List.mem_of_head? hc))
  | letter l upper => exact hhead l upper rfl c hc
  | _ => exact absurd hmark (List.cons_ne_nil _ _)

/-- **The mark of a constant is recognized.** -/
theorem constPrefix_text (k : Constant) (hoct : ¬k.Octal) (hrest : Ends rest) :
    constPrefix (k.text ++ rest) = (k.mark.base, k.digits ++ (k.mark.back ++ rest)) := by
  have hsuffix := intelSuffix_text k hrest
  have hhead := @isdigit_head k
  rw [text_append] at hsuffix ⊢
  rcases k with ⟨mark, _ | ⟨d, ds⟩, hne, hvalid, hh⟩
  · exact absurd rfl hne
  have hx : isxdigit d = true := isxdigit_of_digit? (hvalid d List.mem_cons_self)
  cases mark with
  | plain =>
    have hd : isdigit d = true := hhead rfl d rfl
    have hzero : d ≠ '0' := fun h => hoct ⟨rfl, congrArg some h⟩
    have hhash : ¬((ds ++ rest).head? = some '#' ∧ '2' ≤ d ∧ d ≤ '9') := by
      rintro ⟨hc, -⟩
      cases ds with
      | nil => exact (hrest '#' hc).2.2 rfl
      | cons c ds =>
        obtain rfl := Option.some_inj.mp hc
        have hdigit := hvalid '#' (List.mem_cons_of_mem d List.mem_cons_self)
        exact absurd hdigit (by decide)
    show constPrefix (d :: (ds ++ rest)) = _
    replace hsuffix : intelSuffix (d :: (ds ++ rest)) = none := hsuffix
    rw [constPrefix, if_pos hd, hsuffix]
    dsimp only
    rw [if_neg hzero, if_neg hhash]
    rfl
  | dollar =>
    show constPrefix ('$' :: d :: (ds ++ rest)) = _
    rw [constPrefix, if_neg (by decide), if_pos rfl]
    exact if_pos hx
  | percent => rfl
  | atSign => rfl
  | zeroX upper =>
    show constPrefix ('0' :: (if upper then 'X' else 'x') :: (d :: (ds ++ rest))) = _
    replace hsuffix : intelSuffix ('0' :: (if upper then 'X' else 'x') :: (d :: (ds ++ rest)))
      = none := hsuffix
    rw [constPrefix, if_pos (by decide), hsuffix]
    cases upper <;> rfl
  | zeroB upper =>
    show constPrefix ('0' :: (if upper then 'B' else 'b') :: (d :: (ds ++ rest))) = _
    replace hsuffix : intelSuffix ('0' :: (if upper then 'B' else 'b') :: (d :: (ds ++ rest)))
      = none := hsuffix
    rw [constPrefix, if_pos (by decide), hsuffix]
    cases upper <;> rfl
  | hash b h =>
    have hlo : 50 ≤ b.toNat := char_le.mp h.1
    have hb : isdigit b = true := isdigit_iff.mpr ⟨by omega, char_le.mp h.2⟩
    have hzero : b ≠ '0' := by
      rintro rfl
      exact absurd hlo (by decide)
    show constPrefix (b :: '#' :: (d :: (ds ++ rest))) = _
    replace hsuffix : intelSuffix (b :: '#' :: (d :: (ds ++ rest))) = none := hsuffix
    rw [constPrefix, if_pos hb, hsuffix]
    dsimp only
    rw [if_neg hzero]
    exact if_pos ⟨rfl, h⟩
  | letter l upper =>
    have hd : isdigit d = true := hhead rfl d rfl
    show constPrefix (d :: (ds ++ l.char upper :: rest)) = _
    replace hsuffix : intelSuffix (d :: (ds ++ l.char upper :: rest)) = some l.base := hsuffix
    rw [constPrefix, if_pos hd, hsuffix]
    rfl

/-- No digit follows the digits of a constant. -/
theorem stops_back (m : Mark) (hrest : Ends rest) : Stops m.base (m.back ++ rest) := by
  have hends : ∀ base, Stops base rest := fun base c hc =>
    Option.not_isSome_iff_eq_none.mp fun h =>
      Bool.eq_false_iff.mp (hrest.isxdigit c hc) (isxdigit_of_digit? h)
  cases m with
  | letter l upper =>
    intro c hc
    obtain rfl := Option.some_inj.mp hc
    cases l <;> cases upper <;> decide
  | _ => exact hends _

/-- A decimal constant that starts with a zero is taken for an octal one. -/
theorem constPrefix_octal (hoct : k.Octal) (hrest : Ends rest) :
    constPrefix (k.text ++ rest) = (8, k.digits ++ rest) := by
  have hsuffix := intelSuffix_text k hrest
  obtain ⟨hmark, hzero⟩ := hoct
  have hvalid := k.valid
  have htext : k.text ++ rest = k.digits ++ rest := by
    rw [text_append, hmark]
    rfl
  rw [hmark] at hsuffix hvalid
  rw [htext] at hsuffix ⊢
  obtain ⟨ds, hds⟩ := List.head?_eq_some_iff.mp hzero
  have hnext : ∀ c ∈ (ds ++ rest).head?, isalpha c = false := by
    intro c hc
    cases ds with
    | nil => exact (hrest c hc).2.1
    | cons d ds =>
      obtain rfl := Option.some_inj.mp hc
      have hd := hvalid d (by rw [hds]; exact List.mem_cons_of_mem _ List.mem_cons_self)
      have hrange := isdigit_iff.mp (isdigit_of_digit? (show 10 ≤ 10 by decide) hd)
      refine Bool.eq_false_iff.mpr fun ha => ?_
      have := isalpha_iff.mp ha
      omega
  have hno : ∀ d, isalpha d = true → (ds ++ rest).head? ≠ some d := fun d hd h =>
    Bool.eq_false_iff.mp (hnext d h) hd
  rw [hds, List.cons_append] at hsuffix ⊢
  rw [constPrefix, if_pos (by decide), hsuffix]
  dsimp only
  rw [if_pos rfl, if_neg (not_or.mpr ⟨hno _ (by decide), hno _ (by decide)⟩),
    if_neg (not_or.mpr ⟨hno _ (by decide), hno _ (by decide)⟩)]

/-- The digits that are there, where the mark was recognized. -/
theorem readConstant_eq {base : ℕ} {s m : List Char} (hmarked : constPrefix s = (base, m))
    (hbase : IsBase base) (hminus : s ≠ '$' :: '-' :: m) :
    readConstant s = match readDigits base 0 m with
      | none => .huge
      | some (val, t) =>
        if t.length = m.length then .expected base m else .num val (constSuffix s t) := by
  have hpos : base ≠ 0 := fun h => absurd hbase.1 (by rw [h]; decide)
  rw [readConstant, hmarked]
  dsimp only
  rw [if_neg hpos]
  simp only [if_neg hminus]

/-- No documented constant has a minus sign in it. -/
theorem text_ne (k : Constant) (rest : List Char) :
    k.text ++ rest ≠ '$' :: '-' :: (k.digits ++ (k.mark.back ++ rest)) := by
  rw [text_append]
  intro h
  have hfront : k.mark.front = ['$', '-'] := List.append_cancel_right h
  cases hmark : k.mark <;> rw [hmark] at hfront <;> cases hfront

theorem length_ne (k : Constant) (t : List Char) : t.length ≠ (k.digits ++ t).length := by
  have hpos : 0 < k.digits.length := List.length_pos_iff.mpr k.ne
  rw [List.length_append]
  omega

theorem readConstant_some {val : Taddr} {t : List Char} (k : Constant) (hoct : ¬k.Octal)
    (hrest : Ends rest)
    (hread : readDigits k.mark.base 0 (k.digits ++ (k.mark.back ++ rest)) = some (val, t)) :
    readConstant (k.text ++ rest) = .num (BitVec.ofNat 32 k.value) rest := by
  obtain ⟨rfl, rfl⟩ :=
    readDigits_mod (n := 0) k.mark.isBase k.valid (stops_back k.mark hrest) hread
  rw [readConstant_eq (constPrefix_text k hoct hrest) k.mark.isBase (text_ne k rest), hread]
  dsimp only
  rw [if_neg (length_ne k _), constSuffix_text k hrest]
  rfl

/-- What fits is read. -/
theorem readConstant_fits (k : Constant) (hoct : ¬k.Octal) (hfits : k.value < 2 ^ 32)
    (hrest : Ends rest) :
    readConstant (k.text ++ rest) = .num (BitVec.ofNat 32 k.value) rest :=
  readConstant_some k hoct hrest
    (readDigits_fits (n := 0) k.mark.isBase k.valid (stops_back k.mark hrest) hfits)

/-- A digit of an octal number. -/
def isOctal (c : Char) : Bool := (digit? 8 c).isSome

theorem isOctal_iff {c : Char} : isOctal c = true ↔ 48 ≤ c.toNat ∧ c.toNat ≤ 55 := by
  refine ⟨fun h => ?_, fun h => ?_⟩
  · obtain ⟨h0, hlt⟩ := toNat_of_digit? (show 8 ≤ 10 by decide) h
    exact ⟨h0, by omega⟩
  · unfold isOctal digit?
    rw [if_pos (show 8 ≤ 10 by decide), if_pos ⟨char_le.mpr h.1, Nat.lt_succ_of_le h.2⟩]
    rfl

section Octal

variable {n : ℕ} {ds : List Char}

/-- A decimal number below eight is octal as well. -/
theorem octal_of_lt (h : Digits 10 ds) (hlt : number 10 n ds < 8) :
    (∀ c ∈ ds, isOctal c = true) ∧ number 8 n ds = number 10 n ds := by
  induction ds generalizing n with
  | nil => exact ⟨fun _ hc => absurd hc List.not_mem_nil, rfl⟩
  | cons c ds ih =>
    have hle : 10 * n + xdigit c ≤ number 10 (10 * n + xdigit c) ds := le_number (by decide)
    obtain ⟨hoctal, heq⟩ := ih h.tail hlt
    rw [number_cons] at hlt ⊢
    obtain rfl : n = 0 := by omega
    have hc := isdigit_iff.mp
      (isdigit_of_digit? (show 10 ≤ 10 by decide) (h c List.mem_cons_self))
    have hval : xdigit c = c.toNat - 48 := xdigit_of_isdigit (isdigit_iff.mpr hc)
    exact ⟨List.forall_mem_cons.mpr ⟨isOctal_iff.mpr ⟨hc.1, by omega⟩, hoctal⟩, heq⟩

/-- From eight on it is less. -/
theorem octal_lt (h : ∀ c ∈ ds, isOctal c = true) (hn : n < 8) (hge : 8 ≤ number 10 n ds) :
    number 8 n ds < number 10 n ds := by
  induction ds generalizing n with
  | nil => exact absurd hn (Nat.not_lt.mpr hge)
  | cons c ds ih =>
    obtain ⟨hc, hds⟩ := List.forall_mem_cons.mp h
    have hrange := isOctal_iff.mp hc
    have hval : xdigit c = c.toNat - 48 :=
      xdigit_of_isdigit (isdigit_iff.mpr ⟨hrange.1, by omega⟩)
    rw [number_cons] at hge ⊢
    rw [number_cons]
    by_cases hzero : n = 0
    · subst hzero
      exact ih hds (by omega) hge
    · exact number_lt (by decide) (by decide) (by omega)

end Octal

/-- The octal digits in front are no more than all of them. -/
theorem number_takeWhile_le (ds : List Char) :
    number 8 0 (ds.takeWhile isOctal) ≤ number 10 0 ds := by
  have hsplit : number 10 0 ds = number 10 (number 10 0 (ds.takeWhile isOctal))
      (ds.dropWhile isOctal) := by
    rw [← number_append, List.takeWhile_append_dropWhile]
  rw [hsplit]
  exact Nat.le_trans (number_mono (by decide) (Nat.le_refl 0)) (le_number (by decide))

/-- Behind them there is none. -/
theorem stops_dropWhile (ds : List Char) (hrest : Ends rest) :
    Stops 8 (ds.dropWhile isOctal ++ rest) := by
  have hnone : ∀ c, isOctal c = false → digit? 8 c = none := fun c hc =>
    Option.not_isSome_iff_eq_none.mp (Bool.eq_false_iff.mp hc)
  intro c hc
  cases hns : ds.dropWhile isOctal with
  | nil =>
    rw [hns] at hc
    refine hnone c (Bool.eq_false_iff.mpr fun h => ?_)
    exact Bool.eq_false_iff.mp (hrest.isxdigit c hc) (isxdigit_of_digit? h)
  | cons d ns =>
    rw [hns] at hc
    obtain rfl := Option.some_inj.mp hc
    have hhead := List.head?_dropWhile_not isOctal ds
    rw [hns] at hhead
    exact hnone d hhead

/-- What is read of such a constant. -/
theorem readConstant_octal (hoct : k.Octal) (hrest : Ends rest) (hfits : k.value < 2 ^ 32) :
    readConstant (k.text ++ rest) = .num
      (BitVec.ofNat 32 (number 8 0 (k.digits.takeWhile isOctal)))
      (k.digits.dropWhile isOctal ++ rest) := by
  obtain ⟨hmark, hzero⟩ := id hoct
  have htext : k.text ++ rest = k.digits ++ rest := by
    rw [text_append, hmark]
    rfl
  have hsplit : k.digits ++ rest
      = k.digits.takeWhile isOctal ++ (k.digits.dropWhile isOctal ++ rest) := by
    rw [← List.append_assoc, List.takeWhile_append_dropWhile]
  have hlength : (k.digits ++ rest).length
      = (k.digits.takeWhile isOctal).length + (k.digits.dropWhile isOctal ++ rest).length := by
    rw [hsplit, List.length_append]
  have hlt : number 8 0 (k.digits.takeWhile isOctal) < 2 ^ 32 := by
    refine Nat.lt_of_le_of_lt (number_takeWhile_le k.digits) ?_
    rw [value, hmark] at hfits
    exact hfits
  have hpos : 0 < (k.digits.takeWhile isOctal).length := by
    obtain ⟨ds, hds⟩ := List.head?_eq_some_iff.mp hzero
    rw [hds, List.takeWhile_cons_of_pos (by decide)]
    exact Nat.succ_pos _
  have hminus : k.text ++ rest ≠ '$' :: '-' :: (k.digits ++ rest) := by
    rw [htext]
    intro h
    have hlen := congrArg List.length h
    rw [List.length_cons, List.length_cons] at hlen
    omega
  have hoctal : Digits 8 (k.digits.takeWhile isOctal) := fun c hc =>
    List.mem_takeWhile_imp (p := isOctal) hc
  have hread := readDigits_fits (n := 0) (by decide) hoctal (stops_dropWhile k.digits hrest) hlt
  have hsuffix := intelSuffix_text k hrest
  rw [hmark] at hsuffix
  rw [← hsplit] at hread
  rw [readConstant_eq (constPrefix_octal hoct hrest) (by decide) hminus,
    show readDigits 8 0 (k.digits ++ rest) = _ from hread]
  dsimp only
  rw [if_neg (by omega), constSuffix, hsuffix]
  rfl

/-- **A decimal constant that starts with a zero** is read in octal, up to the first digit that
is not octal. It is read as its value only if that is less than eight. -/
theorem constant_octal (k : Constant) (hoct : k.Octal) (hfits : k.value < 2 ^ 32)
    (hrest : Ends rest) :
    readConstant (k.text ++ rest) = .num
        (BitVec.ofNat 32 (number 8 0 (k.digits.takeWhile isOctal)))
        (k.digits.dropWhile isOctal ++ rest)
      ∧ (readConstant (k.text ++ rest) = .num (BitVec.ofNat 32 k.value) rest ↔ k.value < 8) := by
  have hread := readConstant_octal hoct hrest hfits
  obtain ⟨hmark, -⟩ := hoct
  have hvalue : k.value = number 10 0 k.digits := by
    rw [value, hmark]
    rfl
  have hvalid : Digits 10 k.digits := by
    have h := k.valid
    rwa [hmark] at h
  rw [hvalue] at hfits ⊢
  refine ⟨hread, ?_⟩
  rw [hread]
  constructor
  · intro h
    obtain ⟨hval, hdrop⟩ := Reading.num.inj h
    have hoctal : ∀ c ∈ k.digits, isOctal c = true :=
      List.dropWhile_eq_nil_iff.mp (List.append_left_eq_self.mp hdrop)
    rw [List.takeWhile_eq_self_iff.mpr hoctal] at hval
    by_contra hge
    have hless := octal_lt (n := 0) hoctal (by decide) (Nat.le_of_not_lt hge)
    have heq := congrArg BitVec.toNat hval
    rw [BitVec.toNat_ofNat, BitVec.toNat_ofNat, Nat.mod_eq_of_lt (hless.trans hfits),
      Nat.mod_eq_of_lt hfits] at heq
    exact absurd heq hless.ne
  · intro hlt
    obtain ⟨hoctal, heq⟩ := octal_of_lt (n := 0) hvalid hlt
    rw [List.takeWhile_eq_self_iff.mpr hoctal, List.dropWhile_eq_nil_iff.mpr hoctal, heq]
    rfl

/-- `$fb2c` -/
def fb2c : Constant := ⟨.dollar, ['f', 'b', '2', 'c'], by decide, by decide, nofun⟩

/-- What does not fit may be read all the same. -/
example : readConstant "4294967296".toList = .num 0 [] := by decide

/-- `010` -/
def ten : Constant := ⟨.plain, ['0', '1', '0'], by decide, by decide, nofun⟩

/-- It is not ten. -/
theorem ten_octal : readConstant "010".toList = .num 8 []
    ∧ readConstant "010".toList ≠ .num 10 [] := by
  have hends : Ends [] := fun c hc => absurd hc (by simp)
  have hvalue : ten.value = 10 := by decide
  obtain ⟨hread, hiff⟩ := constant_octal ten ⟨rfl, rfl⟩ (by rw [hvalue]; omega) hends
  rw [hvalue] at hiff
  exact ⟨hread, fun h => absurd (hiff.mp h) (by decide)⟩

end Constant

end Vasm
