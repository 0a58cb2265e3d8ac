import Mathlib.Data.Nat.Notation

/-!
# Lines of text and fields of lines

A text is divided into lines at each carriage return followed by a line feed,
and a line is read from left to right: a fixed text that must be there
(`expect`), then a field of a fixed number of characters (`field`), and so on.
Lines that contain no carriage return are recovered from their text
(`lines_unlines`), and what was written in fields is read back in them.
-/

namespace Text

/-- The end of a line. -/
def newline : List Char := ['\r', '\n']

/-- The complete lines of a text: what stands before each `\r\n`. -/
def lines : List Char → List (List Char)
  | [] => []
  | '\r' :: '\n' :: rest => [] :: lines rest
  | c :: rest =>
    match lines rest with
    | [] => []
    | l :: ls => (c :: l) :: ls

/-- Lines as a text. -/
def unlines (ls : List (List Char)) : List Char := ls.flatMap (· ++ newline)

@[simp] theorem unlines_append (ls ls' : List (List Char)) :
    unlines (ls ++ ls') = unlines ls ++ unlines ls' := List.flatMap_append

theorem lines_append {l : List Char} (hl : '\r' ∉ l) (rest : List Char) :
    lines (l ++ newline ++ rest) = l :: lines rest := by
  induction l with
  | nil => rfl
  | cons c l ih =>
    have hc : c ≠ '\r' := fun h => hl (h ▸ List.mem_cons_self)
    have hl' : '\r' ∉ l := fun h => hl (List.mem_cons_of_mem c h)
    rw [List.cons_append, List.cons_append, lines, ih hl']
    exact fun _ h _ => hc h

/-- Lines in front of a text are the first of its lines. -/
theorem lines_unlines_append {ls : List (List Char)} (h : ∀ l ∈ ls, '\r' ∉ l)
    (rest : List Char) : lines (unlines ls ++ rest) = ls ++ lines rest := by
  induction ls with
  | nil => rfl
  | cons l ls ih =>
    have hl := lines_append (h l List.mem_cons_self) (unlines ls ++ rest)
    rw [ih fun l' hl' => h l' (List.mem_cons_of_mem l hl'), ← List.append_assoc] at hl
    exact hl

/-- **Lines are recovered from their text.** -/
theorem lines_unlines {ls : List (List Char)} (h : ∀ l ∈ ls, '\r' ∉ l) :
    lines (unlines ls) = ls := by
  have hlines := lines_unlines_append h []
  rw [List.append_nil, lines, List.append_nil] at hlines
  exact hlines

/-- What stands behind a text, if a line begins with it. -/
def expect : List Char → List Char → Option (List Char)
  | [], l => some l
  | _ :: _, [] => none
  | c :: cs, d :: l => if c = d then expect cs l else none

/-- The first `n` characters of a line and what stands behind them. -/
def field (n : ℕ) (l : List Char) : Option (List Char × List Char) :=
  if n ≤ l.length then some (l.take n, l.drop n) else none

@[simp] theorem expect_append (cs l : List Char) : expect cs (cs ++ l) = some l := by
  induction cs with
  | nil => rfl
  | cons c cs ih =>
    rw [List.cons_append, expect, if_pos rfl, ih]

theorem field_append {n : ℕ} {d : List Char} (hd : d.length = n) (l : List Char) :
    field n (d ++ l) = some (d, l) := by
  rw [field, if_pos (by rw [List.length_append, hd]; exact Nat.le_add_right n _),
    List.take_left' hd, List.drop_left' hd]

end Text
