import Eater6502.VasmNumber
import Mathlib.Data.List.DropRight
import Mathlib.Tactic.IntervalCases

/-!
# The parser of expressions

An expression is read by a function for each level of priority (`shift_expr` to
`expression`), which reads what binds stronger and then goes on to the right as long as there
is an operator of its level. Each operator of the manual is found at its level (`nextAt_text`)
and at none above (`nextAt_higher`), if no other sign makes a different one of it.

A constant that is too large for a target address is not modelled any further, nor is a local
label with a `$` behind it, nor a character that is missing at the end of the line.
-/

namespace Vasm

/-! ## Symbols -/

/-- The name of a symbol. -/
abbrev Name := List Char

/-- What is known of the symbols. -/
structure Symbols where
  /-- Those that are expressions. -/
  expr : Name → Option (Expr Name)
  /-- The last global label, to which the local ones belong. -/
  lastGlobal : Name
  /-- The number of anonymous labels. -/
  anonLabno : BitVec 32

/-- The expression for a symbol. -/
def Symbols.tree (sym : Symbols) (n : Name) : Expr Name := (sym.expr n).getD (.label n)

def isIdStart (c : Char) : Bool := c == '.' || c == '_' || isalpha c

def isIdChar (c : Char) : Bool := isdigit c || isalpha c || c == '_'

def skip (s : List Char) : List Char := s.dropWhile isspace

/-- Blanks are skipped, and the rest of the line if it is a comment. -/
def expSkip (s : List Char) : List Char :=
  if (skip s).head? = some ';' then [] else skip s

/-- An identifier, and what follows it. -/
def skipIdentifier : List Char → Option (Name × List Char)
  | [] => none
  | c :: s =>
    let n := c :: s.takeWhile isIdChar
    if isIdStart c && n != ['.'] && n != ['_'] then some (n, s.dropWhile isIdChar) else none

/-- An identifier that may start with a digit. -/
def skipLocal : List Char → Option (Name × List Char)
  | [] => none
  | c :: s =>
    if isIdStart c || isdigit c then some (c :: s.takeWhile isIdChar, s.dropWhile isIdChar)
    else none

def makeLocalLabel (glob loc : Name) : Name := ' ' :: (glob ++ ' ' :: loc)

/-- The number of an anonymous label, from the signs behind the colon. -/
def anonymous (labno : BitVec 32) : List Char → BitVec 32
  | [] => labno
  | c :: cs =>
    cs.foldl (fun refno c => if c = '+' then refno + 1 else refno - 1)
      (if c = '+' then labno + 1 else labno)

/-- A local label, and what follows it. One with a `$` behind it is not modelled. -/
def getLocalLabel (sym : Symbols) (s : List Char) : Option (Option (Name × List Char)) :=
  match skipLocal s with
  | some (n, t) =>
    let dotted := s.head? = some '.'
    if t.head? = some '.' ∧ t.tail.head?.any isIdChar ∧ ¬dotted ∧ s.head?.any isIdStart then
      some ((skipLocal t).map fun (l, u) => (makeLocalLabel n l, skip u))
    else if 1 < n.length ∧ dotted then some (some (makeLocalLabel sym.lastGlobal n, skip t))
    else if t.head? = some '$' then none
    else some none
  | none =>
    let signs := s.tail.takeWhile fun c => c == '+' || c == '-'
    if s.head? = some ':' ∧ signs ≠ [] then
      some (some (makeLocalLabel [':'] (Nat.toDigits 10 (anonymous sym.anonLabno signs).toNat),
        skip (s.tail.drop signs.length)))
    else some none

/-! ## Primary expressions -/

/-- What has been read. -/
structure Result where
  tree : Expr Name
  rest : List Char
  complaints : List Complaint

/-- A function that reads an expression. -/
abbrev Reader := List Char → Option Result

/-- A character constant, behind its quote: a second character is read only if it is a quote,
and one more is too many. -/
def charConst (quote : Char) :
    ℕ → Taddr → ℕ → List Char → Option (Taddr × List Char × List Complaint)
  | _, _, _, [] => none
  | left, val, shift, c :: s =>
    if c = quote ∧ s.head? ≠ some quote then some (val, s, [])
    else
      let s := if c = quote then s.tail else s
      match left with
      | 0 => some (val, s, [.general 21])
      | left + 1 =>
        let val := val + (BitVec.ofNat 32 c.toNat <<< shift)
        if s.head? ≠ some quote then some (val, s, []) else charConst quote left val (shift + 8) s

/-- The current address, a symbol or a character constant. -/
def symbolExpr (sym : Symbols) (s : List Char) : Option Result :=
  if s.head? = some '*' ∧ ¬s.tail.head?.any isIdChar then some ⟨.curpc, expSkip s.tail, []⟩
  else
    match skipIdentifier s with
    | some (n, t) => some ⟨sym.tree n, expSkip t, []⟩
    | none =>
      if s.head? = some '\'' ∨ s.head? = some '"' then
        (charConst (s.headD ' ') 2 0 0 s.tail).map fun (val, t, cs) => ⟨.num val, expSkip t, cs⟩
      else some ⟨.num (-1), s, [.general 9]⟩

/-- A constant, or one of these. -/
def constantExpr (sym : Symbols) (s : List Char) : Option Result :=
  match readConstant s with
  | .huge => none
  | .expected _ m => some ⟨.num (-1), m, [.general 75]⟩
  | .num val t => some ⟨.num val, expSkip t, []⟩
  | .absent m => symbolExpr sym m

/-- What binds strongest (`primary_expr`). -/
def primaryExpr (sym : Symbols) (expression : Reader) (s : List Char) : Option Result :=
  if s.head? = some '(' then
    (expression (expSkip s.tail)).map fun r =>
      if r.rest.head? = some ')' then ⟨r.tree, expSkip r.rest.tail, r.complaints⟩
      else ⟨r.tree, expSkip r.rest, r.complaints ++ [.general 6]⟩
  else
    match getLocalLabel sym s with
    | none => none
    | some (some (n, t)) => some ⟨sym.tree n, t, []⟩
    | some none => constantExpr sym s

/-- An operator in front, of which there is one at most. -/
def unaryExpr (primary : Reader) (s : List Char) : Option Result :=
  let apply (op : Unary) := (primary (expSkip s.tail)).map fun r =>
    ⟨.unary op r.tree, r.rest, r.complaints⟩
  match s.head? with
  | some '+' => primary (expSkip s.tail)
  | some '-' => apply .NEG
  | some '!' => apply .NOT
  | some '~' => apply .CPL
  | _ => primary s

/-! ## Levels -/

/-- What a level makes of a text that goes on with one of its operators: the operator, and
what is behind it. A level may remember something. -/
abbrev Next := Bool → List Char → Option (Binary × Bool × List Char)

/-- As long as there are operators of a level, they are applied from the left. -/
def chain (next : Next) (operand : Reader) : ℕ → Bool → Result → Option Result
  | 0, _, _ => none
  | n + 1, m, r =>
    match next m r.rest with
    | none => some r
    | some (op, m, s) => (operand s).bind fun q =>
      chain next operand n m
        ⟨.binary op r.tree q.tree, expSkip q.rest, r.complaints ++ q.complaints⟩

/-- **A level of priority.** -/
def leftAssoc (next : Next) (operand : Reader) (n : ℕ) (s : List Char) : Option Result :=
  (operand s).bind fun r => chain next operand n false ⟨r.tree, expSkip r.rest, r.complaints⟩

/-- An operator of a level that remembers nothing. -/
def found (op : Binary) (m : Bool) (s : List Char) : Option (Binary × Bool × List Char) :=
  some (op, m, expSkip s)

def shiftOp : Next
  | m, '<' :: '<' :: s => found .LSH m s
  | m, '>' :: '>' :: s => found .RSH m s
  | _, _ => none

def andOp : Next
  | m, '&' :: s => if s.head? = some '&' then none else found .BAND m s
  | _, _ => none

def exclusiveOrOp : Next
  | m, '^' :: s => found .XOR m s
  | m, '~' :: s => found .XOR m s
  | _, _ => none

def inclusiveOrOp : Next
  | m, '|' :: s => if s.head? = some '|' then none else found .BOR m s
  | m, '!' :: s => if s.head? = some '=' then none else found .BOR m s
  | _, _ => none

/-- Blanks are not skipped behind `//`. -/
def multiplicativeOp : Next
  | m, '*' :: s => found .MUL m s
  | m, '%' :: s => found .MOD m s
  | m, '/' :: s =>
    if (expSkip s).head? = some '/' then some (.MOD, m, (expSkip s).tail) else found .DIV m s
  | _, _ => none

def additiveOp : Next
  | m, '+' :: s => if s.head? = some '+' then none else found .ADD m s
  | m, '-' :: s => if s.head? = some '-' then none else found .SUB m s
  | _, _ => none

/-- The equals sign of a comparison is not forgotten for those that follow. -/
def relationalOp : Next
  | m2, '<' :: s =>
    if s.head? = some '>' ∨ s.head? = some '<' then none
    else if s.head? = some '=' then found .LEQ true s.tail
    else found (if m2 then .LEQ else .LT) m2 s
  | m2, '>' :: s =>
    if s.head? = some '>' then none
    else if s.head? = some '=' then found .GEQ true s.tail
    else found (if m2 then .GEQ else .GT) m2 s
  | _, _ => none

def equalityOp : Next
  | m, '=' :: s => if s.head? = some '=' then found .EQ m s.tail else found .EQ m s
  | m, '!' :: '=' :: s => found .NEQ m s
  | m, '<' :: '>' :: s => found .NEQ m s
  | _, _ => none

def logicalAndOp : Next
  | m, '&' :: '&' :: s => found .LAND m s
  | _, _ => none

def logicalOrOp : Next
  | m, '|' :: '|' :: s => found .LOR m s
  | _, _ => none

section Levels

variable (primary : Reader) (n : ℕ)

def shiftExpr : Reader := leftAssoc shiftOp (unaryExpr primary) n
def andExpr : Reader := leftAssoc andOp (shiftExpr primary n) n
def exclusiveOrExpr : Reader := leftAssoc exclusiveOrOp (andExpr primary n) n
def inclusiveOrExpr : Reader := leftAssoc inclusiveOrOp (exclusiveOrExpr primary n) n
def multiplicativeExpr : Reader := leftAssoc multiplicativeOp (inclusiveOrExpr primary n) n
def additiveExpr : Reader := leftAssoc additiveOp (multiplicativeExpr primary n) n
def relationalExpr : Reader := leftAssoc relationalOp (additiveExpr primary n) n
def equalityExpr : Reader := leftAssoc equalityOp (relationalExpr primary n) n
def logicalAndExpr : Reader := leftAssoc logicalAndOp (equalityExpr primary n) n
def logicalOrExpr : Reader := leftAssoc logicalOrOp (logicalAndExpr primary n) n

end Levels

/-- **An expression**, with something to spend on its parentheses and operators. -/
def expression (sym : Symbols) : ℕ → Reader
  | 0, _ => none
  | n + 1, s => logicalOrExpr (primaryExpr sym (expression sym n)) (n + 1) s

/-- **An expression is parsed.** -/
def parseExpr (sym : Symbols) (s : List Char) : Option Result :=
  (expression sym (s.length + 1) s).map fun r =>
    ⟨r.tree.simplify, r.rest, r.complaints ++ r.tree.simplifyComplaints⟩

/-! ## The grammar of the manual -/

/-- The operators with two operands, as they are written. -/
inductive Operator where
  | shl
  | shr
  | amp
  | caret
  | tilde
  | bar
  | bang
  | star
  | slash
  | percent
  | slashes
  | plus
  | minus
  | lt
  | gt
  | le
  | ge
  | eqs
  | eq
  | ne
  | ltgt
  | amps
  | bars
  deriving Repr, DecidableEq

namespace Operator

def text : Operator → List Char
  | shl => ['<', '<']
  | shr => ['>', '>']
  | amp => ['&']
  | caret => ['^']
  | tilde => ['~']
  | bar => ['|']
  | bang => ['!']
  | star => ['*']
  | slash => ['/']
  | percent => ['%']
  | slashes => ['/', '/']
  | plus => ['+']
  | minus => ['-']
  | lt => ['<']
  | gt => ['>']
  | le => ['<', '=']
  | ge => ['>', '=']
  | eqs => ['=', '=']
  | eq => ['=']
  | ne => ['!', '=']
  | ltgt => ['<', '>']
  | amps => ['&', '&']
  | bars => ['|', '|']

/-- The priority, from the lowest one. -/
def level : Operator → ℕ
  | shl | shr => 9
  | amp => 8
  | caret | tilde => 7
  | bar | bang => 6
  | star | slash | percent | slashes => 5
  | plus | minus => 4
  | lt | gt | le | ge => 3
  | eqs | eq | ne | ltgt => 2
  | amps => 1
  | bars => 0

def op : Operator → Binary
  | shl => .LSH
  | shr => .RSH
  | amp => .BAND
  | caret | tilde => .XOR
  | bar | bang => .BOR
  | star => .MUL
  | slash => .DIV
  | percent | slashes => .MOD
  | plus => .ADD
  | minus => .SUB
  | lt => .LT
  | gt => .GT
  | le => .LEQ
  | ge => .GEQ
  | eqs | eq => .EQ
  | ne | ltgt => .NEQ
  | amps => .LAND
  | bars => .LOR

/-- What it is taken for, if there was an equals sign in the comparison before. -/
def taken (o : Operator) (m2 : Bool) : Binary :=
  match o with
  | lt => if m2 then .LEQ else .LT
  | gt => if m2 then .GEQ else .GT
  | o => o.op

/-- Whether there is one now. -/
def sticks (o : Operator) (m2 : Bool) : Bool :=
  match o with
  | le | ge => true
  | _ => m2

/-- What is between an operator and its operand: two signs need a blank, and behind `//` there
must be none. -/
def Spaced (o : Operator) (b v : List Char) : Prop :=
  match o with
  | plus => b = [] → v.head? ≠ some '+'
  | minus => b = [] → v.head? ≠ some '-'
  | slashes => b = []
  | _ => True

end Operator

/-- The operators of a level. -/
def nextAt : ℕ → Next
  | 0 => logicalOrOp
  | 1 => logicalAndOp
  | 2 => equalityOp
  | 3 => relationalOp
  | 4 => additiveOp
  | 5 => multiplicativeOp
  | 6 => inclusiveOrOp
  | 7 => exclusiveOrOp
  | 8 => andOp
  | _ => shiftOp

/-- The readers, from the lowest level on. -/
def levelExpr (primary : Reader) (n : ℕ) : ℕ → Reader
  | 0 => logicalOrExpr primary n
  | 1 => logicalAndExpr primary n
  | 2 => equalityExpr primary n
  | 3 => relationalExpr primary n
  | 4 => additiveExpr primary n
  | 5 => multiplicativeExpr primary n
  | 6 => inclusiveOrExpr primary n
  | 7 => exclusiveOrExpr primary n
  | 8 => andExpr primary n
  | 9 => shiftExpr primary n
  | 10 => unaryExpr primary
  | _ => primary

theorem levelExpr_eq (primary : Reader) (n : ℕ) {k : ℕ} (hk : k < 10) :
    levelExpr primary n k = leftAssoc (nextAt k) (levelExpr primary n (k + 1)) n := by
  match k with
  | 0 | 1 | 2 | 3 | 4 | 5 | 6 | 7 | 8 | 9 => rfl

/-- Some blanks. -/
def Blanks (b : List Char) : Prop := ∀ c ∈ b, isspace c = true

instance (b : List Char) : Decidable (Blanks b) :=
  List.decidableBAll (fun c => isspace c = true) b

/-- A text that begins with an operand. -/
def Begins (v : List Char) : Prop :=
  ∃ c s, v = c :: s ∧ isspace c = false ∧ c ∉ [';', '<', '>', '=', '&', '|', '/']

/-- A text in which nothing goes on that is before it. -/
def EndsToken (rest : List Char) : Prop :=
  ∀ c ∈ rest.head?, isspace c = true ∨ c ∈ [')', ']', ',', ';', '<', '>', '&', '^', '~', '|', '!',
    '*', '/', '%', '+', '-', '=']

/-- No operator of a level follows, nor one of a higher one. -/
def Closes (k : ℕ) (rest : List Char) : Prop :=
  ∀ j m, k ≤ j → j < 10 → nextAt j m (expSkip rest) = none

section Operators

variable {o : Operator} {b v rest : List Char} {m : Bool} {j k : ℕ}

/-- What is checked for some signs holds for each of them. -/
theorem forall_signs {p : Char → Prop} [DecidablePred p] {l : List Char}
    (h : l.all (fun c => p c) = true) : ∀ c ∈ l, p c :=
  fun c hc => of_decide_eq_true (List.all_eq_true.mp h c hc)

theorem Blanks.skip_append (hb : Blanks b) (v : List Char) : skip (b ++ v) = skip v :=
  List.dropWhile_append_of_pos hb

theorem expSkip_blanks (hb : Blanks b) (v : List Char) : expSkip (b ++ v) = expSkip v := by
  unfold expSkip
  rw [hb.skip_append]

theorem Begins.expSkip_eq (hv : Begins v) : expSkip v = v := by
  obtain ⟨c, s, rfl, hc, hno⟩ := hv
  have hskip : skip (c :: s) = c :: s := List.dropWhile_cons_of_neg (by rw [hc]; decide)
  unfold expSkip
  rw [hskip]
  refine if_neg fun h => hno ?_
  rw [Option.some_inj.mp h]
  exact List.mem_cons_self

theorem expSkip_expSkip (s : List Char) : expSkip (expSkip s) = expSkip s := by
  unfold expSkip
  split
  · rfl
  · rename_i h
    have hskip : skip (skip s) = skip s := List.dropWhile_idempotent isspace s
    rw [hskip, if_neg h]

/-- What is behind an operator. -/
theorem expSkip_operand (hb : Blanks b) (hv : Begins v) : expSkip (b ++ v) = v :=
  (expSkip_blanks hb v).trans hv.expSkip_eq

/-- It has none of the signs that would make another operator of it. -/
theorem head_operand (hb : Blanks b) (hv : Begins v) {c : Char}
    (hc : c ∈ ['<', '>', '=', '&', '|', '/']) : (b ++ v).head? ≠ some c := by
  intro h
  cases b with
  | nil =>
    obtain ⟨d, s, rfl, -, hno⟩ := hv
    rw [Option.some_inj.mp h] at hno
    exact hno (List.mem_cons_of_mem _ hc)
  | cons d b =>
    have hspace := hb d List.mem_cons_self
    rw [Option.some_inj.mp h] at hspace
    have hall : ∀ c ∈ ['<', '>', '=', '&', '|', '/'], isspace c = false :=
      forall_signs (by decide)
    rw [hall c hc] at hspace
    exact Bool.false_ne_true hspace

/-- Nor the same sign once more, where that matters. -/
theorem head_signs (hb : Blanks b) {c : Char} (hc : isspace c = false)
    (hspaced : b = [] → v.head? ≠ some c) : (b ++ v).head? ≠ some c := by
  intro h
  cases b with
  | nil => exact hspaced rfl h
  | cons d b =>
    have hspace := hb d List.mem_cons_self
    rw [Option.some_inj.mp h, hc] at hspace
    exact Bool.false_ne_true hspace

/-- **An operator is found at its level.** -/
theorem nextAt_text (hb : Blanks b) (hv : Begins v) (hspaced : o.Spaced b v) :
    nextAt o.level m (o.text ++ (b ++ v)) = some (o.taken m, o.sticks m, v) := by
  have hfound : ∀ op m, found op m (b ++ v) = some (op, m, v) := fun op m => by
    rw [found, expSkip_operand hb hv]
  have hno : ∀ {c}, c ∈ ['<', '>', '=', '&', '|', '/'] → (b ++ v).head? ≠ some c :=
    head_operand hb hv
  cases o with
  | shl | shr | caret | tilde | star | percent | eqs | ne | ltgt | amps | bars | le | ge =>
    exact hfound _ _
  | amp | bar | bang | eq => exact (if_neg (hno (by decide))).trans (hfound _ _)
  | slash =>
    refine (if_neg (show (expSkip (b ++ v)).head? ≠ some '/' from ?_)).trans (hfound _ _)
    rw [expSkip_operand hb hv]
    exact head_operand (b := []) (fun _ h => absurd h List.not_mem_nil) hv (by decide)
  | slashes =>
    obtain rfl : b = [] := hspaced
    rfl
  | plus | minus => exact (if_neg (head_signs hb rfl hspaced)).trans (hfound _ _)
  | lt =>
    refine (if_neg (not_or.mpr ⟨hno (by decide), hno (by decide)⟩)).trans ?_
    exact (if_neg (hno (by decide))).trans (hfound _ _)
  | gt =>
    exact (if_neg (hno (by decide))).trans ((if_neg (hno (by decide))).trans (hfound _ _))

/-- A sign of a comparison is no shift. -/
theorem shiftOp_single {c : Char} (hno : (b ++ v).head? ≠ some c) :
    shiftOp m (c :: (b ++ v)) = none := by
  generalize b ++ v = u at hno
  unfold shiftOp
  split
  · rename_i h
    obtain ⟨rfl, rfl⟩ := List.cons.inj h
    exact absurd rfl hno
  · rename_i h
    obtain ⟨rfl, rfl⟩ := List.cons.inj h
    exact absurd rfl hno
  · rfl

/-- **It is not found at a higher one.** -/
theorem nextAt_higher (hb : Blanks b) (hv : Begins v) (hj : o.level < j) (hj' : j < 10) :
    nextAt j m (o.text ++ (b ++ v)) = none := by
  have hno : ∀ {c}, c ∈ ['<', '>', '=', '&', '|', '/'] → (b ++ v).head? ≠ some c :=
    head_operand hb hv
  have hlt : shiftOp m ('<' :: (b ++ v)) = none := shiftOp_single (hno (by decide))
  have hgt : shiftOp m ('>' :: (b ++ v)) = none := shiftOp_single (hno (by decide))
  cases o <;> simp only [Operator.level] at hj <;> interval_cases j <;>
    first | rfl | exact hlt | exact hgt

end Operators

end Vasm
