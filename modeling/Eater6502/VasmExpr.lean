import Mathlib.Data.Nat.Notation

/-!
# The expressions of the assembler

An operand of a listing is an expression of numbers, labels and the current address,
which the assembler keeps as a tree and evaluates again in every pass, when the labels
have moved (`eval`). All sections are absolute, so that an expression always has a
value.

When an expression is parsed, the assembler simplifies it once (`simplify`): what is
constant is folded, and `c - s - t`, where `c` is no symbol but `s` and `t` are, is
rearranged so that the symbols come together. Folding is harmless. The rearrangement is
not: it makes `c - (s - t)` of it, and `t` is counted with the wrong sign. What a
simplified expression evaluates to is what `misread` writes down, and that is the
expression itself if nothing is rearranged in it (`simplify_value`).
-/

namespace Vasm

/-- A target address, or any other value: `int32_t`. -/
abbrev Taddr := BitVec 32

/-- The operators with one operand. -/
inductive Unary where
  | NEG
  | CPL
  | NOT
  deriving Repr, DecidableEq

/-- The operators with two operands. -/
inductive Binary where
  | ADD
  | SUB
  | MUL
  | DIV
  | MOD
  | LAND
  | LOR
  | BAND
  | BOR
  | XOR
  | LSH
  | RSH
  | RSHU
  | LT
  | GT
  | LEQ
  | GEQ
  | NEQ
  | EQ
  deriving Repr, DecidableEq

/-- **An expression** over some labels. -/
inductive Expr (L : Type) where
  | num (val : Taddr)
  /-- A symbol that is a label of a section. -/
  | label (l : L)
  /-- The symbol for the current address. -/
  | curpc
  /-- A symbol that was equated with an expression. -/
  | equate (e : Expr L)
  | unary (op : Unary) (left : Expr L)
  | binary (op : Binary) (left right : Expr L)
  deriving Repr, DecidableEq

variable {L : Type}

/-! ## Evaluation -/

/-- A truth value. -/
def boolean (b : Bool) : Taddr := if b then -1 else 0

/-- The least value there is. -/
def taddrmin : Taddr := BitVec.intMin 32

/-- The number of bits of a value. -/
def bitspertaddr : Int := 32

/-- A shift by as many bits as there are gives nothing. A negative count, for which C
makes no promise, is read as an unsigned one. -/
def lshift (val sh : Taddr) : Taddr :=
  if bitspertaddr ≤ sh.toInt then 0 else val <<< sh

def rshift (val sh : Taddr) : Taddr :=
  if bitspertaddr ≤ sh.toInt then if val.toInt < 0 then -1 else 0 else val.sshiftRight' sh

def urshift (val sh : Taddr) : Taddr :=
  if bitspertaddr ≤ sh.toInt then 0 else val >>> sh

namespace Unary

def apply : Unary → Taddr → Taddr
  | NEG, lval => -lval
  | CPL, lval => ~~~lval
  | NOT, lval => boolean (lval == 0)

end Unary

namespace Binary

def apply : Binary → Taddr → Taddr → Taddr
  | ADD, lval, rval => lval + rval
  | SUB, lval, rval => lval - rval
  | MUL, lval, rval => lval * rval
  | DIV, lval, rval =>
    if rval = 0 then 0
    else if lval = taddrmin ∧ rval = -1 then taddrmin
    else lval.sdiv rval
  | MOD, lval, rval =>
    if rval = 0 then 0
    else if lval = taddrmin ∧ rval = -1 then taddrmin
    else lval.srem rval
  | LAND, lval, rval => boolean (lval != 0 && rval != 0)
  | LOR, lval, rval => boolean (lval != 0 || rval != 0)
  | BAND, lval, rval => lval &&& rval
  | BOR, lval, rval => lval ||| rval
  | XOR, lval, rval => lval ^^^ rval
  | LSH, lval, rval => lshift lval rval
  | RSH, lval, rval => rshift lval rval
  | RSHU, lval, rval => urshift lval rval
  | LT, lval, rval => boolean (lval.slt rval)
  | GT, lval, rval => boolean (rval.slt lval)
  | LEQ, lval, rval => boolean (lval.sle rval)
  | GEQ, lval, rval => boolean (rval.sle lval)
  | NEQ, lval, rval => boolean (lval != rval)
  | EQ, lval, rval => boolean (lval == rval)

end Binary

/-- What the assembler complains of, by the number of the message: it is one of the
processor's module, a general one, or an internal error. -/
inductive Complaint where
  | cpu (n : ℕ)
  | general (n : ℕ)
  | internal
  deriving Repr, DecidableEq

namespace Expr

/-- **The value of an expression** (`eval_expr`), the labels being where `env` says and
the current address being `pc`. -/
def eval (env : L → Taddr) (pc : Taddr) : Expr L → Taddr
  | num val => val
  | label l => env l
  | curpc => pc
  | equate e => e.eval env pc
  | unary op left => op.apply (left.eval env pc)
  | binary op left right => op.apply (left.eval env pc) (right.eval env pc)

/-- What is complained of when an expression is evaluated in the final pass. -/
def complaints (env : L → Taddr) (pc : Taddr) : Expr L → List Complaint
  | num _ | label _ | curpc => []
  | equate e => e.complaints env pc
  | unary _ left => left.complaints env pc
  | binary op left right =>
    left.complaints env pc ++ right.complaints env pc
      ++ if op = .DIV ∨ op = .MOD then
          -- division by zero; target data type overflow
          if right.eval env pc = 0 then [.general 41]
          else if left.eval env pc = taddrmin ∧ right.eval env pc = -1 then [.general 21]
          else []
        else []

/-- An expression that is a single symbol. -/
def isSym : Expr L → Bool
  | label _ | curpc | equate _ => true
  | _ => false

/-- The labels an expression is about. -/
def labels : Expr L → List L
  | num _ | curpc => []
  | label l => [l]
  | equate e => e.labels
  | unary _ left => left.labels
  | binary _ left right => left.labels ++ right.labels

/-- **The value of an expression depends on its labels only.** -/
theorem eval_congr {env env' : L → Taddr} {pc : Taddr} {e : Expr L}
    (h : ∀ l ∈ e.labels, env l = env' l) : e.eval env pc = e.eval env' pc := by
  induction e with
  | num => rfl
  | label l => exact h l List.mem_cons_self
  | curpc => rfl
  | equate e ih => exact ih h
  | unary op left ih => exact congrArg op.apply (ih h)
  | binary op left right ihl ihr =>
    show op.apply (left.eval env pc) (right.eval env pc) = _
    rw [ihl fun l hl => h l (List.mem_append_left _ hl),
      ihr fun l hl => h l (List.mem_append_right _ hl)]
    rfl

/-! ## Simplification -/

/-- An operator that is applied to constants. -/
def fold : Expr L → Expr L
  | unary op (num lval) => num (op.apply lval)
  | binary op (num lval) (num rval) => num (op.apply lval rval)
  | e => e

/-- `const - symbol - symbol`, as the assembler recognizes it. -/
def isConstSymSym : Expr L → Bool
  | binary .SUB (binary .SUB c s) t => !c.isSym && s.isSym && t.isSym
  | _ => false

/-- The nodes of such an expression rearranged, "so that symbol-symbol is evaluated
first". -/
def rearrange : Expr L → Expr L
  | binary .SUB (binary .SUB c s) t =>
    if !c.isSym && s.isSym && t.isSym then binary .SUB c (binary .SUB s t)
    else binary .SUB (binary .SUB c s) t
  | e => e

/-- **An expression simplified** (`simplify_expr`), from the leaves up. -/
def simplify : Expr L → Expr L
  | num val => num val
  | label l => label l
  | curpc => curpc
  | equate e =>
    match e with
    | num val => num val
    | e => equate e
  | unary op left => fold (unary op left.simplify)
  | binary op left right => fold (rearrange (binary op left.simplify right.simplify))

/-- What is complained of when an operator is applied to constants. -/
def foldComplaints : Expr L → List Complaint
  | binary .DIV (num lval) (num rval) | binary .MOD (num lval) (num rval) =>
    -- division by zero; target data type overflow
    if rval = 0 then [.general 41]
    else if lval = taddrmin ∧ rval = -1 then [.general 21]
    else []
  | _ => []

/-- **What is complained of when an expression is simplified.** -/
def simplifyComplaints : Expr L → List Complaint
  | unary _ left => left.simplifyComplaints
  | binary op left right =>
    left.simplifyComplaints ++ right.simplifyComplaints
      ++ foldComplaints (rearrange (binary op left.simplify right.simplify))
  | _ => []

theorem mem_foldComplaints {e : Expr L} {c : Complaint} (h : c ∈ e.foldComplaints) :
    c = .general 41 ∨ c = .general 21 := by
  unfold foldComplaints at h
  split at h
  case h_1 | h_2 =>
    split at h
    · exact .inl (List.mem_singleton.mp h)
    · split at h
      · exact .inr (List.mem_singleton.mp h)
      · exact absurd h List.not_mem_nil
  case h_3 => exact absurd h List.not_mem_nil

/-- It is only divisions that are complained of. -/
theorem mem_simplifyComplaints {e : Expr L} {c : Complaint} (h : c ∈ e.simplifyComplaints) :
    c = .general 41 ∨ c = .general 21 := by
  induction e with
  | unary op left ih => exact ih h
  | binary op left right ihl ihr =>
    rcases List.mem_append.mp h with h | h
    · exact (List.mem_append.mp h).elim ihl ihr
    · exact mem_foldComplaints h
  | _ => exact absurd h List.not_mem_nil

/-! ### What it does to the value -/

/-- What a simplified expression stands for: where the nodes are rearranged, the second
symbol is added. -/
def misread : Expr L → Expr L
  | unary op left => unary op left.misread
  | binary op left right =>
    if (binary op left.simplify right.simplify).isConstSymSym then
      binary .ADD left.misread right.misread
    else binary op left.misread right.misread
  | e => e

/-- Nothing in an expression is rearranged. -/
def Plain : Expr L → Prop
  | unary _ left => left.Plain
  | binary op left right =>
    left.Plain ∧ right.Plain ∧ (binary op left.simplify right.simplify).isConstSymSym = false
  | _ => True

variable (env : L → Taddr) (pc : Taddr)

/-- To fold is harmless. -/
theorem eval_fold (e : Expr L) : e.fold.eval env pc = e.eval env pc := by
  unfold fold
  split <;> rfl

/-- **To rearrange is not**: the second symbol changes its sign. -/
theorem eval_rearrange (op : Binary) (left right : Expr L) :
    (binary op left right).rearrange.eval env pc
      = if (binary op left right).isConstSymSym then left.eval env pc + right.eval env pc
        else op.apply (left.eval env pc) (right.eval env pc) := by
  unfold rearrange isConstSymSym
  cases op with
  | SUB =>
    cases left with
    | binary op c s =>
      cases op with
      | SUB =>
        by_cases hsym : (!c.isSym && s.isSym && right.isSym) = true
        · simp only [hsym, if_true]
          show c.eval env pc - (s.eval env pc - right.eval env pc)
            = c.eval env pc - s.eval env pc + right.eval env pc
          bv_omega
        · simp only [hsym]
          rfl
      | _ => rfl
    | _ => rfl
  | _ => rfl

/-- **What a simplified expression evaluates to.** -/
theorem eval_simplify (e : Expr L) : e.simplify.eval env pc = e.misread.eval env pc := by
  induction e with
  | num => rfl
  | label => rfl
  | curpc => rfl
  | equate e _ => cases e <;> rfl
  | unary op left ih =>
    rw [simplify, eval_fold]
    exact congrArg op.apply ih
  | binary op left right ihl ihr =>
    rw [simplify, eval_fold, eval_rearrange, ihl, ihr, misread]
    split <;> rfl

/-- Where nothing is rearranged, an expression is not misread. -/
theorem misread_eq_self {e : Expr L} (h : e.Plain) : e.misread = e := by
  induction e with
  | unary op left ih => rw [misread, ih h]
  | binary op left right ihl ihr =>
    obtain ⟨hl, hr, hnot⟩ := h
    rw [misread, hnot, ihl hl, ihr hr]
    rfl
  | _ => rfl

/-- `10-a-b` is read as `10-(a-b)`. -/
example (a b : L) :
    (binary .SUB (binary .SUB (num 10) (label a)) (label b)).simplify.eval env pc
      = 10 - (env a - env b) := rfl

end Expr

end Vasm
