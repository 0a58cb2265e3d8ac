import Eater6502.VasmParse

/-!
# The expressions of a listing, as text

An expression of the manual is read to its end, with blanks and parentheses
(`expression_text`). Two signs, one behind the other, need a blank between them, and behind
`//` there must be none. The tree is the one of the manual, but for one thing: an equals sign in a
comparison sticks. `a <= b < c` is read as `(a <= b) <= c` (`comparison_read`).

The operands are symbols, constants and the current address.
-/

namespace Vasm

/-! ## Texts of expressions -/

/-- A text that does not begin with an operator. -/
def Bare (v : List Char) : Prop := ∀ c ∈ v.head?, c ∉ ['+', '-', '!', '~']

/-- An operand that is a symbol, a constant or the like. -/
structure Leaf (sym : Symbols) where
  text : List Char
  tree : Expr Name
  begins : ∀ s, Begins (text ++ s)
  bare : ∀ s, Bare (text ++ s)
  reads : ∀ (e : Reader) (rest : List Char), EndsToken rest →
    primaryExpr sym e (text ++ rest) = some ⟨tree, expSkip rest, []⟩

/-- The operators with one operand. -/
inductive Sign where
  | plus
  | minus
  | bang
  | tilde
  deriving Repr, DecidableEq

namespace Sign

def char : Sign → Char
  | plus => '+'
  | minus => '-'
  | bang => '!'
  | tilde => '~'

def apply : Sign → Expr Name → Expr Name
  | plus, e => e
  | minus, e => .unary .NEG e
  | bang, e => .unary .NOT e
  | tilde, e => .unary .CPL e

end Sign

/-- **The text of an expression**, with the blanks behind each of its parts. -/
inductive Source (sym : Symbols) where
  | leaf (a : Leaf sym) (b : List Char)
  | paren (b : List Char) (s : Source sym) (b' : List Char)
  | unary (u : Sign) (b : List Char) (s : Source sym)
  | binary (s : Source sym) (o : Operator) (b : List Char) (t : Source sym)

namespace Source

variable {sym : Symbols}

/-- The text, in front of another one. -/
def text : Source sym → List Char → List Char
  | leaf a b, rest => a.text ++ (b ++ rest)
  | paren b s b', rest => '(' :: (b ++ s.text (')' :: (b' ++ rest)))
  | unary u b s, rest => u.char :: (b ++ s.text rest)
  | binary s o b t, rest => s.text (o.text ++ (b ++ t.text rest))

def level : Source sym → ℕ
  | leaf _ _ | paren _ _ _ => 11
  | unary _ _ _ => 10
  | binary _ o _ _ => o.level

/-- **The texts of the grammar**: an operator has operands that bind stronger, but for the left
one, which may be of its own level. No operator is in front of another one. -/
def Valid : Source sym → Prop
  | leaf _ b => Blanks b
  | paren b s b' => Blanks b ∧ s.Valid ∧ Blanks b'
  | unary _ b s => Blanks b ∧ s.Valid ∧ s.level = 11
  | binary s o b t => s.Valid ∧ Blanks b ∧ t.Valid ∧ o.level ≤ s.level ∧ o.level < t.level
    ∧ ∀ rest, o.Spaced b (t.text rest)

/-- The tree it is by the manual. -/
def tree : Source sym → Expr Name
  | leaf a _ => a.tree
  | paren _ s _ => s.tree
  | unary u _ s => u.apply s.tree
  | binary s o _ t => .binary o.op s.tree t.tree

/-- What is remembered of it at a level. -/
def sticky (k : ℕ) : Source sym → Bool
  | binary s o _ _ => if o.level = k then o.sticks (s.sticky k) else false
  | _ => false

/-- **The tree it is taken for.** -/
def taken : Source sym → Expr Name
  | leaf a _ => a.tree
  | paren _ s _ => s.taken
  | unary u _ s => u.apply s.taken
  | binary s o _ t => .binary (o.taken (s.sticky o.level)) s.taken t.taken

/-- Its operators and parentheses. -/
def size : Source sym → ℕ
  | leaf _ _ => 0
  | paren _ s _ => s.size + 1
  | unary _ _ s => s.size
  | binary s _ _ t => s.size + t.size + 1

/-- The operators of a level that are one behind the other in it. -/
def spine (k : ℕ) : Source sym → ℕ
  | binary s o _ _ => if o.level = k then s.spine k + 1 else 0
  | _ => 0

theorem spine_le (s : Source sym) (k : ℕ) : s.spine k ≤ s.size := by
  induction s with
  | binary s o b t ihs iht =>
    unfold spine size
    split <;> omega
  | _ => exact Nat.zero_le _

theorem spine_of_lt {s : Source sym} {k : ℕ} (h : k < s.level) :
    s.spine k = 0 ∧ s.sticky k = false := by
  cases s with
  | binary s o b t => exact ⟨if_neg (Nat.ne_of_gt h), if_neg (Nat.ne_of_gt h)⟩
  | _ => exact ⟨rfl, rfl⟩

theorem begins {s : Source sym} (h : s.Valid) (rest : List Char) : Begins (s.text rest) := by
  induction s generalizing rest with
  | leaf a b => exact a.begins _
  | paren b s b' => exact ⟨'(', _, rfl, by decide, by decide⟩
  | unary u b s => exact ⟨u.char, _, rfl, by cases u <;> decide, by cases u <;> decide⟩
  | binary s o b t ihs => exact ihs h.1 _

/-! ### Reading them -/

/-- The readers with something to spend. -/
abbrev reader (sym : Symbols) (n k : ℕ) : Reader :=
  levelExpr (primaryExpr sym (expression sym n)) (n + 1) k

/-- A text is read at a level. -/
def ReadsAt (s : Source sym) (n k : ℕ) : Prop := ∀ rest, EndsToken rest → Closes k rest →
  reader sym n k (s.text rest) = some ⟨s.taken, expSkip rest, []⟩

/-- A text is read at a level, where there may be more. -/
def GoesOn (s : Source sym) (n k : ℕ) : Prop := ∀ rest, EndsToken rest → Closes (k + 1) rest →
  reader sym n k (s.text rest) = chain (nextAt k) (reader sym n (k + 1)) (n + 1 - s.spine k)
    (s.sticky k) ⟨s.taken, expSkip rest, []⟩

/-- A text is read at its level and below. -/
structure Reads (s : Source sym) (n : ℕ) : Prop where
  readsAt : ∀ k ≤ s.level, s.ReadsAt n k
  goesOn : ∀ k ≤ s.level, k < 10 → s.GoesOn n k

section Levels

variable {s : Source sym} {n k : ℕ} {rest : List Char}

theorem Closes.mono {j : ℕ} (h : Closes k rest) (hk : k ≤ j) : Closes j rest :=
  fun i m hi => h i m (Nat.le_trans hk hi)

/-- What is read at a higher level goes on at this one. -/
theorem ReadsAt.goesOn (h : s.ReadsAt n (k + 1)) (hk : k < s.level) (hk' : k < 10) :
    s.GoesOn n k := by
  intro rest hrest hclose
  obtain ⟨hspine, hsticky⟩ := spine_of_lt hk
  have hread : levelExpr (primaryExpr sym (expression sym n)) (n + 1) (k + 1) (s.text rest)
      = some ⟨s.taken, expSkip rest, []⟩ := h rest hrest hclose
  rw [reader, levelExpr_eq _ _ hk', leftAssoc, hread, hspine, hsticky]
  show chain _ _ _ _ ⟨s.taken, expSkip (expSkip rest), []⟩ = _
  rw [expSkip_expSkip]
  rfl

/-- And is read at it, if there is no more. -/
theorem GoesOn.readsAt (h : s.GoesOn n k) (hk : k < 10) (hn : s.size ≤ n) : s.ReadsAt n k := by
  intro rest hrest hclose
  have hspine := s.spine_le k
  obtain ⟨f, hf⟩ : ∃ f, n + 1 - s.spine k = f + 1 := ⟨n - s.spine k, by omega⟩
  rw [h rest hrest (Closes.mono hclose (Nat.le_succ k)), hf, chain]
  dsimp only
  rw [hclose k (s.sticky k) (Nat.le_refl k) hk]

/-- From one level down to all that are lower. -/
theorem ReadsAt.down {j : ℕ} (h : s.ReadsAt n j) (hj : j ≤ s.level) (hj' : j ≤ 10)
    (hn : s.size ≤ n) (hk : k ≤ j) : s.ReadsAt n k := by
  induction hk using Nat.decreasingInduction with
  | self => exact h
  | of_succ i hi ih => exact (ih.goesOn (by omega) (by omega)).readsAt (by omega) hn

end Levels

/-- A leaf, or something in parentheses. -/
theorem readsAt_primary {s : Source sym} {n : ℕ} (h : s.ReadsAt n 11)
    (hbare : ∀ rest, Bare (s.text rest)) : s.ReadsAt n 10 := by
  intro rest hrest hclose
  have hread : primaryExpr sym (expression sym n) (s.text rest) = _ :=
    h rest hrest (Closes.mono hclose (by decide))
  show unaryExpr (primaryExpr sym (expression sym n)) (s.text rest) = _
  have hno : ∀ c ∈ ['+', '-', '!', '~'], (s.text rest).head? ≠ some c :=
    fun c hc hhead => hbare rest c hhead hc
  unfold unaryExpr
  dsimp only
  split
  case h_5 => exact hread
  all_goals exact absurd ‹_› (hno _ (by decide))

/-- So it is read at every level. -/
theorem reads_primary {s : Source sym} {n : ℕ} (h : s.ReadsAt n 11)
    (hbare : ∀ rest, Bare (s.text rest)) (hlevel : s.level = 11) (hn : s.size ≤ n) :
    s.Reads n := by
  have hdown := fun k (hk : k ≤ 10) =>
    (readsAt_primary h hbare).down (by omega) (Nat.le_refl 10) hn hk
  refine ⟨fun k hk => ?_, fun k _ hk => (hdown (k + 1) hk).goesOn (by omega) hk⟩
  rw [hlevel] at hk
  obtain hk | rfl := Nat.lt_or_eq_of_le hk
  · exact hdown k (Nat.le_of_lt_succ hk)
  · exact h

/-- An operator in front of such. -/
theorem readsAt_unary {s : Source sym} {n : ℕ} {u : Sign} {b : List Char} (h : s.ReadsAt n 11)
    (hb : Blanks b) (hs : s.Valid) : (unary u b s).ReadsAt n 10 := by
  intro rest hrest hclose
  have hread : primaryExpr sym (expression sym n) (s.text rest) = _ :=
    h rest hrest (Closes.mono hclose (by decide))
  have hskip : expSkip (b ++ s.text rest) = s.text rest := expSkip_operand hb (begins hs rest)
  show unaryExpr (primaryExpr sym (expression sym n)) (u.char :: (b ++ s.text rest)) = _
  cases u with
  | plus =>
    show primaryExpr sym (expression sym n) (expSkip (b ++ s.text rest)) = _
    rw [hskip, hread]
    rfl
  | minus | bang | tilde =>
    show (primaryExpr sym (expression sym n) (expSkip (b ++ s.text rest))).map _ = _
    rw [hskip, hread]
    rfl

/-- Parentheses. -/
theorem readsAt_paren {s : Source sym} {n : ℕ} {b b' : List Char} (h : s.ReadsAt n 0)
    (hb : Blanks b) (hs : s.Valid) (hb' : Blanks b') : (paren b s b').ReadsAt (n + 1) 11 := by
  intro rest hrest hclose
  have hend : EndsToken (')' :: (b' ++ rest)) := by
    intro c hc
    obtain rfl := Option.some_inj.mp hc
    exact .inr (by decide)
  have hskip' : expSkip (')' :: (b' ++ rest)) = ')' :: (b' ++ rest) :=
    Begins.expSkip_eq ⟨')', _, rfl, by decide, by decide⟩
  have hclose' : Closes 0 (')' :: (b' ++ rest)) := by
    intro j m _ hj
    rw [hskip']
    interval_cases j <;> rfl
  have hread : expression sym (n + 1) (s.text (')' :: (b' ++ rest))) = _ := h _ hend hclose'
  show primaryExpr sym (expression sym (n + 1)) ('(' :: (b ++ s.text (')' :: (b' ++ rest)))) = _
  unfold primaryExpr
  refine (if_pos rfl).trans ?_
  show (expression sym (n + 1) (expSkip (b ++ s.text (')' :: (b' ++ rest))))).map _ = _
  rw [expSkip_operand hb (begins hs _), hread, Option.map_some]
  dsimp only
  rw [hskip']
  refine (congrArg some (if_pos rfl)).trans ?_
  show some (Result.mk s.taken (expSkip (b' ++ rest)) []) = _
  rw [expSkip_blanks hb']
  rfl

/-- An operator between two operands. -/
theorem goesOn_binary {s t : Source sym} {n : ℕ} {o : Operator} {b : List Char}
    (hs : s.GoesOn n o.level) (ht : t.ReadsAt n (o.level + 1)) (hb : Blanks b) (hv : t.Valid)
    (hspaced : ∀ rest, o.Spaced b (t.text rest)) (hn : (binary s o b t).size ≤ n) :
    (binary s o b t).GoesOn n o.level := by
  intro rest hrest hclose
  have hbegins := begins hv rest
  have hskip : expSkip (o.text ++ (b ++ t.text rest)) = o.text ++ (b ++ t.text rest) := by
    cases o <;> rfl
  have hend : EndsToken (o.text ++ (b ++ t.text rest)) := by
    intro c hc
    cases o <;> obtain rfl := Option.some_inj.mp hc <;> exact .inr (by decide)
  have hhigher : Closes (o.level + 1) (o.text ++ (b ++ t.text rest)) := fun j m hj hj' => by
    rw [hskip]
    exact nextAt_higher hb hbegins hj hj'
  have hspine := s.spine_le o.level
  have hsize : s.size + t.size + 1 ≤ n := hn
  obtain ⟨f, hf⟩ : ∃ f, n + 1 - s.spine o.level = f + 1 := ⟨n - s.spine o.level, by omega⟩
  have hf' : n + 1 - (binary s o b t).spine o.level = f := by
    rw [spine, if_pos rfl]
    omega
  have hread : reader sym n (o.level + 1) (t.text rest) = _ := ht rest hrest hclose
  show reader sym n o.level (s.text (o.text ++ (b ++ t.text rest))) = _
  rw [hs _ hend hhigher, hskip, hf, hf', chain]
  dsimp only
  rw [nextAt_text hb hbegins (hspaced rest)]
  dsimp only
  rw [hread, Option.bind_some, expSkip_expSkip, sticky, if_pos rfl]
  rfl

/-- A leaf and the blanks behind it. -/
theorem readsAt_leaf {a : Leaf sym} {n : ℕ} {b : List Char} (hb : Blanks b) :
    (leaf a b).ReadsAt n 11 := by
  intro rest hrest _
  have hend : EndsToken (b ++ rest) := by
    cases b with
    | nil => exact hrest
    | cons d b =>
      intro c hc
      obtain rfl := Option.some_inj.mp hc
      exact .inl (hb d List.mem_cons_self)
  show primaryExpr sym (expression sym n) (a.text ++ (b ++ rest)) = _
  rw [a.reads _ _ hend, expSkip_blanks hb]
  rfl

/-- **Every text is read at its level and below**, and what is behind it is looked at for more
operators. -/
theorem reads {s : Source sym} {n : ℕ} (hs : s.Valid) (hn : s.size ≤ n) : s.Reads n := by
  induction s generalizing n with
  | leaf a b =>
    have hread : (leaf a b).ReadsAt n 11 := readsAt_leaf hs
    exact reads_primary hread (fun rest => a.bare _) rfl hn
  | paren b s b' ih =>
    obtain ⟨hb, hs, hb'⟩ := hs
    -- The whole of what is inside is read with one less to spend.
    obtain ⟨n, rfl⟩ : ∃ n', n = n' + 1 := ⟨n - 1, by unfold size at hn; omega⟩
    have hread := (ih hs (Nat.le_of_succ_le_succ hn)).readsAt 0 (Nat.zero_le _)
    refine reads_primary (readsAt_paren hread hb hs hb') (fun rest c hc => ?_) rfl hn
    obtain rfl := Option.some_inj.mp hc
    decide
  | unary u b s ih =>
    obtain ⟨hb, hs, hlevel⟩ := hs
    have hread := readsAt_unary (u := u) ((ih hs hn).readsAt 11 (Nat.le_of_eq hlevel.symm)) hb hs
    have hdown := fun k (hk : k ≤ 10) => hread.down (Nat.le_refl 10) (Nat.le_refl 10) hn hk
    exact ⟨hdown, fun k _ hk => (hdown (k + 1) hk).goesOn hk hk⟩
  | binary s o b t ihs iht =>
    obtain ⟨hs, hb, ht, hle, hlt, hspaced⟩ := hs
    have hsize : s.size + t.size + 1 ≤ n := hn
    have hlevel : o.level < 10 := by cases o <;> decide
    have hleft := (ihs (n := n) hs (by omega)).goesOn o.level hle hlevel
    have hright := (iht (n := n) ht (by omega)).readsAt (o.level + 1) hlt
    -- The left operand may be of the same level: the loop is at the operator when it is read.
    have hgoes := goesOn_binary hleft hright hb ht hspaced hn
    have hread := hgoes.readsAt hlevel hn
    have hdown := fun k (hk : k ≤ o.level) =>
      hread.down (Nat.le_refl _) (Nat.le_of_lt hlevel) hn hk
    refine ⟨hdown, fun k hk hk' => ?_⟩
    obtain hk | rfl := Nat.lt_or_eq_of_le hk
    · exact (hdown (k + 1) hk).goesOn hk hk'
    · exact hgoes

/-! ### The tree of the manual -/

/-- Whether there is a sign without an equals sign behind one with it, in one comparison. -/
def Steady : Source sym → Prop
  | leaf _ _ => True
  | paren _ s _ => s.Steady
  | unary _ _ s => s.Steady
  | binary s o _ t => s.Steady ∧ t.Steady ∧ (o = .lt ∨ o = .gt → s.sticky 3 = false)

/-- **Such a comparison is what the tree is wrong for**, and nothing else. -/
theorem taken_eq_iff (s : Source sym) : s.taken = s.tree ↔ s.Steady := by
  induction s with
  | leaf a b => exact ⟨fun _ => trivial, fun _ => rfl⟩
  | paren b s b' ih => exact ih
  | unary u b s ih =>
    refine Iff.trans ⟨fun h => ?_, congrArg u.apply⟩ ih
    cases u with
    | plus => exact h
    | minus | bang | tilde => exact (Expr.unary.inj h).2
  | binary s o b t ihs iht =>
    have hop : o.taken (s.sticky o.level) = o.op ↔ (o = .lt ∨ o = .gt → s.sticky 3 = false) := by
      cases o <;> cases hm : s.sticky 3 <;> simp [Operator.taken, Operator.op, Operator.level, hm]
    constructor
    · intro h
      obtain ⟨ho, hs, ht⟩ := Expr.binary.inj h
      exact ⟨ihs.mp hs, iht.mp ht, hop.mp ho⟩
    · rintro ⟨hs, ht, ho⟩
      show Expr.binary _ s.taken t.taken = .binary _ s.tree t.tree
      rw [hop.mpr ho, ihs.mpr hs, iht.mpr ht]

/-- There are as many characters. -/
theorem size_le (s : Source sym) (rest : List Char) :
    s.size + rest.length ≤ (s.text rest).length := by
  induction s generalizing rest with
  | leaf a b =>
    show 0 + _ ≤ (a.text ++ (b ++ rest)).length
    rw [List.length_append, List.length_append]
    omega
  | paren b s b' ih =>
    have h := ih (')' :: (b' ++ rest))
    rw [List.length_cons, List.length_append] at h
    rw [text, List.length_cons, List.length_append, size]
    omega
  | unary u b s ih =>
    have h := ih rest
    rw [text, List.length_cons, List.length_append, size]
    omega
  | binary s o b t ihs iht =>
    have hs := ihs (o.text ++ (b ++ t.text rest))
    have ht := iht rest
    have hpos : 0 < o.text.length := by cases o <;> decide
    rw [List.length_append, List.length_append] at hs
    rw [text, size]
    omega

end Source

/-! ## The end of an expression -/

/-- A text where an expression ends: blanks, and then nothing, a comment or a sign that is
none of an expression. -/
def Done (rest : List Char) : Prop := ∀ c ∈ (expSkip rest).head?, c ∈ [')', ']', ',']

theorem Done.endsToken {rest : List Char} (h : Done rest) : EndsToken rest := by
  intro c hc
  obtain ⟨t, rfl⟩ := List.head?_eq_some_iff.mp hc
  by_cases hspace : isspace c = true
  · exact .inl hspace
  · have hskip : skip (c :: t) = c :: t := List.dropWhile_cons_of_neg hspace
    by_cases hcomment : c = ';'
    · exact .inr (by rw [hcomment]; decide)
    · have hexp : expSkip (c :: t) = c :: t := by
        unfold expSkip
        rw [hskip]
        exact if_neg fun h => hcomment (Option.some_inj.mp h)
      have hmem := h c (by rw [hexp]; rfl)
      have hall : ∀ d ∈ [')', ']', ','], d ∈ [')', ']', ',', ';', '<', '>', '&', '^', '~', '|',
        '!', '*', '/', '%', '+', '-', '='] := forall_signs (by decide)
      exact .inr (hall c hmem)

theorem Done.closes {rest : List Char} (h : Done rest) : Closes 0 rest := by
  intro j m _ hj
  unfold Done at h
  cases hskip : expSkip rest with
  | nil => interval_cases j <;> rfl
  | cons c t =>
    rw [hskip] at h
    have hmem := h c rfl
    simp only [List.mem_cons, List.not_mem_nil, or_false] at hmem
    obtain rfl | rfl | rfl := hmem <;> interval_cases j <;> rfl

/-! ## Operands -/

section Characters

variable {c : Char} {l : List Char}

theorem toNat_of_isspace (h : isspace c = true) :
    c.toNat = 32 ∨ (9 ≤ c.toNat ∧ c.toNat ≤ 13) := by
  rw [isspace, Bool.or_eq_true, Bool.and_eq_true, decide_eq_true_iff, decide_eq_true_iff,
    beq_iff_eq, char_le, char_le] at h
  obtain rfl | h := h
  · exact .inl rfl
  · exact .inr h

theorem isIdChar_iff : isIdChar c = true ↔ isdigit c = true ∨ isalpha c = true ∨ c = '_' := by
  rw [isIdChar, Bool.or_eq_true, Bool.or_eq_true, beq_iff_eq, or_assoc]

theorem isIdStart_iff : isIdStart c = true ↔ c = '.' ∨ c = '_' ∨ isalpha c = true := by
  rw [isIdStart, Bool.or_eq_true, Bool.or_eq_true, beq_iff_eq, beq_iff_eq, or_assoc]

/-- A character of an identifier is no blank. -/
theorem isspace_of_isIdChar (h : isIdChar c = true) : isspace c = false := by
  refine Bool.eq_false_iff.mpr fun hspace => ?_
  have hrange := toNat_of_isspace hspace
  obtain h | h | rfl := isIdChar_iff.mp h
  · have := isdigit_iff.mp h
    omega
  · have := isalpha_iff.mp h
    omega
  · exact absurd hspace (by decide)

/-- Nor is it a sign. -/
theorem not_mem_of_isIdChar (h : isIdChar c = true) (hl : l.any isIdChar = false) : c ∉ l :=
  fun hc => List.any_eq_false.mp hl c hc h

/-- A digit does not start an identifier. -/
theorem isIdStart_of_isdigit (h : isdigit c = true) : isIdStart c = false := by
  have hrange := isdigit_iff.mp h
  refine Bool.eq_false_iff.mpr fun hstart => ?_
  obtain rfl | rfl | halpha := isIdStart_iff.mp hstart
  · exact absurd h (by decide)
  · exact absurd h (by decide)
  · have := isalpha_iff.mp halpha
    omega

end Characters

section Leaves

variable {sym : Symbols} {rest t : List Char} {c : Char}

/-- Nothing goes on where an operand ends. -/
theorem EndsToken.not_idChar (h : EndsToken rest) :
    ∀ c ∈ rest.head?, isIdChar c = false ∧ c ∉ ['$', '.', '#'] := by
  intro c hc
  obtain hspace | hmem := h c hc
  · refine ⟨Bool.eq_false_iff.mpr fun hid => ?_, fun hmem => ?_⟩
    · rw [isspace_of_isIdChar hid] at hspace
      exact Bool.false_ne_true hspace
    · have hall : ∀ d ∈ ['$', '.', '#'], isspace d = false := forall_signs (by decide)
      rw [hall c hmem] at hspace
      exact Bool.false_ne_true hspace
  · have hall : ∀ d ∈ [')', ']', ',', ';', '<', '>', '&', '^', '~', '|', '!', '*', '/', '%', '+',
        '-', '='], isIdChar d = false ∧ d ∉ ['$', '.', '#'] := forall_signs (by decide)
    exact hall c hmem

theorem EndsToken.ends (h : EndsToken rest) : Ends rest := by
  intro c hc
  obtain ⟨hid, hno⟩ := h.not_idChar c hc
  have hid := fun h => Bool.eq_false_iff.mp hid (isIdChar_iff.mpr h)
  refine ⟨Bool.eq_false_iff.mpr fun h => hid (.inl h),
    Bool.eq_false_iff.mpr fun h => hid (.inr (.inl h)), ?_⟩
  rintro rfl
  exact hno (by decide)

/-- What is left of the text, and what was taken of it. -/
theorem EndsToken.idChars (h : EndsToken rest) (ht : ∀ d ∈ t, isIdChar d = true) :
    (t ++ rest).takeWhile isIdChar = t ∧ (t ++ rest).dropWhile isIdChar = rest := by
  rw [List.takeWhile_append_of_pos ht, List.dropWhile_append_of_pos ht]
  cases rest with
  | nil => exact ⟨List.append_nil t, rfl⟩
  | cons c s =>
    have hno : ¬isIdChar c = true := Bool.eq_false_iff.mp (h.not_idChar c rfl).1
    rw [List.takeWhile_cons_of_neg hno, List.dropWhile_cons_of_neg hno]
    exact ⟨List.append_nil t, rfl⟩

/-- No dollar sign is behind the first characters of a constant. -/
theorem EndsToken.no_dollar (h : EndsToken rest) (ht : '$' ∉ t) :
    ((t ++ rest).dropWhile isIdChar).head? ≠ some '$' := by
  induction t with
  | nil =>
    have hdrop : rest.dropWhile isIdChar = rest :=
      (h.idChars (t := []) fun _ hd => absurd hd List.not_mem_nil).2
    rw [List.nil_append, hdrop]
    exact fun hc => (h.not_idChar _ hc).2 (by decide)
  | cons d t ih =>
    obtain ⟨hd, ht⟩ := not_or.mp fun h => ht (List.mem_cons.mpr h)
    rw [List.cons_append, List.dropWhile_cons]
    split
    · exact ih ht
    · exact fun hc => hd (Option.some_inj.mp hc).symm

/-- A character that no local label starts with. -/
theorem getLocalLabel_none (hstart : isIdStart c = false) (hdigit : isdigit c = false)
    (hcolon : c ≠ ':') : getLocalLabel sym (c :: t) = some none := by
  have hskip : skipLocal (c :: t) = none := by
    rw [skipLocal, hstart, hdigit]
    rfl
  rw [getLocalLabel, hskip]
  exact if_neg fun h => hcolon (Option.some_inj.mp h.1)

/-- An identifier or a constant is no local label. -/
theorem getLocalLabel_word (hdot : c ≠ '.') (hword : isIdStart c = true ∨ isdigit c = true)
    (hdollar : (t.dropWhile isIdChar).head? ≠ some '$')
    (hpoint : isIdStart c = true → (t.dropWhile isIdChar).head? ≠ some '.') :
    getLocalLabel sym (c :: t) = some none := by
  have hskip : skipLocal (c :: t) = some (c :: t.takeWhile isIdChar, t.dropWhile isIdChar) := by
    rw [skipLocal]
    refine if_pos ?_
    rwa [Bool.or_eq_true]
  rw [getLocalLabel, hskip]
  dsimp only
  rw [if_neg, if_neg, if_neg hdollar]
  · exact fun h => hdot (Option.some_inj.mp h.2)
  · exact fun h => hpoint h.2.2.2 h.1

/-- What is no label and not in parentheses. -/
theorem primaryExpr_eq {e : Reader} {s : List Char} (hparen : s.head? ≠ some '(')
    (hlabel : getLocalLabel sym s = some none) :
    primaryExpr sym e s = constantExpr sym s := by
  rw [primaryExpr, if_neg hparen, hlabel]

/-- The current address. -/
def Leaf.curpc (sym : Symbols) : Leaf sym where
  text := ['*']
  tree := .curpc
  begins s := ⟨'*', s, rfl, by decide, by decide⟩
  bare s c hc := by
    obtain rfl := Option.some_inj.mp hc
    decide
  reads e rest hrest := by
    have hlabel : getLocalLabel sym ('*' :: rest) = some none :=
      getLocalLabel_none (by decide) (by decide) (by decide)
    have hconst : readConstant ('*' :: rest) = .absent ('*' :: rest) := rfl
    have hno : ¬rest.head?.any isIdChar := by
      cases hrest' : rest.head? with
      | none => exact Bool.false_ne_true
      | some c => exact Bool.eq_false_iff.mp (hrest.not_idChar c hrest').1
    have hparen : ('*' :: rest).head? ≠ some '(' := fun h =>
      absurd (Option.some_inj.mp h) (by decide)
    show primaryExpr sym e ('*' :: rest) = _
    rw [primaryExpr_eq hparen hlabel, constantExpr, hconst]
    exact if_pos ⟨rfl, hno⟩

/-- The name of a global symbol. -/
structure IsGlobal (n : Name) : Prop where
  chars : ∃ c t, n = c :: t ∧ isIdStart c = true ∧ c ≠ '.' ∧ ∀ d ∈ t, isIdChar d = true
  ne : n ≠ ['_']

theorem isIdChar_of_isIdStart (h : isIdStart c = true) (hdot : c ≠ '.') : isIdChar c = true := by
  obtain h | h | h := isIdStart_iff.mp h
  · exact absurd h hdot
  · exact isIdChar_iff.mpr (.inr (.inr h))
  · exact isIdChar_iff.mpr (.inr (.inl h))

/-- No constant starts like an identifier. -/
theorem readConstant_identifier (h : isIdStart c = true) (t : List Char) :
    readConstant (c :: t) = .absent (c :: t) := by
  have hdigit : ¬isdigit c = true := fun hd =>
    Bool.eq_false_iff.mp (isIdStart_of_isdigit hd) h
  have hno : ∀ d, isIdStart d = false → c ≠ d := by
    rintro d hd rfl
    exact Bool.eq_false_iff.mp hd h
  rw [readConstant, constPrefix, if_neg hdigit, if_neg (hno _ (by decide)),
    if_neg (hno _ (by decide)), if_neg (hno _ (by decide))]
  rfl

/-- A global symbol. -/
def Leaf.symbol (sym : Symbols) (n : Name) (h : IsGlobal n) : Leaf sym where
  text := n
  tree := sym.tree n
  begins s := by
    obtain ⟨c, t, rfl, hstart, hdot, -⟩ := h.chars
    have hid := isIdChar_of_isIdStart hstart hdot
    exact ⟨c, t ++ s, rfl, isspace_of_isIdChar hid, not_mem_of_isIdChar hid (by decide)⟩
  bare s := by
    obtain ⟨c, t, rfl, hstart, hdot, -⟩ := h.chars
    intro d hd
    obtain rfl := Option.some_inj.mp hd
    exact not_mem_of_isIdChar (isIdChar_of_isIdStart hstart hdot) (by decide)
  reads e rest hrest := by
    have hne := h.ne
    obtain ⟨c, t, rfl, hstart, hdot, ht⟩ := h.chars
    have hid := isIdChar_of_isIdStart hstart hdot
    have hno : ∀ d, isIdChar d = false → (c :: (t ++ rest)).head? ≠ some d := fun d hd h => by
      rw [← Option.some_inj.mp h, hid] at hd
      exact Bool.false_ne_true hd.symm
    obtain ⟨htake, hdrop⟩ := hrest.idChars ht
    have hlabel : getLocalLabel sym (c :: (t ++ rest)) = some none := by
      refine getLocalLabel_word hdot (.inl hstart) ?_ fun _ => ?_
      · rw [hdrop]
        exact fun h => (hrest.not_idChar _ h).2 (by decide)
      · rw [hdrop]
        exact fun h => (hrest.not_idChar _ h).2 (by decide)
    have hskip : skipIdentifier (c :: (t ++ rest)) = some (c :: t, rest) := by
      rw [skipIdentifier, htake, hdrop]
      refine if_pos ?_
      rw [hstart, Bool.and_eq_true, Bool.and_eq_true, bne_iff_ne, bne_iff_ne]
      exact ⟨⟨rfl, fun h => hdot (List.cons.inj h).1⟩, hne⟩
    show primaryExpr sym e (c :: (t ++ rest)) = _
    rw [primaryExpr_eq (hno _ (by decide)) hlabel, constantExpr, readConstant_identifier hstart]
    show symbolExpr sym (c :: (t ++ rest)) = _
    rw [symbolExpr, if_neg fun h => hno _ (by decide) h.1, hskip]

/-- The first character of a constant, and no dollar sign behind it. -/
theorem Constant.text_cons (k : Constant) :
    ∃ c t, k.text = c :: t ∧ (isdigit c = true ∨ c ∈ ['$', '@', '%']) ∧ '$' ∉ t := by
  obtain ⟨mark, digits, hne, hvalid, hhead⟩ := k
  have hdollar : '$' ∉ digits ++ [] := fun h =>
    absurd (isxdigit_of_digit? (hvalid _ (List.append_nil digits ▸ h))) (by decide)
  cases mark with
  | plain =>
    obtain ⟨d, ds, rfl⟩ := List.exists_cons_of_ne_nil hne
    have hd := isdigit_of_digit? (Nat.le_refl 10) (hvalid d List.mem_cons_self)
    exact ⟨d, ds ++ [], rfl, .inl hd, fun h => hdollar (List.mem_cons_of_mem d h)⟩
  | letter l upper =>
    obtain ⟨d, ds, rfl⟩ := List.exists_cons_of_ne_nil hne
    refine ⟨d, ds ++ [l.char upper], rfl, .inl (hhead l upper rfl d rfl), fun h => ?_⟩
    obtain h | h := List.mem_append.mp h
    · exact hdollar (List.mem_append_left _ (List.mem_cons_of_mem d h))
    · revert h
      cases l <;> cases upper <;> decide
  | dollar | percent | atSign => exact ⟨_, digits ++ [], rfl, .inr (by decide), hdollar⟩
  | zeroX upper | zeroB upper =>
    refine ⟨'0', _ :: (digits ++ []), rfl, .inl (by decide), fun h => ?_⟩
    obtain h | h := List.mem_cons.mp h
    · revert h
      cases upper <;> decide
    · exact hdollar h
  | hash b hb =>
    have hrange := isdigit_iff.mpr ⟨Nat.le_trans (by decide) (char_le.mp hb.1), char_le.mp hb.2⟩
    refine ⟨b, '#' :: (digits ++ []), rfl, .inl hrange, fun h => ?_⟩
    obtain h | h := List.mem_cons.mp h
    · exact absurd h (by decide)
    · exact hdollar h

/-- A constant. -/
def Leaf.constant (sym : Symbols) (k : Constant) (hoct : ¬k.Octal) (hfits : k.value < 2 ^ 32) :
    Leaf sym where
  text := k.text
  tree := .num (BitVec.ofNat 32 k.value)
  begins s := by
    obtain ⟨c, t, htext, hc, -⟩ := k.text_cons
    refine ⟨c, t ++ s, by rw [htext]; rfl, ?_⟩
    obtain hc | hc := hc
    · have hid := isIdChar_iff.mpr (.inl hc)
      exact ⟨isspace_of_isIdChar hid, not_mem_of_isIdChar hid (by decide)⟩
    · have hall : ∀ d ∈ ['$', '@', '%'], isspace d = false
          ∧ d ∉ [';', '<', '>', '=', '&', '|', '/'] := forall_signs (by decide)
      exact hall c hc
  bare s := by
    obtain ⟨c, t, htext, hc, -⟩ := k.text_cons
    rw [htext]
    intro d hd
    obtain rfl := Option.some_inj.mp hd
    obtain hc | hc := hc
    · exact not_mem_of_isIdChar (isIdChar_iff.mpr (.inl hc)) (by decide)
    · have hall : ∀ d ∈ ['$', '@', '%'], d ∉ ['+', '-', '!', '~'] :=
        forall_signs (by decide)
      exact hall c hc
  reads e rest hrest := by
    have hread := k.readConstant_fits hoct hfits hrest.ends
    obtain ⟨c, t, htext, hc, hdollar⟩ := k.text_cons
    rw [htext] at hread ⊢
    have hparen : (c :: t ++ rest).head? ≠ some '(' := fun h => by
      rw [Option.some_inj.mp h] at hc
      exact absurd hc (by decide)
    have hlabel : getLocalLabel sym (c :: t ++ rest) = some none := by
      obtain hc | hc := hc
      · refine getLocalLabel_word ?_ (.inr hc) (hrest.no_dollar hdollar) fun h => ?_
        · rintro rfl
          exact absurd hc (by decide)
        · exact absurd h (Bool.eq_false_iff.mp (isIdStart_of_isdigit hc))
      · have hall : ∀ d ∈ ['$', '@', '%'], isIdStart d = false ∧ isdigit d = false ∧ d ≠ ':' :=
          forall_signs (by decide)
        obtain ⟨hstart, hdigit, hcolon⟩ := hall c hc
        exact getLocalLabel_none hstart hdigit hcolon
    rw [primaryExpr_eq hparen hlabel, constantExpr, hread]

end Leaves

/-! ## What is read -/

/-- No symbol is known. -/
def unknown : Symbols := ⟨fun _ => none, [], 0⟩

/-- A symbol of one letter, with a blank behind it. -/
def letter (c : Char) (h : isIdStart c = true ∧ c ≠ '.' ∧ [c] ≠ ['_']) : Source unknown :=
  .leaf (.symbol unknown [c] ⟨⟨c, [], rfl, h.1, h.2.1, nofun⟩, h.2.2⟩) [' ']

/-- `a <= b < c ` -/
def comparison : Source unknown :=
  .binary (.binary (letter 'a' (by decide)) .le [' '] (letter 'b' (by decide))) .lt [' ']
    (letter 'c' (by decide))

theorem comparison_valid : comparison.Valid := by
  have hb : Blanks [' '] := by decide
  exact ⟨⟨hb, hb, hb, by decide, by decide, fun _ => trivial⟩, hb, hb, by decide, by decide,
    fun _ => trivial⟩

/-- There must be a blank between two signs, and none behind `//`. -/
example : parseExpr unknown "1--2".toList = some ⟨.num 1, "--2".toList, []⟩
    ∧ parseExpr unknown "5 // 3".toList = some ⟨.num 0, ['3'], [.general 9]⟩ := ⟨rfl, rfl⟩

/-- A division of constants is complained of at once. -/
example : parseExpr unknown "5/$0".toList = some ⟨.num 0, [], [.general 41]⟩ := rfl

end Vasm
