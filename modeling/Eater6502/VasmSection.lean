import Eater6502.VasmCpu

/-!
# The sections of the assembler

A section is a list of atoms from an address on: labels, instructions, data, space. Where
an atom stands depends on how long the atoms in front of it are, how long an instruction
or a space is depends on the values of labels, and the value of a label is where it
stands. The assembler therefore lays a section out in passes (`resolveSection`). A pass
takes every label to where it stands now, and every atom to the size it has there. After
the first passes, at a section that keeps changing, only one instruction is changed in
a pass. It is over when a pass changes nothing, or when there were too many.

Whatever the passes went through, at the end the layout is consistent
(`laidOut_of_resolveSection`): with the values that the labels have now, every label is
where its value says (`Settled`). That depends on few labels: those the section has, and
those that the sizes of its atoms depend on (`Settled.congr`).
-/

namespace Vasm

variable {L : Type}

/-! ## Atoms -/

/-- A number of elements that are all the same. What only aligns has none of them. -/
structure Space (L : Type) where
  /-- The number of elements. -/
  space : Expr L
  /-- The bytes of an element. -/
  size : ℕ
  /-- What fills an element, in place of `init`. -/
  fillExp : Option (Expr L)
  init : Byte
  /-- The most bytes that are spent on an alignment, if it is not 0. -/
  maxalignbytes : Taddr
  uninitialized : Bool
  only_aligns : maxalignbytes ≠ 0 → space = .num 0

/-- What an atom holds. -/
inductive Content (L : Type) where
  | label (l : L)
  | data (db : List Byte)
  | inst (ip : Instruction L)
  | space (sb : Space L)
  | datadef (bitsize : ℕ) (flags : Selector) (value : Expr L)
  /-- The page that is addressed by one byte, for the following atoms. -/
  | opts (dpage : BitVec 16)
  | assert (e : Expr L)

/-- **An atom.** -/
structure Atom (L : Type) where
  align : Taddr
  content : Content L

/-- **A section**, with the options it begins with. -/
structure Section (L : Type) where
  org : Taddr
  dpage : BitVec 16
  /-- What fills the gap in front of it, and those its atoms leave. -/
  pad : List Byte
  atoms : List (Atom L)

/-! ## Where an atom stands -/

/-- A place in a section, and the options there. -/
@[ext] structure Pos where
  pc : Taddr
  dpage : BitVec 16
  deriving Repr, DecidableEq

def Section.start (sec : Section L) : Pos := ⟨sec.org, sec.dpage⟩

/-- The options at a place. -/
def Options.at (o : Options) (p : Pos) : Options := { o with dpage := p.dpage }

/-- The bytes up to an alignment. -/
def balign (addr a : Taddr) : Taddr :=
  if a = 0 ∨ addr.srem a = 0 then 0 else a - addr.srem a

/-- An address aligned for an atom. -/
def pcalign (a : Atom L) (pc : Taddr) : Taddr :=
  let n := balign pc a.align
  match a.content with
  | .space sb =>
    if sb.maxalignbytes ≠ 0 ∧ sb.maxalignbytes.toInt < n.toInt then pc else pc + n
  | _ => pc + n

/-- The bytes of an element, times their number. -/
def spaceSize (sb : Space L) (env : L → Taddr) (pc : Taddr) : ℕ :=
  sb.size * (sb.space.eval env pc).toNat

/-- **How many bytes an atom takes**, where it stands. -/
def atomSize (o : Options) (env : L → Taddr) (p : Pos) : Content L → ℕ
  | .label _ | .opts _ | .assert _ => 0
  | .data db => db.length
  | .inst ip => instructionSize (o.at p) env p.pc ip
  | .space sb => spaceSize sb env p.pc
  | .datadef bitsize _ _ => (bitsize + 7) / 8

/-- Where an atom begins that comes next at a place. -/
def Atom.place (a : Atom L) (p : Pos) : Pos :=
  ⟨pcalign a p.pc, match a.content with
    | .opts dpage => dpage
    | _ => p.dpage⟩

/-- The place behind some bytes. -/
def Pos.skip (p : Pos) (size : ℕ) : Pos := { p with pc := p.pc + BitVec.ofNat 32 size }

/-- **The layout**: the atoms from a place on, and where each of them begins. -/
def placed (o : Options) (env : L → Taddr) : Pos → List (Atom L) → List (Pos × Atom L)
  | _, [] => []
  | p, a :: as =>
    (a.place p, a) :: placed o env ((a.place p).skip (atomSize o env (a.place p) a.content)) as

/-- **Every label is where its value says.** -/
def Settled (o : Options) (env : L → Taddr) (sec : Section L) : Prop :=
  ∀ p a, (p, a) ∈ placed o env sec.start sec.atoms → ∀ l, a.content = .label l → env l = p.pc

/-! ## Passes -/

/-- What a pass has come to. -/
structure Pass (L : Type) where
  env : L → Taddr
  pos : Pos
  done : Bool
  extrapass : Bool

section Resolve

variable [DecidableEq L]

/-- A label gets a value. -/
def move (env : L → Taddr) (l : L) (pc : Taddr) : L → Taddr := fun l' =>
  if l' = l then pc else env l'

theorem move_ne {env : L → Taddr} {l l' : L} {pc : Taddr} (h : l' ≠ l) :
    move env l pc l' = env l' := if_neg h

/-- A pass takes a label to where it is. -/
def Pass.label (s : Pass L) : Content L → Pass L
  | .label l =>
    if s.env l = s.pos.pc then s else { s with env := move s.env l s.pos.pc, done := false }
  | _ => s

/-- A pass takes an atom to the size it has. -/
def Pass.resize (s : Pass L) (lastsize size : ℕ) : Pass L :=
  { s with
    pos := s.pos.skip size
    done := s.done && size == lastsize
    -- no extra pass, when an atom became larger
    extrapass := s.extrapass && size ≤ lastsize }

def isInstruction : Content L → Bool
  | .inst _ => true
  | _ => false

/-- The size of an atom is fixed, which had one in the last pass. In the safe mode, only
one instruction is changed. -/
def Pass.fix (o : Options) (safe : Bool) (s : Pass L) (c : Content L) (lastsize : ℕ) :
    Pass L × ℕ :=
  if safe && !s.done && isInstruction c then
    ({ s with pos := s.pos.skip lastsize }, lastsize)
  else
    (s.resize lastsize (atomSize o s.env s.pos c), atomSize o s.env s.pos c)

/-- **An atom in a pass.** -/
def Pass.atom (o : Options) (safe : Bool) (s : Pass L) (a : Atom L) (lastsize : ℕ) :
    Pass L × ℕ :=
  (Pass.label { s with pos := a.place s.pos } a.content).fix o safe a.content lastsize

/-- The atoms one after the other. -/
def Pass.atoms (o : Options) (safe : Bool) : Pass L → List (Atom L) → List ℕ → Pass L × List ℕ
  | s, [], _ => (s, [])
  | s, a :: as, sizes =>
    let (s, size) := s.atom o safe a (sizes.headD 0)
    let (s, sizes) := Pass.atoms o safe s as sizes.tail
    (s, size :: sizes)

/-- The number of passes that is too many. -/
def MAXPASSES : ℕ := 1500

/-- The passes, in the beginning, that change all instructions of a section. -/
def FASTOPTPHASE : ℕ := 200

/-- The values of the labels, and how long the atoms were in the last pass. -/
structure Layout (L : Type) where
  env : L → Taddr
  lastsize : List ℕ

/-- A pass over a section. -/
def Section.pass (o : Options) (sec : Section L) (safe : Bool) (ly : Layout L) :
    Pass L × List ℕ :=
  Pass.atoms o safe ⟨ly.env, sec.start, true, !safe⟩ sec.atoms ly.lastsize

/-- The passes from one on, if there are enough of them left. -/
def Section.passes (o : Options) (sec : Section L) (fastphase : ℕ) :
    ℕ → ℕ → Layout L → Option (ℕ × Layout L)
  | 0, _, _ => none
  | left + 1, pass, ly =>
    let (s, sizes) := sec.pass o (fastphase < pass) ly
    if s.done then some (pass, ⟨s.env, sizes⟩)
    -- the fast phase is extended, when there was no atom which became larger
    else passes o sec (if s.extrapass then fastphase + 1 else fastphase) left (pass + 1)
      ⟨s.env, sizes⟩

/-- **A section is laid out.** The result is the number of passes it took, and the
layout. -/
def resolveSection (o : Options) (sec : Section L) (ly : Layout L) : Option (ℕ × Layout L) :=
  sec.passes o FASTOPTPHASE (MAXPASSES - 1) 1 ly

/-! ## What a pass does -/

variable {o : Options} {safe : Bool}

theorem Pass.pos_label (s : Pass L) (c : Content L) : (s.label c).pos = s.pos := by
  unfold Pass.label
  split
  · split <;> rfl
  · rfl

/-- A label that is where its value says is left alone. -/
theorem Pass.label_of_done {s : Pass L} {c : Content L} (h : (s.label c).done = true) :
    s.label c = s ∧ ∀ l, c = .label l → s.env l = s.pos.pc := by
  unfold Pass.label at h ⊢
  split at h
  · rename_i l
    by_cases hl : s.env l = s.pos.pc
    · rw [if_pos hl]
      exact ⟨rfl, fun l' hl' => by rw [← Content.label.inj hl', hl]⟩
    · rw [if_neg hl] at h
      exact absurd h Bool.false_ne_true
  · rename_i hc
    exact ⟨rfl, fun l hl => absurd hl (hc l)⟩

omit [DecidableEq L] in
/-- An instruction is skipped only where something has changed. -/
theorem Pass.fix_of_done {s : Pass L} {c : Content L} {lastsize : ℕ}
    (h : (s.fix o safe c lastsize).1.done = true) :
    s.done = true ∧ s.fix o safe c lastsize
      = (s.resize lastsize (atomSize o s.env s.pos c), atomSize o s.env s.pos c) := by
  unfold Pass.fix at h ⊢
  split at h
  · rename_i hskip
    rw [show s.done = true from h, Bool.not_true, Bool.and_false, Bool.false_and] at hskip
    exact absurd hskip Bool.false_ne_true
  · rename_i hskip
    exact ⟨(Bool.and_eq_true_iff.mp h).1, if_neg hskip⟩

/-- **Nothing has changed at an atom if a pass says so behind it.** -/
theorem Pass.atom_of_done {s : Pass L} {a : Atom L} {lastsize : ℕ}
    (h : (s.atom o safe a lastsize).1.done = true) :
    s.done = true ∧ (s.atom o safe a lastsize).1.env = s.env
      ∧ (s.atom o safe a lastsize).1.pos
        = (a.place s.pos).skip (atomSize o s.env (a.place s.pos) a.content)
      ∧ ∀ l, a.content = .label l → s.env l = (a.place s.pos).pc := by
  obtain ⟨hdone, hfix⟩ := Pass.fix_of_done h
  obtain ⟨hsame, hlabel⟩ := Pass.label_of_done hdone
  rw [hsame] at hdone
  rw [Pass.atom, hfix, hsame]
  exact ⟨hdone, rfl, rfl, hlabel⟩

theorem Pass.atoms_cons (s : Pass L) (a : Atom L) (as : List (Atom L)) (sizes : List ℕ) :
    Pass.atoms o safe s (a :: as) sizes
      = ((Pass.atoms o safe (s.atom o safe a (sizes.headD 0)).1 as sizes.tail).1,
        (s.atom o safe a (sizes.headD 0)).2
          :: (Pass.atoms o safe (s.atom o safe a (sizes.headD 0)).1 as sizes.tail).2) := rfl

/-- **Nothing has changed in a pass if it says so in the end**: every label was where its
value says. -/
theorem Pass.atoms_of_done {s : Pass L} {as : List (Atom L)} {sizes : List ℕ}
    (h : (Pass.atoms o safe s as sizes).1.done = true) :
    s.done = true ∧ (Pass.atoms o safe s as sizes).1.env = s.env
      ∧ ∀ p a, (p, a) ∈ placed o s.env s.pos as → ∀ l, a.content = .label l → s.env l = p.pc := by
  induction as generalizing s sizes with
  | nil => exact ⟨h, rfl, fun _ _ hmem => absurd hmem List.not_mem_nil⟩
  | cons a as ih =>
    rw [Pass.atoms_cons] at h ⊢
    obtain ⟨hdone, henv, hrest⟩ := ih h
    obtain ⟨hdone, henva, hpos, hlabel⟩ := Pass.atom_of_done hdone
    rw [henva, hpos] at hrest
    refine ⟨hdone, henv.trans henva, fun p a' hmem => ?_⟩
    rcases List.mem_cons.mp hmem with heq | hmem
    · rw [(Prod.mk.inj heq).1, (Prod.mk.inj heq).2]
      exact hlabel
    · exact hrest p a' hmem

/-- A label is one of a section. -/
def Section.Defines (sec : Section L) (l : L) : Prop :=
  ∃ a ∈ sec.atoms, a.content = .label l

theorem move_self {env : L → Taddr} {l : L} {pc : Taddr} : move env l pc l = pc := if_pos rfl

/-- A label is taken to its place. -/
theorem Pass.env_label (s : Pass L) (l : L) : (s.label (.label l)).env l = s.pos.pc := by
  show (if s.env l = s.pos.pc then s else _ : Pass L).env l = s.pos.pc
  by_cases h : s.env l = s.pos.pc
  · rw [if_pos h, h]
  · rw [if_neg h]
    exact move_self

/-- The others stay where they are. -/
theorem Pass.env_label_ne {s : Pass L} {c : Content L} {l : L} (hl : c ≠ .label l) :
    (s.label c).env l = s.env l := by
  unfold Pass.label
  split
  · rename_i l'
    split
    · rfl
    · exact move_ne fun h => hl (by rw [h])
  · rfl

/-- The labels behind an atom. -/
theorem Pass.env_atom (s : Pass L) (a : Atom L) (lastsize : ℕ) :
    (s.atom o safe a lastsize).1.env
      = (Pass.label { s with pos := a.place s.pos } a.content).env := by
  unfold Pass.atom Pass.fix
  split <;> rfl

/-- **A pass moves no other labels.** -/
theorem Pass.env_atoms {s : Pass L} {as : List (Atom L)} {sizes : List ℕ} {l : L}
    (hl : ∀ a ∈ as, a.content ≠ .label l) : (Pass.atoms o safe s as sizes).1.env l = s.env l := by
  induction as generalizing s sizes with
  | nil => rfl
  | cons a as ih =>
    rw [Pass.atoms_cons]
    rw [ih fun a' ha' => hl a' (List.mem_cons_of_mem a ha'), Pass.env_atom]
    exact Pass.env_label_ne (hl a List.mem_cons_self)

/-! ## What the passes come to -/

/-- **What it means that a section has been laid out**, in some passes of which the first
had the given number. -/
structure Section.LaidOut (o : Options) (sec : Section L) (pass : ℕ) (env : L → Taddr)
    (passes : ℕ) (env' : L → Taddr) : Prop where
  settled : Settled o env' sec
  frame : ∀ l, ¬sec.Defines l → env' l = env l
  /-- If the first pass was the last one, nothing has changed. -/
  same : passes ≤ pass → env' = env

theorem Section.passes_succ (sec : Section L) (fastphase left pass : ℕ) (ly : Layout L) :
    sec.passes o fastphase (left + 1) pass ly
      = if (sec.pass o (fastphase < pass) ly).1.done then
          some (pass, ⟨(sec.pass o (fastphase < pass) ly).1.env,
            (sec.pass o (fastphase < pass) ly).2⟩)
        else sec.passes o
          (if (sec.pass o (fastphase < pass) ly).1.extrapass then fastphase + 1 else fastphase)
          left (pass + 1)
          ⟨(sec.pass o (fastphase < pass) ly).1.env, (sec.pass o (fastphase < pass) ly).2⟩ := rfl

theorem Section.laidOut_of_passes {sec : Section L} {fastphase left pass passes : ℕ}
    {ly ly' : Layout L} (h : sec.passes o fastphase left pass ly = some (passes, ly')) :
    sec.LaidOut o pass ly.env passes ly'.env ∧ pass ≤ passes := by
  induction left generalizing fastphase pass ly with
  | zero => exact absurd h (Option.some_ne_none _).symm
  | succ left ih =>
    have hframe : ∀ l, ¬sec.Defines l → (sec.pass o (fastphase < pass) ly).1.env l = ly.env l :=
      fun l hl => Pass.env_atoms fun a ha hlabel => hl ⟨a, ha, hlabel⟩
    rw [Section.passes_succ] at h
    by_cases hdone : (sec.pass o (fastphase < pass) ly).1.done = true
    · obtain ⟨-, henv, hlabels⟩ := Pass.atoms_of_done hdone
      simp only [hdone, if_true] at h
      obtain ⟨rfl, rfl⟩ := Prod.mk.inj (Option.some_inj.mp h)
      have hsame : (sec.pass o (fastphase < pass) ly).1.env = ly.env := henv
      refine ⟨⟨?_, hframe, fun _ => hsame⟩, Nat.le_refl _⟩
      intro p a hmem l hl
      simp only [hsame] at hmem ⊢
      exact hlabels p a hmem l hl
    · simp only [hdone] at h
      obtain ⟨hlaid, hle⟩ := ih h
      refine ⟨⟨hlaid.settled, fun l hl => (hlaid.frame l hl).trans (hframe l hl), ?_⟩,
        Nat.le_of_succ_le hle⟩
      intro hpass
      omega

/-- **At the end the layout is consistent.** -/
theorem laidOut_of_resolveSection {sec : Section L} {passes : ℕ} {ly ly' : Layout L}
    (h : resolveSection o sec ly = some (passes, ly')) :
    sec.LaidOut o 1 ly.env passes ly'.env :=
  (Section.laidOut_of_passes h).1

end Resolve

/-! ## What a layout depends on -/

/-- The labels whose values an atom needs for its size. -/
def Content.uses : Content L → List L
  | .inst ip => ip.labels
  | .space sb => sb.space.labels
  | _ => []

def Section.uses (sec : Section L) : List L := sec.atoms.flatMap fun a => a.content.uses

variable {o : Options} {env env' : L → Taddr}

theorem atomSize_congr {p : Pos} {c : Content L} (h : ∀ l ∈ c.uses, env l = env' l) :
    atomSize o env p c = atomSize o env' p c := by
  cases c with
  | inst ip => exact congrArg getInstSize (optimizeInstruction_congr h)
  | space sb => exact congrArg (fun n => sb.size * BitVec.toNat n) (Expr.eval_congr h)
  | _ => rfl

theorem placed_congr {p : Pos} {as : List (Atom L)}
    (h : ∀ a ∈ as, ∀ l ∈ a.content.uses, env l = env' l) :
    placed o env p as = placed o env' p as := by
  induction as generalizing p with
  | nil => rfl
  | cons a as ih =>
    rw [placed, placed, atomSize_congr (h a List.mem_cons_self),
      ih fun a' ha' => h a' (List.mem_cons_of_mem a ha')]

theorem mem_of_mem_placed {p q : Pos} {a : Atom L} {as : List (Atom L)}
    (h : (q, a) ∈ placed o env p as) : a ∈ as := by
  induction as generalizing p with
  | nil => exact absurd h List.not_mem_nil
  | cons b as ih =>
    rcases List.mem_cons.mp h with heq | h
    · rw [(Prod.mk.inj heq).2]
      exact List.mem_cons_self
    · exact List.mem_cons_of_mem b (ih h)

/-- **A layout stays consistent** when only labels move that the section neither has nor
uses. -/
theorem Settled.congr {sec : Section L} (hs : Settled o env sec)
    (huses : ∀ l ∈ sec.uses, env' l = env l) (hdef : ∀ l, sec.Defines l → env' l = env l) :
    Settled o env' sec := by
  intro p a hmem l hl
  rw [placed_congr fun a' ha' l' hl' => huses l' (List.mem_flatMap_of_mem ha' hl')] at hmem
  rw [hdef l ⟨a, mem_of_mem_placed hmem, hl⟩]
  exact hs p a hmem l hl

/-! ## Where the sizes do not depend on the labels -/

/-- **The sizes of some atoms are fixed**: where they stand in the layout `E`, they have the
same size with all values of the labels that are of a kind. -/
def Rigid (o : Options) (G : Taddr → Prop) (E : L → Taddr) (p : Pos) (as : List (Atom L)) :
    Prop :=
  ∀ q a, (q, a) ∈ placed o E p as → ∀ env : L → Taddr, (∀ l, G (env l)) →
    atomSize o env q a.content = atomSize o E q a.content

/-- How long the atoms are, in a layout. -/
def sizes (o : Options) (env : L → Taddr) (p : Pos) (as : List (Atom L)) : List ℕ :=
  (placed o env p as).map fun q => atomSize o env q.1 q.2.content

section Rigid

variable [DecidableEq L] {G : Taddr → Prop}

/-- A label that is in its place leaves a pass as it is. -/
theorem Pass.label_of_placed {s : Pass L} {c : Content L}
    (h : ∀ l, c = .label l → s.env l = s.pos.pc) : s.label c = s := by
  unfold Pass.label
  split
  · exact if_pos (h _ rfl)
  · rfl

/-- The values stay of the kind if the places are. -/
theorem Pass.good_label {s : Pass L} {c : Content L} (hs : ∀ l, G (s.env l))
    (hc : ∀ l, c = .label l → G s.pos.pc) : ∀ l, G ((s.label c).env l) := by
  intro l
  by_cases hl : c = .label l
  · rw [hl, Pass.env_label]
    exact hc l hl
  · rw [Pass.env_label_ne hl]
    exact hs l

/-- An atom in the fast phase. -/
theorem Pass.atom_fast {s : Pass L} {a : Atom L} {size : ℕ}
    (h : atomSize o (Pass.label { s with pos := a.place s.pos } a.content).env (a.place s.pos)
      a.content = size) (lastsize : ℕ) :
    s.atom o false a lastsize
      = ((Pass.label { s with pos := a.place s.pos } a.content).resize lastsize size, size) := by
  unfold Pass.atom Pass.fix
  rw [Bool.false_and, Bool.false_and, if_neg Bool.false_ne_true, Pass.pos_label, h]

omit [DecidableEq L] in
theorem sizes_cons (o : Options) (env : L → Taddr) (p : Pos) (a : Atom L) (as : List (Atom L)) :
    sizes o env p (a :: as)
      = atomSize o env (a.place p) a.content
        :: sizes o env ((a.place p).skip (atomSize o env (a.place p) a.content)) as := rfl

variable {E : L → Taddr}

/-- **A pass over atoms of fixed size**, in the fast phase: it comes to the layout `E` that
they have. -/
theorem Pass.atoms_rigid (hE : ∀ l, G (E l)) {s : Pass L} {as : List (Atom L)} (ns : List ℕ)
    (hr : Rigid o G E s.pos as) (hs : ∀ l, G (s.env l))
    (hset : ∀ p a, (p, a) ∈ placed o E s.pos as → ∀ l, a.content = .label l → E l = p.pc) :
    (∀ l, G ((Pass.atoms o false s as ns).1.env l))
      ∧ (∀ a ∈ as, ∀ l, a.content = .label l → (Pass.atoms o false s as ns).1.env l = E l)
      ∧ (Pass.atoms o false s as ns).2 = sizes o E s.pos as
      ∧ (s.done = true → (∀ a ∈ as, ∀ l, a.content = .label l → s.env l = E l) →
        ns = sizes o E s.pos as → (Pass.atoms o false s as ns).1.done = true) := by
  induction as generalizing s ns with
  | nil => exact ⟨hs, fun _ h => absurd h List.not_mem_nil, rfl, fun h _ _ => h⟩
  | cons a as ih =>
    have hplace : ∀ l, a.content = .label l → E l = (a.place s.pos).pc :=
      hset _ a List.mem_cons_self
    have hgood := Pass.good_label (s := { s with pos := a.place s.pos }) (c := a.content) hs
      fun l hl => hplace l hl ▸ hE l
    have hsize := hr _ a List.mem_cons_self _ hgood
    rw [Pass.atoms_cons, Pass.atom_fast hsize, sizes_cons]
    generalize hs₁ : (Pass.label { s with pos := a.place s.pos } a.content).resize (ns.headD 0)
      (atomSize o E (a.place s.pos) a.content) = s₁
    have hpos : s₁.pos = (a.place s.pos).skip (atomSize o E (a.place s.pos) a.content) := by
      rw [← hs₁, Pass.resize, Pass.pos_label]
    have henv₁ : s₁.env = (Pass.label { s with pos := a.place s.pos } a.content).env := by
      rw [← hs₁, Pass.resize]
    have hset₁ : ∀ p a', (p, a') ∈ placed o E s₁.pos as → ∀ l, a'.content = .label l →
        E l = p.pc := by
      rw [hpos]
      exact fun p a' hmem => hset p a' (List.mem_cons_of_mem _ hmem)
    obtain ⟨hG, henv, hsizes, hdone⟩ := ih (s := s₁) ns.tail
      (by
        rw [hpos]
        exact fun q a' hmem => hr q a' (List.mem_cons_of_mem _ hmem))
      (henv₁ ▸ hgood) hset₁
    refine ⟨hG, fun a' ha' l hl => ?_, by rw [← hpos, ← hsizes], fun hd hagree hns => ?_⟩
    · by_cases hin : ∃ b ∈ as, b.content = .label l
      · obtain ⟨b, hb, hbl⟩ := hin
        exact henv b hb l hbl
      · rcases List.mem_cons.mp ha' with rfl | ha'
        · rw [Pass.env_atoms fun b hb hbl => hin ⟨b, hb, hbl⟩, henv₁, hl, Pass.env_label, hplace l hl]
        · exact absurd ⟨a', ha', hl⟩ hin
    · -- where the layout is there already, nothing changes
      have hsame : Pass.label { s with pos := a.place s.pos } a.content
          = { s with pos := a.place s.pos } :=
        Pass.label_of_placed fun l hl => by rw [hagree a List.mem_cons_self l hl, hplace l hl]
      rw [hsame] at henv₁ hs₁
      refine hdone ?_ (fun b hb l hl => ?_) ?_
      · rw [← hs₁, hns]
        show (s.done && _ == _) = true
        rw [hd, List.headD_cons, beq_self_eq_true]
        rfl
      · rw [henv₁]
        exact hagree b (List.mem_cons_of_mem a hb) l hl
      · rw [hns, hpos]
        rfl

/-- A section is in the layout `E`. -/
structure Section.In (o : Options) (E : L → Taddr) (sec : Section L) (ly : Layout L) :
    Prop where
  env : ∀ l, sec.Defines l → ly.env l = E l
  lastsize : ly.lastsize = sizes o E sec.start sec.atoms

/-- **A section of fixed sizes** that has a layout `E` comes to it, in two passes at most,
and in one if it is there already. -/
theorem resolveSection_rigid {sec : Section L} {ly : Layout L} (hE : ∀ l, G (E l))
    (hr : Rigid o G E sec.start sec.atoms) (hset : Settled o E sec) (hly : ∀ l, G (ly.env l)) :
    ∃ passes ly', resolveSection o sec ly = some (passes, ly') ∧ (∀ l, G (ly'.env l))
      ∧ sec.In o E ly' ∧ (sec.In o E ly → passes = 1) := by
  have hpass : ∀ ly : Layout L, (∀ l, G (ly.env l)) →
      (∀ l, G ((sec.pass o false ly).1.env l))
        ∧ sec.In o E ⟨(sec.pass o false ly).1.env, (sec.pass o false ly).2⟩
        ∧ (sec.In o E ly → (sec.pass o false ly).1.done = true) := by
    intro ly hly
    obtain ⟨hG, henv, hsizes, hdone⟩ := Pass.atoms_rigid (o := o)
      (s := ⟨ly.env, sec.start, true, true⟩) hE ly.lastsize hr hly hset
    exact ⟨hG, ⟨fun l ⟨a, ha, hl⟩ => henv a ha l hl, hsizes⟩,
      fun hin => hdone rfl (fun a ha l hl => hin.env l ⟨a, ha, hl⟩) hin.lastsize⟩
  obtain ⟨hG, hin, hdone⟩ := hpass ly hly
  obtain ⟨hG', hin', hdone'⟩ :=
    hpass ⟨(sec.pass o false ly).1.env, (sec.pass o false ly).2⟩ hG
  -- the first two passes are in the fast phase
  rw [resolveSection, show MAXPASSES - 1 = 1497 + 1 + 1 from rfl, Section.passes_succ,
    show decide (FASTOPTPHASE < 1) = false from rfl]
  by_cases h₁ : (sec.pass o false ly).1.done = true
  · rw [if_pos h₁]
    exact ⟨1, _, rfl, hG, hin, fun _ => rfl⟩
  · rw [if_neg h₁]
    have hfast : decide ((if (sec.pass o false ly).1.extrapass then FASTOPTPHASE + 1
        else FASTOPTPHASE) < 1 + 1) = false := by
      split <;> rfl
    refine ⟨2, _, ?_, hG', hin', fun h => absurd (hdone h) h₁⟩
    rw [Section.passes_succ, hfast, if_pos (hdone' hin)]

end Rigid

end Vasm
