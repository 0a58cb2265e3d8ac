import Eater6502.VasmSection
import Eater6502.Worklist

/-!
# All sections of the assembler together

The sections are laid out one after the other (`resolve`). Where a section uses a label
of another one, it has to be laid out again when that one has changed, which is found out
on the way: the evaluation of an expression notes the section of every label in it
(`add_dep`). So the resolver is a worklist.

When it ends, the layout of all sections is consistent (`settled_of_resolve`), whatever
the values of the labels were in the beginning. It ends if the sizes of the atoms do not
depend on where exactly the labels are (`Rigid`), and then there is only one layout it
can end with (`resolve_of_rigid`).
-/

namespace Vasm

variable {L : Type}

/-- **The sections**, and the one that a label belongs to. -/
structure Program (L : Type) where
  secs : List (Section L)
  /-- The number of the section of a label. -/
  sec : L → ℕ
  owned : ∀ {i s}, secs[i]? = some s → ∀ {l}, s.Defines l → sec l = i

/-- The values of the labels, and how long the atoms of the sections were last. -/
structure Layouts (L : Type) where
  env : L → Taddr
  lastsize : ℕ → List ℕ

namespace Program

/-- A section depends on another one (`add_dep`). -/
def reads (p : Program L) (i j : ℕ) : Bool :=
  i != j && (p.secs[i]?.elim [] Section.uses).any fun l => p.sec l == j

variable [DecidableEq L]

/-- A section is laid out. It has changed if that took more than one pass. -/
def work (o : Options) (p : Program L) (i : ℕ) (ly : Layouts L) : Option (Bool × Layouts L) :=
  match p.secs[i]? with
  | none => some (false, ly)
  | some s => (resolveSection o s ⟨ly.env, ly.lastsize i⟩).map fun r =>
    (decide (1 < r.1), ⟨r.2.env, fun j => if j = i then r.2.lastsize else ly.lastsize j⟩)

def system (o : Options) (p : Program L) : Worklist.System ℕ (Layouts L) := ⟨p.work o, p.reads⟩

end Program

/-- **All sections are laid out**, if that takes no more than some rounds, and no section
needs too many passes. -/
def resolve [DecidableEq L] (o : Options) (p : Program L) (rounds : ℕ) (ly : Layouts L) :
    Option (Layouts L) :=
  (Worklist.run (p.system o) (List.range p.secs.length) rounds (.init ly)).map fun st => st.data

/-! ## At the end the layout is consistent -/

namespace Program

variable {o : Options} {p : Program L}

/-- What a section uses of another one it reads. -/
theorem reads_of_mem_uses {i j : ℕ} {s : Section L} {l : L} (hs : p.secs[i]? = some s)
    (hij : i ≠ j) (hl : l ∈ s.uses) (hj : p.sec l = j) : p.reads i j = true := by
  rw [reads, hs, bne_iff_ne.mpr hij, Bool.true_and]
  exact List.any_eq_true.mpr ⟨l, hl, beq_iff_eq.mpr hj⟩

variable [DecidableEq L]

theorem work_some {i passes : ℕ} {s : Section L} {ly : Layouts L} {ly' : Layout L}
    (hs : p.secs[i]? = some s)
    (h : resolveSection o s ⟨ly.env, ly.lastsize i⟩ = some (passes, ly')) :
    p.work o i ly = some (decide (1 < passes),
      ⟨ly'.env, fun j => if j = i then ly'.lastsize else ly.lastsize j⟩) := by
  rw [work, hs]
  simp only [h, Option.map_some]

/-- The work on a section, in terms of its layout. -/
theorem work_cases {i : ℕ} {ly ly' : Layouts L} {b : Bool}
    (h : p.work o i ly = some (b, ly')) :
    (p.secs[i]? = none ∧ ly' = ly) ∨ ∃ s passes, p.secs[i]? = some s
      ∧ s.LaidOut o 1 ly.env passes ly'.env ∧ b = decide (1 < passes) := by
  unfold work at h
  cases hs : p.secs[i]? with
  | none =>
    rw [hs] at h
    exact .inl ⟨rfl, (Prod.mk.inj (Option.some_inj.mp h)).2.symm⟩
  | some s =>
    rw [hs] at h
    obtain ⟨r, hr, heq⟩ := Option.map_eq_some_iff.mp h
    obtain ⟨rfl, rfl⟩ := Prod.mk.inj heq
    exact .inr ⟨s, r.1, rfl, laidOut_of_resolveSection hr, rfl⟩

/-- **The resolver follows the rules of a worklist.** -/
theorem lawful (o : Options) (p : Program L) :
    (p.system o).Lawful fun ly i => ∀ s, p.secs[i]? = some s → Settled o ly.env s where
  work_ok h s hs := by
    rcases work_cases h with ⟨hnone, -⟩ | ⟨s', passes, hs', hlaid, -⟩
    · exact absurd (hs.symm.trans hnone) (Option.some_ne_none s)
    · obtain rfl := Option.some_inj.mp (hs.symm.trans hs')
      exact hlaid.settled
  work_same h hok s hs := by
    rcases work_cases h with ⟨-, rfl⟩ | ⟨s', passes, -, hlaid, hb⟩
    · exact hok s hs
    · rw [hlaid.same (Nat.not_lt.mp (of_decide_eq_false hb.symm))]
      exact hok s hs
  work_frame {i ly b ly' j} h hji hreads hok s hs := by
    rcases work_cases h with ⟨-, rfl⟩ | ⟨s', passes, hs', hlaid, -⟩
    · exact hok s hs
    · refine (hok s hs).congr (fun l hl => hlaid.frame l fun hdef => ?_)
        fun l hl => hlaid.frame l fun hdef => ?_
      · have hread : (p.system o).reads j i = true :=
          reads_of_mem_uses hs hji hl (p.owned hs' hdef)
        exact absurd (hreads.symm.trans hread) Bool.false_ne_true
      · exact hji ((p.owned hs hl).symm.trans (p.owned hs' hdef))

end Program

variable [DecidableEq L] {o : Options} {p : Program L}

/-- **When the resolver ends, every label of every section is where its value says.** -/
theorem settled_of_resolve {rounds : ℕ} {ly ly' : Layouts L}
    (h : resolve o p rounds ly = some ly') {s : Section L} (hs : s ∈ p.secs) :
    Settled o ly'.env s := by
  obtain ⟨st, hst, rfl⟩ := Option.map_eq_some_iff.mp h
  obtain ⟨i, hi⟩ := List.mem_iff_getElem?.mp hs
  have hlt : i < p.secs.length := (List.getElem?_eq_some_iff.mp hi).1
  exact Worklist.upToDate_of_run (p.lawful o) hst i (List.mem_range.mpr hlt) s hi

/-! ## When it ends -/

/-- All sections are in the layout `E` of the atoms, which are of fixed sizes. -/
structure Program.Fixed (o : Options) (G : Taddr → Prop) (E : L → Taddr) (p : Program L) :
    Prop where
  good : ∀ l, G (E l)
  rigid : ∀ s ∈ p.secs, Rigid o G E s.start s.atoms
  settled : ∀ s ∈ p.secs, Settled o E s

variable {G : Taddr → Prop} {E : L → Taddr}

/-- **The work on sections of fixed sizes lasts.** -/
theorem Program.Fixed.lasting (h : p.Fixed o G E) :
    (p.system o).Lasting (fun ly => ∀ l, G (ly.env l)) fun ly i =>
      ∀ s, p.secs[i]? = some s → s.In o E ⟨ly.env, ly.lastsize i⟩ where
  work_final i ly hly := by
    cases hs : p.secs[i]? with
    | none =>
      refine ⟨false, ly, ?_, hly, fun s hs' => ?_, fun _ hj => hj, fun _ => rfl⟩
      · show p.work o i ly = _
        rw [Program.work, hs]
      · exact absurd hs' (Option.some_ne_none s).symm
    | some s =>
      have hmem : s ∈ p.secs := List.mem_of_getElem? hs
      obtain ⟨passes, ly', hres, hG, hin, hone⟩ :=
        resolveSection_rigid (h.good) (h.rigid s hmem) (h.settled s hmem)
          (show ∀ l, G ((⟨ly.env, ly.lastsize i⟩ : Layout L).env l) from hly)
      refine ⟨_, _, Program.work_some hs hres, hG, fun t ht => ?_, fun j hj t ht => ?_,
        fun hfin => ?_⟩
      · obtain rfl := Option.some_inj.mp ht
        simp only [if_true]
        exact hin
      · by_cases hji : j = i
        · subst hji
          obtain rfl := Option.some_inj.mp (hs.symm.trans ht)
          simp only [if_true]
          exact hin
        · -- the labels of another section have not been moved
          have hframe := (laidOut_of_resolveSection hres).frame
          refine ⟨fun l hl => ?_, ?_⟩
          · rw [← (hj t ht).env l hl]
            exact hframe l fun hdef => hji ((p.owned ht hl).symm.trans (p.owned hs hdef))
          · simp only [if_neg hji]
            exact (hj t ht).lastsize
      · rw [hone (hfin s rfl)]
        rfl

/-- **The resolver ends with the one layout there is**, if the sizes of the atoms do not
depend on where exactly the labels are. -/
theorem resolve_of_rigid (h : p.Fixed o G E) {ly : Layouts L} (hly : ∀ l, G (ly.env l)) :
    ∃ ly', resolve o p 3 ly = some ly' ∧ ∀ s ∈ p.secs, ∀ l, s.Defines l → ly'.env l = E l := by
  obtain ⟨st, hst, hfin⟩ := Worklist.exists_run h.lasting (List.range p.secs.length) hly
  refine ⟨st.data, by rw [resolve, hst]; rfl, fun s hs l hl => ?_⟩
  obtain ⟨i, hi⟩ := List.mem_iff_getElem?.mp hs
  have hlt : i < p.secs.length := (List.getElem?_eq_some_iff.mp hi).1
  exact (hfin i (List.mem_range.mpr hlt) s hi).env l hl

end Vasm
