import Eater6502.VasmListing

/-!
# The ROM image that the assembler makes of a listing

A listing with the vectors behind it, as in `prog.s`, is a program of two sections. The
assembler ends on it, lays it out as the listing says, and writes the bytes of the listing,
zeros, and the address of the entry where the processor looks for it (`vasm_listing`). So a
processor that is reset with this file in its ROM is about to execute the listing
(`listing_in_rom`). For `prog.s` the file is the image which is in the ROM of the board, so
that what has been proved of the board with this image is about what the makefile builds
(`vasm_prog`).
-/

namespace Vasm

open Isa Asm

variable {L : Type}

/-! ## Chunks without gaps -/

/-- **Some chunks are some bytes**, from an address on, and nothing else. -/
structure Straight (n : ℕ) (cs : List (Chunk L)) (bs : List Byte) : Prop where
  data : cs.flatMap Chunk.data = bs
  clean : ∀ c ∈ cs, c.complaints = []
  align : ∀ c ∈ cs, c.atom.align = 1
  below : ∀ c ∈ cs, c.pos.pc.toNat + c.data.length ≤ n + bs.length
  empty : ∀ c ∈ cs, c.atom.content.initialized = false → c.data = []

namespace Straight

variable {n : ℕ} {cs : List (Chunk L)} {bs : List Byte}

theorem nil (n : ℕ) : Straight n ([] : List (Chunk L)) [] :=
  ⟨rfl, by simp, by simp, by simp, by simp⟩

/-- One more chunk in front. -/
theorem cons {c : Chunk L} (h : Straight (n + c.data.length) cs bs) (hclean : c.complaints = [])
    (halign : c.atom.align = 1) (hpos : c.pos.pc.toNat = n)
    (hempty : c.atom.content.initialized = false → c.data = []) :
    Straight n (c :: cs) (c.data ++ bs) where
  data := by rw [List.flatMap_cons, h.data]
  clean c' hc' := by
    rcases List.mem_cons.mp hc' with rfl | hc'
    · exact hclean
    · exact h.clean c' hc'
  align c' hc' := by
    rcases List.mem_cons.mp hc' with rfl | hc'
    · exact halign
    · exact h.align c' hc'
  below c' hc' := by
    rw [List.length_append]
    rcases List.mem_cons.mp hc' with rfl | hc'
    · omega
    · have hle := h.below c' hc'
      omega
  empty c' hc' := by
    rcases List.mem_cons.mp hc' with rfl | hc'
    · exact hempty
    · exact h.empty c' hc'

theorem fwpattern_zero (pat : List Byte) : fwpattern (0 : Taddr).toNat pat = [] :=
  List.length_eq_zero_iff.mp (length_fwpattern _ pat)

/-- They are aligned without any bytes. -/
theorem writeAtoms_eq (h : ∀ c ∈ cs, c.atom.align = 1) (env : L → Taddr) (pad : List Byte)
    (pc : ℕ) : (writeAtoms env pad pc cs).1 = cs.flatMap Chunk.data := by
  induction cs generalizing pc with
  | nil => rfl
  | cons c cs ih =>
    have hgap : (fwpcalign env pad c (BitVec.ofNat 32 pc)).1 = [] := by
      unfold fwpcalign
      rw [h c List.mem_cons_self, balign_one]
      dsimp only
      split
      · split
        · split
          · rfl
          · exact fwpattern_zero _
        · exact fwpattern_zero _
      · exact fwpattern_zero _
    rw [writeAtoms_cons, hgap, ih fun c' hc' => h c' (List.mem_cons_of_mem c hc')]
    rfl

/-- All of them are written. -/
theorem writeAtoms_trim (h : Straight n cs bs) (env : L → Taddr) (pad : List Byte) (pc : ℕ) :
    (writeAtoms env pad pc (trimUninitialized cs)).1 = bs := by
  obtain ⟨rest, hcs, hrest⟩ := trimUninitialized_spec cs
  have hempty : rest.flatMap Chunk.data = [] := by
    refine List.flatMap_eq_nil_iff.mpr fun c hc => h.empty c ?_ (hrest c hc)
    rw [hcs]
    exact List.mem_append_right _ hc
  have htrim : ∀ c ∈ trimUninitialized cs, c.atom.align = 1 := by
    intro c hc
    refine h.align c ?_
    rw [hcs]
    exact List.mem_append_left _ hc
  have hdata := h.data
  rw [hcs, List.flatMap_append, hempty, List.append_nil] at hdata
  rw [writeAtoms_eq htrim, hdata]

/-- They end where the bytes do. -/
theorem toNat_behind_le (h : ∀ c ∈ cs, c.pos.pc.toNat + c.data.length ≤ n) {pc : Taddr}
    (hpc : pc.toNat ≤ n) : (behind pc cs).toNat ≤ n := by
  unfold behind
  cases hlast : cs.getLast? with
  | none => exact hpc
  | some c =>
    have hle := h c (List.mem_of_getLast? hlast)
    show (c.pos.pc + BitVec.ofNat 32 c.data.length).toNat ≤ n
    rw [BitVec.toNat_add, BitVec.toNat_ofNat]
    omega

/-- The address space does not overflow. -/
theorem overflows_eq (h : ∀ c ∈ cs, c.pos.pc.toNat + c.data.length < 2 ^ 32) :
    overflows false cs = [] := by
  induction cs with
  | nil => rfl
  | cons c cs ih =>
    have hlt := h c List.mem_cons_self
    have hrest := ih fun c' hc' => h c' (List.mem_cons_of_mem c hc')
    have hval : (c.pos.pc + BitVec.ofNat 32 c.data.length).toNat
        = c.pos.pc.toNat + c.data.length := by
      rw [BitVec.toNat_add, BitVec.toNat_ofNat]
      omega
    unfold overflows
    by_cases hsame : c.pos.pc + BitVec.ofNat 32 c.data.length = c.pos.pc
    · rw [if_pos hsame]
      exact hrest
    · have hne : (c.pos.pc + BitVec.ofNat 32 c.data.length).toNat ≠ c.pos.pc.toNat := fun heq =>
        hsame (BitVec.eq_of_toNat_eq heq)
      have hzero : (c.pos.pc + BitVec.ofNat 32 c.data.length == 0) = false := by
        refine beq_eq_false_iff_ne.mpr fun heq => ?_
        rw [heq] at hval hne
        exact hne (by rw [show (0 : Taddr).toNat = 0 from rfl] at *; omega)
      have hlast : ¬(c.pos.pc + BitVec.ofNat 32 c.data.length - 1 < c.pos.pc ∨ false = true) := by
        rintro (hlow | hfalse)
        · rw [BitVec.lt_def, BitVec.toNat_sub, hval] at hlow
          rw [hval] at hne
          change _ % _ < _ at hlow
          rw [show (1 : Taddr).toNat = 1 from rfl] at hlow
          omega
        · exact Bool.false_ne_true hfalse
      rw [if_neg hsame, hzero, hrest, if_neg hlast]
      rfl

/-- **A section that becomes some bytes, and nothing else.** -/
theorem assembled {o : Options} {env : L → Taddr} {sec : Section L} {bs : List Byte}
    (h : Straight sec.org.toNat (chunks o env sec.start sec.atoms) bs)
    (halign : ∀ a ∈ sec.atoms, a.align = 1) (hlow : sec.org.toNat + bs.length < 2 ^ 31) :
    (assemble o env sec).complaints = []
      ∧ (assemble o env sec).pc.toNat = sec.org.toNat + bs.length
      ∧ writeSection env (assemble o env sec) = (bs, sec.org.toNat + bs.length) := by
  have hbelow : ∀ c ∈ chunks o env sec.start sec.atoms,
      c.pos.pc.toNat + c.data.length < 2 ^ 31 := fun c hc => Nat.lt_of_le_of_lt (h.below c hc) hlow
  have hfits : sec.Fits o env :=
    ⟨fun a ha => by rw [halign a ha]; exact (by decide : (1 : Taddr).toNat < 2 ^ 31),
      Nat.lt_of_le_of_lt (Nat.le_add_right _ _) hlow, hbelow⟩
  have hbytes : (writeSection env (assemble o env sec)).1 = bs := h.writeAtoms_trim env sec.pad _
  have hend : (writeSection env (assemble o env sec)).2 = sec.org.toNat + bs.length := by
    rw [(writeSection_spec hfits).1, hbytes]
  refine ⟨?_, Nat.le_antisymm ?_ ?_, Prod.ext hbytes hend⟩
  · refine List.append_eq_nil_iff.mpr ⟨List.flatMap_eq_nil_iff.mpr h.clean, overflows_eq ?_⟩
    exact fun c hc => Nat.lt_trans (hbelow c hc) (by decide)
  · unfold Assembled.pc
    obtain ⟨rest, hcs, -⟩ := trimUninitialized_spec (assemble o env sec).chunks
    split
    · exact toNat_behind_le h.below (Nat.le_add_right _ _)
    · refine toNat_behind_le (fun c hc => h.below c ?_) (Nat.le_add_right _ _)
      show c ∈ (assemble o env sec).chunks
      rw [hcs]
      exact List.mem_append_left _ hc
  · rw [← hend]
    exact (writeSection_spec hfits).2.1

end Straight

/-! ## The two sections -/

theorem toNat_at16 {n : ℕ} (hn : n < 2 ^ 32) : (at16 n).pc.toNat = n :=
  (BitVec.toNat_ofNat _ _).trans (Nat.mod_eq_of_lt hn)

/-- The reset vector, behind which nothing is said of the interrupts. -/
def vectors (entry : L) : Section L :=
  ⟨0xfffc, 0, [0], [⟨1, .datadef 16 plain (.label entry)⟩, ⟨1, .datadef 16 plain (.num 0)⟩]⟩

/-- A word as data. -/
theorem evalData_word {env : L → Taddr} {pc : Taddr} {e : Expr L} {w : Word}
    (hval : e.eval env pc = taddr w) (he : e.complaints env pc = []) :
    evalData defaults env pc 16 plain e = ⟨[lo w, hi w], []⟩ := by
  have hlt := w.isLt
  have hrange : ¬((taddr w).toInt < -(2 ^ 15 : ℕ) ∨ ((2 ^ 16 : ℕ) : Int) ≤ (taddr w).toInt) := by
    rw [taddr, toInt_setWidth32 w (by decide)]
    omega
  have hdata : dataValue defaults 16 plain (taddr w) = taddr w := rfl
  unfold evalData
  rw [hval, he, hdata]
  show Emission.mk (setval 2 (taddr w)) ([] ++ [] ++ if _ ∧ _ then _ else _) = _
  rw [if_neg fun h => hrange h.2, setval_taddr]
  rfl

section Chunks

variable {env : L → Taddr} {n : ℕ}

/-- A word in front of some chunks. -/
theorem Straight.word {e : Expr L} {w : Word} {bs : List Byte} {as : List (Atom L)}
    (hn : n < 2 ^ 32) (hval : ∀ pc, e.eval env pc = taddr w) (he : ∀ pc, e.complaints env pc = [])
    (h : Straight (n + 2) (chunks defaults env (at16 (n + 2)) as) bs) :
    Straight n (chunks defaults env (at16 n) (⟨1, .datadef 16 plain e⟩ :: as))
      ([lo w, hi w] ++ bs) := by
  have hplace : Atom.place (⟨1, .datadef 16 plain e⟩ : Atom L) (at16 n) = at16 n := by
    unfold Atom.place pcalign
    rw [balign_one]
    exact Pos.ext (BitVec.add_zero _) rfl
  have hem : emission defaults env (at16 n) (.datadef 16 plain e) = ⟨[lo w, hi w], []⟩ :=
    evalData_word (hval _) (he _)
  rw [chunks, hplace, hem]
  refine Straight.cons ?_ rfl rfl (toNat_at16 hn) fun hinit => absurd hinit.symm Bool.false_ne_true
  show Straight (n + 2) (chunks defaults env ((at16 n).skip 2) as) bs
  rw [skip_at16]
  exact h

theorem straight_vectors {entry : L} {w : Word} (hw : env entry = taddr w) :
    Straight 0xfffc (chunks defaults env (vectors entry).start (vectors entry).atoms)
      [lo w, hi w, 0, 0] :=
  Straight.word (w := w) (by decide) (fun _ => hw) (fun _ => rfl)
    (Straight.word (w := 0) (by decide) (fun _ => rfl) (fun _ => rfl) (Straight.nil _))

theorem chunks_item {it : Item L} {e : List Byte}
    (he : emission defaults env (at16 n) (ofItem it) = ⟨e, []⟩) (as : List (Atom L)) :
    chunks defaults env (at16 n) (⟨1, ofItem it⟩ :: as)
      = ⟨⟨1, ofItem it⟩, at16 n, e, []⟩ :: chunks defaults env (at16 (n + e.length)) as := by
  rw [chunks, place_ofItem, he, ← skip_at16]

theorem chunks_label (l : L) (as : List (Atom L)) :
    chunks defaults env (at16 n) (⟨1, .label l⟩ :: as)
      = ⟨⟨1, .label l⟩, at16 n, [], []⟩ :: chunks defaults env (at16 n) as := by
  have hskip : (at16 n).skip (emission defaults env (at16 n) (.label l)).data.length = at16 n :=
    skip_at16 n 0
  rw [chunks, place_label, hskip]
  rfl

theorem initialized_ofItem (it : Item L) : (ofItem it).initialized = true := by
  cases it <;> rfl

/-- A line in front of some chunks. -/
theorem Straight.line {ln : Line L} {e bs : List Byte} {as : List (Atom L)} (hn : n < 2 ^ 32)
    (he : emission defaults env (at16 n) (ofItem ln.item) = ⟨e, []⟩)
    (h : Straight (n + e.length) (chunks defaults env (at16 (n + e.length)) as) bs) :
    Straight n (chunks defaults env (at16 n) (ofLine ln ++ as)) (e ++ bs) := by
  have hitem : Straight n (chunks defaults env (at16 n) (⟨1, ofItem ln.item⟩ :: as)) (e ++ bs) := by
    rw [chunks_item he]
    refine Straight.cons h rfl rfl (toNat_at16 hn) fun hinit => ?_
    exact absurd (hinit.symm.trans (initialized_ofItem _)) Bool.false_ne_true
  unfold ofLine
  cases ln.label with
  | none => exact hitem
  | some l =>
    show Straight n (chunks defaults env (at16 n) (⟨1, .label l⟩ :: ⟨1, ofItem ln.item⟩ :: as)) _
    rw [chunks_label]
    exact Straight.cons hitem rfl rfl (toNat_at16 hn) fun _ => rfl

variable [DecidableEq L] {p : Listing L} {bs₀ : List Byte}

/-- **The lines of a listing become the bytes that it says**, one behind the other. -/
theorem straight_lines (h : Assembles p bs₀) (henv : Agrees p env) {lines : List (Line L)} {k : ℕ}
    {bs : List Byte} (hk : p.lines.drop k = lines) (hbs : p.emitFrom k lines = some bs) :
    Straight (p.org.toNat + offset p.lines k)
      (chunks defaults env (at16 (p.org.toNat + offset p.lines k)) (lines.flatMap ofLine)) bs := by
  induction lines generalizing k bs with
  | nil =>
    rw [← Option.some_inj.mp hbs]
    exact Straight.nil _
  | cons ln lines ih =>
    obtain ⟨e, he, hrest⟩ := Option.bind_eq_some_iff.mp hbs
    obtain ⟨es, hes, rfl⟩ := Option.map_eq_some_iff.mp hrest
    have hln : p.lines[k]? = some ln := by
      rw [← List.head?_drop, hk]
      rfl
    have hk' : p.lines.drop (k + 1) = lines := by
      rw [← List.tail_drop, hk]
      rfl
    have hlt := (List.getElem?_eq_some_iff.mp hln).1
    have hnext : p.org.toNat + offset p.lines (k + 1)
        = p.org.toNat + offset p.lines k + e.length := by
      rw [offset_succ hln, Listing.length_emit he, Nat.add_assoc]
    have hn : p.org.toNat + offset p.lines k < 2 ^ 32 := by
      rw [← h.toNat_addr (Nat.le_of_lt hlt)]
      exact Nat.lt_trans (BitVec.isLt _) (by decide)
    rw [List.flatMap_cons]
    refine Straight.line hn (h.emission_ofItem henv hln he) ?_
    rw [← hnext]
    exact ih hk' hes

end Chunks

/-! ## The image -/

section Rom

variable [DecidableEq L]

/-- **A listing and the vectors behind it.** -/
def withVectors (p : Listing L) (entry : L) : Program L where
  secs := [ofListing p, vectors entry]
  sec _ := 0
  owned {i s} hs l hl := by
    match i with
    | 0 => rfl
    | 1 =>
      obtain rfl := Option.some_inj.mp hs
      obtain ⟨a, ha, hal⟩ := hl
      rcases List.mem_cons.mp ha with rfl | ha
      · cases hal
      · rw [List.mem_singleton.mp ha] at hal
        cases hal

omit [DecidableEq L] in
theorem content_vectors {entry : L} {a : Atom L} (ha : a ∈ (vectors entry).atoms) :
    a.align = 1 ∧ ∃ e, a.content = .datadef 16 plain e := by
  rcases List.mem_cons.mp ha with rfl | ha
  · exact ⟨rfl, _, rfl⟩
  · rw [List.mem_singleton.mp ha]
    exact ⟨rfl, _, rfl⟩

variable {p : Listing L} {bs : List Byte} {entry : L}

/-- The sizes in such a program are fixed. -/
theorem fixed_withVectors (entry : L) (h : Assembles p bs) :
    (withVectors p entry).Fixed defaults Above (values p) where
  good := h.above_values
  rigid s hs := by
    rcases List.mem_cons.mp hs with rfl | hs
    · exact h.rigid
    · rw [List.mem_singleton.mp hs]
      intro q a hqa env _
      obtain ⟨-, e, he⟩ := content_vectors (mem_of_mem_placed hqa)
      rw [he]
      rfl
  settled s hs := by
    rcases List.mem_cons.mp hs with rfl | hs
    · exact h.settled
    · rw [List.mem_singleton.mp hs]
      intro q a hqa l hl
      obtain ⟨-, e, he⟩ := content_vectors (mem_of_mem_placed hqa)
      cases he.symm.trans hl

omit [DecidableEq L] in
theorem align_ofListing {a : Atom L} (ha : a ∈ (ofListing p).atoms) : a.align = 1 := by
  obtain ⟨ln, -, ha⟩ := List.mem_flatMap.mp ha
  rcases mem_ofLine ha with ⟨l, -, rfl⟩ | rfl <;> rfl

/-- A label of the listing is one of its section. -/
theorem defines_ofListing {l : L} {w : Word} (hw : p.symbol l = some w) :
    (ofListing p).Defines l := by
  obtain ⟨j, ln, hj, hl, -⟩ := Assembles.exists_of_symbol hw
  refine ⟨⟨1, .label l⟩, List.mem_flatMap.mpr ⟨ln, List.mem_of_getElem? hj, ?_⟩, rfl⟩
  unfold ofLine
  rw [hl]
  exact List.mem_cons_self

/-- **The real assembler on a listing**: it ends, with the labels where the listing has them,
and its file is the bytes of the listing, zeros, and the vectors. -/
theorem vasm_listing (h : Assembles p bs) (hfit : p.org.toNat + bs.length ≤ 0xfffc) {w : Word}
    (hw : p.symbol entry = some w) {ly : Layouts L} (hly : ∀ l, Above (ly.env l)) :
    ∃ env, Agrees p env ∧ vasm defaults (withVectors p entry) 3 ly
      = some (env, bs ++ (List.replicate (0xfffc - (p.org.toNat + bs.length)) 0
        ++ [lo w, hi w, 0x00, 0x00])) := by
  obtain ⟨ly', hres, hvalues⟩ := resolve_of_rigid (fixed_withVectors entry h) hly
  have hag : Agrees p ly'.env := by
    intro l w hlw
    rw [hvalues _ List.mem_cons_self l (defines_ofListing hlw)]
    exact agrees_values p l w hlw
  have horg : (ofListing p).org.toNat = p.org.toNat := toNat_taddr p.org
  have hcode : Straight (ofListing p).org.toNat
      (chunks defaults ly'.env (ofListing p).start (ofListing p).atoms) bs := by
    have hlines := straight_lines h hag (k := 0) (List.drop_zero) h.assemble
    rw [Assembles.start_ofListing, horg]
    exact hlines
  obtain ⟨hclean, hpc, hwrite⟩ := hcode.assembled (fun a ha => align_ofListing ha)
    (by rw [horg]; omega)
  have hvectors : Straight (vectors entry).org.toNat
      (chunks defaults ly'.env (vectors entry).start (vectors entry).atoms) [lo w, hi w, 0, 0] :=
    straight_vectors (hag entry w hw)
  obtain ⟨hcleanv, hpcv, hwritev⟩ := hvectors.assembled (fun a ha => (content_vectors ha).1)
    (show 0xfffc + 4 < 2 ^ 31 by decide)
  rw [horg] at hpc hwrite
  have hoverlap : overlaps (assemble defaults ly'.env (ofListing p))
      (assemble defaults ly'.env (vectors entry)) = false := by
    refine overlaps_of_le ?_ ⟨?_, ?_⟩
    · rw [hpc]
      exact hfit
    · rw [hpcv]
      exact Nat.lt_add_of_pos_right (Nat.succ_pos 3)
    · rw [hpcv]
      exact Nat.le_refl _
  have hsort : [assemble defaults ly'.env (ofListing p),
      assemble defaults ly'.env (vectors entry)].mergeSort orgcmp
      = [assemble defaults ly'.env (ofListing p), assemble defaults ly'.env (vectors entry)] := by
    refine List.mergeSort_of_pairwise (List.pairwise_pair.mpr (decide_eq_true ?_))
    show (ofListing p).org ≤ 0xfffc
    rw [BitVec.le_def, horg]
    exact Nat.le_trans (Nat.le_add_right _ _) hfit
  have hgap : fwpattern (BitVec.ofNat 32 (ull 0xfffc - (p.org.toNat + bs.length))).toNat [0]
      = List.replicate (0xfffc - (p.org.toNat + bs.length)) (0 : Byte) := by
    rw [ull_eq (show (0xfffc : Taddr).toNat < 2 ^ 31 by decide), BitVec.toNat_ofNat,
      Nat.mod_eq_of_lt (by show 0xfffc - _ < _; omega), fwpattern, List.length_singleton,
      Nat.mod_one, Nat.div_one, List.flatten_replicate_singleton]
    rfl
  refine ⟨ly'.env, hag, ?_⟩
  rw [vasm_of_clean hres]
  · show some (ly'.env, writeOutput ly'.env [assemble defaults ly'.env (ofListing p),
      assemble defaults ly'.env (vectors entry)]) = _
    unfold writeOutput
    rw [hsort]
    show some (ly'.env, (writeSection ly'.env (assemble defaults ly'.env (ofListing p))).1
      ++ (fwpattern (BitVec.ofNat 32 (ull 0xfffc - (writeSection ly'.env (assemble defaults ly'.env
        (ofListing p))).2)).toNat [0]
        ++ (writeSection ly'.env (assemble defaults ly'.env (vectors entry))).1 ++ [])) = _
    rw [hwrite, hwritev, hgap, List.append_nil]
  · intro s hs
    rcases List.mem_cons.mp hs with rfl | hs
    · exact hclean
    · rw [List.mem_singleton.mp hs]
      exact hcleanv
  · show (([assemble defaults ly'.env (vectors entry)].all fun s2 => !overlaps _ s2) && true) = true
    simp only [List.all_cons, hoverlap, List.all_nil, Bool.not_false, Bool.and_self]

end Rom

/-! ## In the ROM -/

open Cpu

/-- **A bus with a file in its memory**, from an address to the end: to read there gives a byte
of the file, and changes nothing. -/
def Burnt {β : Type} (B : Bus β) (org : Word) (file : List Byte) : Prop :=
  ∀ s w, org ≤ w → B.read s w = (file.getD (w - org).toNat 0, s)

section Burnt

variable {β : Type} {B : Bus β} {org : Word} {bs file : List Byte}

/-- A byte of the file. -/
theorem Burnt.read (h : Burnt B org file) {k : ℕ} (hk : org.toNat + k < 0x10000) (s : β) :
    B.read s (org + BitVec.ofNat 16 k) = (file.getD k 0, s) := by
  have hval : (BitVec.ofNat 16 k).toNat = k := by
    rw [BitVec.toNat_ofNat]
    omega
  have hle : org ≤ org + BitVec.ofNat 16 k := by
    rw [BitVec.le_def, BitVec.toNat_add, hval]
    omega
  rw [h s _ hle, BitVec.add_comm, BitVec.add_sub_cancel, hval]

/-- What the file begins with is loaded. -/
theorem Burnt.loaded (h : Burnt B org (bs ++ file)) (hlow : 0x200 ≤ org.toNat)
    (hhigh : org.toNat + bs.length ≤ 0x10000) : Loaded B org bs where
  low := hlow
  high := hhigh
  read s k b hb := by
    have hk : k < bs.length := (List.getElem?_eq_some_iff.mp hb).1
    rw [h.read (by omega), List.getD_eq_getElem?_getD, List.getElem?_append_left hk, hb,
      Option.getD_some]

/-- A byte behind all that the file begins with. -/
theorem Burnt.read_behind {pre : List Byte} (h : Burnt B org (pre ++ file)) {k : ℕ} {w : Word}
    (hw : w.toNat = org.toNat + (pre.length + k)) (s : β) :
    B.read s w = (file.getD k 0, s) := by
  have haddr : w = org + BitVec.ofNat 16 (pre.length + k) := by
    have hlt := w.isLt
    refine BitVec.eq_of_toNat_eq ?_
    rw [BitVec.toNat_add, BitVec.toNat_ofNat]
    omega
  rw [haddr, h.read (by have := w.isLt; omega), List.getD_eq_getElem?_getD,
    List.getElem?_append_right (Nat.le_add_right _ _), Nat.add_sub_cancel_left,
    List.getD_eq_getElem?_getD]

/-- The processor goes where the vector says. -/
theorem reset_eq {w : Word} (hlo : ∀ s, B.read s 0xfffc = (lo w, s))
    (hhi : ∀ s, B.read s 0xfffd = (hi w, s)) (m : Machine β) :
    m.reset B = { m with pc := w, p := { m.p with i := true, d := false } } := by
  have hread : ∀ (m : Machine β) (v : Word), hi v ≠ 1 →
      m.read B v = ((B.read m.bus v).1, { m with bus := (B.read m.bus v).2 }) := fun m v hv =>
    if_neg hv
  unfold Machine.reset
  simp only [hread _ 0xfffc (by decide), hread _ 0xfffd (by decide), hlo, hhi, word_hi_lo]

/-- The file of a listing, in memory: its bytes are loaded, and the vector leads to the entry. -/
theorem Burnt.boots {w : Word} (h : Burnt B org file)
    (hfile : file = bs ++ (List.replicate (0xfffc - (org.toNat + bs.length)) 0
      ++ [lo w, hi w, 0x00, 0x00]))
    (hlow : 0x200 ≤ org.toNat) (hfit : org.toNat + bs.length ≤ 0xfffc) :
    Loaded B org bs ∧ ∀ m : Machine β,
      m.reset B = { m with pc := w, p := { m.p with i := true, d := false } } := by
  rw [hfile] at h
  refine ⟨h.loaded hlow (Nat.le_trans hfit (by decide)), ?_⟩
  rw [← List.append_assoc] at h
  have hlen : (bs ++ List.replicate (0xfffc - (org.toNat + bs.length)) (0 : Byte)).length
      = 0xfffc - org.toNat := by
    rw [List.length_append, List.length_replicate]
    omega
  refine reset_eq (fun s => ?_) (fun s => ?_)
  · exact h.read_behind (k := 0) (by rw [hlen]; show 0xfffc = _; omega) s
  · exact h.read_behind (k := 1) (by rw [hlen]; show 0xfffd = _; omega) s

variable [DecidableEq L] {p : Listing L} {entry : L}

/-- **The processor finds the listing in the file.** Put into memory from the origin of the
listing on, what the assembler writes starts the processor at the entry, and where a line of
the listing is, the processor fetches the instruction of that line. -/
theorem listing_in_rom (h : Assembles p bs) (hfit : p.org.toNat + bs.length ≤ 0xfffc) {w : Word}
    (hw : p.symbol entry = some w) {ly : Layouts L} (hly : ∀ l, Above (ly.env l)) :
    ∃ env file, vasm defaults (withVectors p entry) 3 ly = some (env, file)
      ∧ p.org.toNat + file.length = 0x10000
      ∧ ∀ {β : Type} (B : Bus β), Burnt B p.org file → ∀ m : Machine β, (m.reset B).pc = w
        ∧ ∀ i lbl ins, p.lines[i]? = some ⟨lbl, .instr ins⟩ → m.pc = p.addr i →
          ∃ ins', p.resolve i ins = some ins'
            ∧ m.fetchInstr B = some (ins', { m with pc := p.addr (i + 1) }) := by
  obtain ⟨env, -, hvasm⟩ := vasm_listing h hfit hw hly
  refine ⟨env, _, hvasm, ?_, fun B hB m => ?_⟩
  · simp only [List.length_append, List.length_replicate, List.length_cons, List.length_nil]
    omega
  · obtain ⟨hload, hreset⟩ := hB.boots rfl h.low hfit
    refine ⟨?_, fun i lbl ins hi hpc => fetchInstr_addr hload h.assemble hi hpc⟩
    rw [hreset m]

end Burnt

/-! ## `prog.s` -/

section Prog

open Eater

/-- No address of a list is in the zero page. -/
def highs (as : List (Asm.Operand L)) : Bool :=
  as.all fun a => match a with
    | .label _ => true
    | .addr w => decide (0x100 ≤ w.toNat)

theorem high_of_highs {i : Instr (Asm.Operand L) L} (h : highs (addresses i) = true) : High i :=
  fun w hw => of_decide_eq_true (List.all_eq_true.mp h (.addr w) hw)

/-- **The listing can be assembled**, whatever its data, if they are not too long. -/
theorem assembles_prog (msg : Message) : Assembles (prog msg.data) (Eater.code msg) where
  low := by show 0x200 ≤ 0x8000; decide
  high := by
    show 0x8000 + offset (lines msg.data) 56 < 0x10000
    have hfits := msg.fits
    rw [offset_lines]
    omega
  above := by
    have hall : ((lines msg.data).all fun ln => match ln.item with
        | .instr i => highs (addresses i)
        | .bytes _ => true) = true := rfl
    intro ln hln i hi
    have hline := List.all_eq_true.mp hall ln hln
    rw [hi] at hline
    exact high_of_highs hline
  labels := by
    show ([.reset, .print, .loop, .message, .lcdWait, .lcdBusy, .lcdInstruction, .printChar] :
      List Eater.Label).Nodup
    decide
  assemble := assemble_code msg

theorem symbol_reset (data : List Byte) : (prog data).symbol .reset = some ((prog data).addr 0) :=
  rfl

/-- **The assembler makes the image of `prog.s`**, whatever the message. -/
theorem vasm_prog (msg : Message) {ly : Layouts Eater.Label} (hly : ∀ l, Above (ly.env l)) :
    ∃ env, vasm defaults (withVectors (prog msg.data) .reset) 3 ly
      = some (env, Eater.image msg) := by
  have horg : (prog msg.data).org.toNat = 0x8000 := rfl
  have hle := length_code_le msg
  have hreset : (prog msg.data).symbol .reset = some (Eater.label msg .reset) := by
    rw [Eater.label, symbol_reset, Option.getD_some]
  obtain ⟨env, -, hvasm⟩ := vasm_listing (assembles_prog msg) (by omega) hreset hly
  have hgap : 0xfffc - ((prog msg.data).org.toNat + (Eater.code msg).length)
      = 0x7ffc - (Eater.code msg).length := by omega
  rw [hgap] at hvasm
  exact ⟨env, hvasm⟩

/-- The listing's own message. -/
theorem vasm_prog_hello :
    ∃ env, vasm defaults (withVectors (prog (asciiz hello)) .reset) 3 ⟨fun _ => 0x8000, fun _ => []⟩
      = some (env, Eater.image helloWorld) :=
  vasm_prog helloWorld fun _ => (by decide : Above 0x8000)

/-- The image is found by the processor. -/
theorem prog_in_rom :
    ∃ env file, vasm defaults (withVectors (prog (asciiz hello)) .reset) 3
        ⟨fun _ => 0x8000, fun _ => []⟩ = some (env, file)
      ∧ 0x8000 + file.length = 0x10000
      ∧ ∀ {β : Type} (B : Bus β), Burnt B 0x8000 file → ∀ m : Machine β, (m.reset B).pc = 0x8000
        ∧ ∀ i lbl ins, (prog (asciiz hello)).lines[i]? = some ⟨lbl, .instr ins⟩ →
          m.pc = (prog (asciiz hello)).addr i →
          ∃ ins', (prog (asciiz hello)).resolve i ins = some ins'
            ∧ m.fetchInstr B = some (ins', { m with pc := (prog (asciiz hello)).addr (i + 1) }) :=
  listing_in_rom (assembles_prog helloWorld)
    (by
      have hle := length_code_le helloWorld
      have horg : (prog helloWorld.data).org.toNat = 0x8000 := rfl
      omega)
    (symbol_reset (asciiz hello)) fun _ => (by decide : Above 0x8000)

end Prog

end Vasm
