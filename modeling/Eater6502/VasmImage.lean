import Eater6502.VasmResolve

/-!
# The file the assembler writes

When all labels have their values, the atoms are evaluated once more, for good, and each of
them becomes some bytes (`assemble`). If nothing went wrong, the sections are written to the
file in the order of their addresses (`writeOutput`): an atom behind the bytes that align it,
a section behind a pattern that fills the gap to the one before it. The file is a memory
image. Nothing in it says where a byte belongs but the number of bytes in front of it.

That each byte is in its place therefore depends on all that comes before it. An atom is, if
the sections are apart from each other (`vasm_holds`). The assembler wants to make sure that
they are (`chkSecOverlap`), but does not notice a section that reaches around one that was
there before it, nor anything that overlaps one which was there before and ends with the
address space (`overlaps_noticed`).
-/

namespace Vasm

variable {L : Type}

/-! ## Data -/

/-- The part of a value that is defined as data, with so many bytes. -/
def dataValue (o : Options) (bitsize : ℕ) (f : Selector) (val : Taddr) : Taddr :=
  if bitsize = 32 then
    if f.hi then val.sshiftRight 8 else if f.bk then val.sshiftRight 16 else val
  else if bitsize = 8 ∨ bitsize = 16 ∨ bitsize = 24 then
    if f.lo || o.autoMask then val &&& BitVec.ofNat 32 (2 ^ bitsize - 1)
    else if f.hi then val.sshiftRight 8 &&& BitVec.ofNat 32 (2 ^ bitsize - 1)
    else if f.bk then val.sshiftRight 16 &&& BitVec.ofNat 32 (2 ^ bitsize - 1)
    else val
  else val

/-- **Data that is defined by an expression** (`eval_data`). -/
def evalData (o : Options) (env : L → Taddr) (pc : Taddr) (bitsize : ℕ) (f : Selector)
    (e : Expr L) : Emission :=
  let val := dataValue o bitsize f (e.eval env pc)
  ⟨setval (bitsize / 8) val,
    -- data size not supported
    (if 32 < bitsize ∨ bitsize % 8 ≠ 0 then [.cpu 3] else [])
      ++ e.complaints env pc
      -- operand doesn't fit
      ++ if (bitsize = 8 ∨ bitsize = 16 ∨ bitsize = 24)
          ∧ (val.toInt < -(2 ^ (bitsize - 1) : ℕ) ∨ ((2 ^ bitsize : ℕ) : Int) ≤ val.toInt) then
          [.cpu 5]
        else []⟩

/-- The bytes of an element of a space. -/
def fill (env : L → Taddr) (pc : Taddr) (sb : Space L) : List Byte :=
  match sb.fillExp with
  | some e => setval sb.size (e.eval env pc)
  | none => List.replicate sb.size sb.init

/-- What is complained of at a space. -/
def spaceComplaints (env : L → Taddr) (pc : Taddr) (sb : Space L) : List Complaint :=
  sb.space.complaints env pc ++ match sb.fillExp with
    -- expression must be constant
    | some e => if sb.size ≤ 4 then e.complaints env pc else [.general 30]
    | none => []

/-- **The bytes of an atom**, where it stands. -/
def emission (o : Options) (env : L → Taddr) (p : Pos) : Content L → Emission
  | .label _ | .opts _ => ⟨[], []⟩
  | .data db => ⟨db, []⟩
  | .inst ip => evalInstruction (o.at p) env p.pc ip
  | .datadef bitsize f e => evalData o env p.pc bitsize f e
  | .space sb => ⟨(List.replicate (sb.space.eval env p.pc).toNat (fill env p.pc sb)).flatten,
      spaceComplaints env p.pc sb⟩
  | .assert e => ⟨[], e.complaints env p.pc
      -- assertion failed
      ++ if e.eval env p.pc = 0 then [.general 47] else []⟩

/-! ## Sections -/

/-- An atom that has become bytes. -/
structure Chunk (L : Type) where
  atom : Atom L
  pos : Pos
  data : List Byte
  complaints : List Complaint

/-- The atoms from a place on. -/
def chunks (o : Options) (env : L → Taddr) : Pos → List (Atom L) → List (Chunk L)
  | _, [] => []
  | p, a :: as =>
    let d := emission o env (a.place p) a.content
    ⟨a, a.place p, d.data, d.complaints⟩ :: chunks o env ((a.place p).skip d.data.length) as

/-- The address space has overflowed: some bytes go beyond its end, or follow on it. -/
def overflows : Bool → List (Chunk L) → List Complaint
  | _, [] => []
  | ovflw, c :: cs =>
    let pc := c.pos.pc + BitVec.ofNat 32 c.data.length
    if pc = c.pos.pc then overflows ovflw cs
    else (if pc - 1 < c.pos.pc ∨ ovflw then [.general 45] else [])
      ++ overflows (pc == 0) cs

/-- The atoms that are something in a file. -/
def Content.initialized : Content L → Bool
  | .data _ | .inst _ | .datadef _ _ _ => true
  | .space sb => !sb.uninitialized
  | _ => false

/-- The last of such atoms is the last one that is written (`trim_uninitialized`). -/
def trimUninitialized : List (Chunk L) → List (Chunk L)
  | [] => []
  | c :: cs =>
    match trimUninitialized cs with
    | [] => if c.atom.content.initialized then [c] else []
    | cs => c :: cs

/-- **A section that has been assembled.** -/
structure Assembled (L : Type) where
  sec : Section L
  chunks : List (Chunk L)

def assemble (o : Options) (env : L → Taddr) (sec : Section L) : Assembled L :=
  ⟨sec, chunks o env sec.start sec.atoms⟩

/-- What there is to complain of. -/
def Assembled.complaints (s : Assembled L) : List Complaint :=
  s.chunks.flatMap Chunk.complaints ++ overflows false s.chunks

/-- The address behind some chunks. -/
def behind (pc : Taddr) (cs : List (Chunk L)) : Taddr :=
  cs.getLast?.elim pc fun c => c.pos.pc + BitVec.ofNat 32 c.data.length

/-- The address behind a section: behind what is written, if anything is. -/
def Assembled.pc (s : Assembled L) : Taddr :=
  match trimUninitialized s.chunks with
  | [] => behind s.sec.org s.chunks
  | cs => behind s.sec.org cs

/-! ## The file -/

/-- An address as it is counted in the file. -/
def ull (a : Taddr) : ℕ := (a.signExtend 64).toNat

/-- Some bytes of a pattern, behind as many zeros as are needed to come out even. -/
def fwpattern (n : ℕ) (pat : List Byte) : List Byte :=
  List.replicate (n % pat.length) 0 ++ (List.replicate (n / pat.length) pat).flatten

/-- The bytes in front of an atom that align it, and the address behind them. -/
def fwpcalign (env : L → Taddr) (pad : List Byte) (c : Chunk L) (pc : Taddr) :
    List Byte × Taddr :=
  let n := balign pc c.atom.align
  match c.atom.content with
  | .space sb =>
    -- what only aligns brings the pattern along
    if sb.space.eval env c.pos.pc = 0 then
      if sb.maxalignbytes ≠ 0 ∧ sb.maxalignbytes.toInt < n.toInt then ([], pc)
      else (fwpattern n.toNat (fill env c.pos.pc sb), pc + n)
    else (fwpattern n.toNat pad, pc + n)
  | _ => (fwpattern n.toNat pad, pc + n)

/-- The atoms of a section, and the address behind them. -/
def writeAtoms (env : L → Taddr) (pad : List Byte) : ℕ → List (Chunk L) → List Byte × ℕ
  | pc, [] => ([], pc)
  | pc, c :: cs =>
    let (gap, npc) := fwpcalign env pad c (BitVec.ofNat 32 pc)
    let (bs, pc) := writeAtoms env pad (ull npc + c.data.length) cs
    (gap ++ c.data ++ bs, pc)

/-- What is written of a section, and the address behind it. -/
def writeSection (env : L → Taddr) (s : Assembled L) : List Byte × ℕ :=
  writeAtoms env s.sec.pad (ull s.sec.org) (trimUninitialized s.chunks)

/-- The sections behind an address. -/
def writeSections (env : L → Taddr) : ℕ → List (Assembled L) → List Byte
  | _, [] => []
  | pc, s :: ss =>
    fwpattern (BitVec.ofNat 32 (ull s.sec.org - pc)).toNat s.sec.pad
      ++ (writeSection env s).1 ++ writeSections env (writeSection env s).2 ss

/-- The order in which sections are written. -/
def orgcmp (s t : Assembled L) : Bool := s.sec.org ≤ t.sec.org

/-- **The file**, in the raw format. There is no gap in front of the first section. -/
def writeOutput (env : L → Taddr) (secs : List (Assembled L)) : List Byte :=
  match secs.mergeSort orgcmp with
  | [] => []
  | s :: ss => (writeSection env s).1 ++ writeSections env (writeSection env s).2 ss

/-- The bits of an address that count, for a processor with addresses of two bytes. -/
def taddrmask : ℕ := 0xffff

/-- An address without the bits that do not count (`ULLTADDR`). -/
def ulltaddr (a : Taddr) : ℕ := ull a &&& taddrmask

/-- A section overlaps one that was there before it, as far as that is noticed. -/
def overlaps (s s2 : Assembled L) : Bool :=
  (ulltaddr s.sec.org ≤ ulltaddr s2.sec.org && ulltaddr s2.sec.org < ulltaddr s.pc)
    || (ulltaddr s.sec.org < ulltaddr s2.pc && ulltaddr s2.pc < ulltaddr s.pc)

/-- No section is noticed to overlap another one. -/
def chkSecOverlap : List (Assembled L) → Bool
  | [] => true
  | s :: ss => ss.all (fun s2 => !overlaps s s2) && chkSecOverlap ss

/-- What stops the assembler. All else that it complains of is a warning. -/
def Complaint.isError : Complaint → Bool
  | .cpu n => n != 1 && n != 2 && n != 5 && n != 16
  | .general n => n != 21 && n != 31 && n != 50 && n != 54 && n != 57
  | .internal => true

/-- **The assembler**: the values of the labels in the end, and the file, if there is one. -/
def vasm [DecidableEq L] (o : Options) (p : Program L) (rounds : ℕ) (ly : Layouts L) :
    Option ((L → Taddr) × List Byte) :=
  (resolve o p rounds ly).bind fun ly =>
    let secs := p.secs.map (assemble o ly.env)
    if (secs.all fun s => s.complaints.all fun c => !c.isError) && chkSecOverlap secs then
      some (ly.env, writeOutput ly.env secs)
    else none

/-! ## Atoms take the bytes that were counted for them -/

section Atoms

variable {o : Options} {env : L → Taddr}

/-- No complaint is an error. -/
def Clean (cs : List Complaint) : Prop := ∀ c ∈ cs, c.isError = false

instance : DecidablePred Clean := fun cs =>
  inferInstanceAs (Decidable (∀ c ∈ cs, c.isError = false))

/-- The operands of an instruction are as the parser makes them. -/
def Content.Valued (c : Content L) : Prop := ∀ ip, c = .inst ip → ip.Valued

theorem length_fill (env : L → Taddr) (pc : Taddr) (sb : Space L) :
    (fill env pc sb).length = sb.size := by
  unfold fill
  split
  · exact length_setval _ _
  · exact List.length_replicate

/-- **An atom becomes as many bytes as were counted for it**, if nothing goes wrong. -/
theorem length_emission {p : Pos} {c : Content L} (hv : c.Valued)
    (hc : Clean (emission o env p c).complaints) :
    (emission o env p c).data.length = atomSize o env p c := by
  cases c with
  | inst ip =>
    refine length_evalInstruction (hv ip rfl) fun hint => ?_
    exact absurd (hc _ hint).symm Bool.false_ne_true
  | datadef bitsize f e =>
    have heven : bitsize % 8 = 0 := by
      by_contra hodd
      have hmem : Complaint.cpu 3 ∈ (evalData (o.at p) env p.pc bitsize f e).complaints := by
        simp [evalData, hodd]
      exact absurd (hc _ hmem).symm Bool.false_ne_true
    show (setval (bitsize / 8) _).length = (bitsize + 7) / 8
    rw [length_setval]
    omega
  | space sb =>
    show (List.replicate _ (fill env p.pc sb)).flatten.length = sb.size * _
    rw [List.length_flatten, List.map_replicate, List.sum_replicate_nat, length_fill, Nat.mul_comm]
  | _ => rfl

/-- **The chunks are the atoms of the layout**, if nothing goes wrong. -/
theorem chunks_eq {p : Pos} {as : List (Atom L)} (hv : ∀ a ∈ as, a.content.Valued)
    (hc : Clean ((chunks o env p as).flatMap Chunk.complaints)) :
    chunks o env p as = (placed o env p as).map fun q =>
      ⟨q.2, q.1, (emission o env q.1 q.2.content).data,
        (emission o env q.1 q.2.content).complaints⟩ := by
  induction as generalizing p with
  | nil => rfl
  | cons a as ih =>
    have hclean : Clean (emission o env (a.place p) a.content).complaints := fun c hmem =>
      hc c (List.mem_append_left _ hmem)
    have hlen := length_emission (hv a List.mem_cons_self) hclean
    have hrest := ih (p := (a.place p).skip (emission o env (a.place p) a.content).data.length)
      (fun a' ha' => hv a' (List.mem_cons_of_mem a ha'))
      fun c hmem => hc c (List.mem_append_right _ hmem)
    rw [chunks, hrest, placed, List.map_cons, hlen]

end Atoms

/-! ## Bytes that hold others -/

section Holds

variable {α : Type}

/-- **Some bytes, which begin at an address, hold others at another one.** -/
def Holds (base : ℕ) (bs : List α) (a : ℕ) (d : List α) : Prop :=
  ∃ pre post, bs = pre ++ (d ++ post) ∧ base + pre.length = a

variable {base a a' : ℕ} {bs d d' : List α}

theorem holds_self (base : ℕ) (bs : List α) : Holds base bs base bs :=
  ⟨[], [], by rw [List.nil_append, List.append_nil], rfl⟩

theorem Holds.append (h : Holds base bs a d) (post : List α) : Holds base (bs ++ post) a d := by
  obtain ⟨pre, post', rfl, hpre⟩ := h
  exact ⟨pre, post' ++ post, by rw [List.append_assoc, List.append_assoc], hpre⟩

theorem Holds.behind {pre : List α} (h : Holds (base + pre.length) bs a d) :
    Holds base (pre ++ bs) a d := by
  obtain ⟨pre', post, rfl, hpre⟩ := h
  refine ⟨pre ++ pre', post, (List.append_assoc _ _ _).symm, ?_⟩
  rw [List.length_append, ← Nat.add_assoc, hpre]

theorem Holds.trans (h : Holds base bs a d) (h' : Holds a d a' d') : Holds base bs a' d' := by
  obtain ⟨pre, post, rfl, rfl⟩ := h
  exact (h'.append post).behind

end Holds

/-! ## Atoms in the file -/

theorem length_fwpattern (n : ℕ) (pat : List Byte) : (fwpattern n pat).length = n := by
  unfold fwpattern
  rw [List.length_append, List.length_replicate, List.length_flatten, List.map_replicate,
    List.sum_replicate_nat, Nat.add_comm, Nat.mul_comm]
  exact Nat.div_add_mod n pat.length

/-- The addresses that are the same in the file and in the program. -/
def Low (a : Taddr) : Prop := a.toNat < 2 ^ 31

instance : DecidablePred Low := fun _ => inferInstanceAs (Decidable (_ < _))

theorem Low.msb {a : Taddr} (h : Low a) : a.msb = false :=
  BitVec.msb_eq_false_iff_two_mul_lt.mpr (by unfold Low at h; omega)

theorem ull_eq {a : Taddr} (h : Low a) : ull a = a.toNat := by
  unfold ull
  rw [BitVec.signExtend_eq_setWidth_of_msb_false h.msb, BitVec.toNat_setWidth,
    Nat.mod_eq_of_lt (Nat.lt_of_lt_of_le a.isLt (Nat.pow_le_pow_right (by decide) (by decide)))]

/-- To align takes no more bytes than the alignment has. -/
theorem toNat_balign_le {addr a : Taddr} (haddr : Low addr) (ha : Low a) :
    (balign addr a).toNat ≤ a.toNat := by
  unfold balign
  split
  · exact Nat.zero_le _
  · rename_i hne
    have hrem : (addr.srem a).toNat = addr.toNat % a.toNat := by
      rw [BitVec.srem_eq, haddr.msb, ha.msb]
      exact BitVec.toNat_umod
    have hpos : 0 < a.toNat := Nat.pos_of_ne_zero fun h0 =>
      hne (.inl (BitVec.eq_of_toNat_eq h0))
    have hlt := Nat.mod_lt addr.toNat hpos
    rw [BitVec.toNat_sub_of_le (by rw [BitVec.le_def, hrem]; omega)]
    exact Nat.sub_le _ _

section Write

variable {o : Options} {env : L → Taddr}

variable (env) in
/-- **A chunk is aligned in the file as it is in the program.** -/
theorem fwpcalign_eq (pad : List Byte) {c : Chunk L} {p : Pos} (hpos : c.pos = c.atom.place p)
    (hp : Low p.pc) (ha : Low c.atom.align) :
    ∃ gap, fwpcalign env pad c p.pc = (gap, c.pos.pc)
      ∧ p.pc.toNat + gap.length = c.pos.pc.toNat := by
  have hn := toNat_balign_le hp ha
  have hadd : (p.pc + balign p.pc c.atom.align).toNat
      = p.pc.toNat + (balign p.pc c.atom.align).toNat := by
    unfold Low at hp ha
    exact BitVec.toNat_add_of_lt (by omega)
  have hpc : c.pos.pc = pcalign c.atom p.pc := by
    rw [hpos]
    rfl
  have hnpc : ∀ pat, c.pos.pc = p.pc + balign p.pc c.atom.align →
      ∃ gap, (fwpattern (balign p.pc c.atom.align).toNat pat, p.pc + balign p.pc c.atom.align)
          = (gap, c.pos.pc) ∧ p.pc.toNat + gap.length = c.pos.pc.toNat := by
    intro pat h
    exact ⟨_, by rw [h], by rw [h, length_fwpattern, hadd]⟩
  unfold fwpcalign
  unfold pcalign at hpc
  cases hc : c.atom.content with
  | space sb =>
    rw [hc] at hpc
    dsimp only at hpc ⊢
    by_cases hmax : sb.maxalignbytes ≠ 0
        ∧ sb.maxalignbytes.toInt < (balign p.pc c.atom.align).toInt
    · -- what has such a limit only aligns
      have hzero : sb.space.eval env c.pos.pc = 0 := by
        rw [sb.only_aligns hmax.1]
        rfl
      rw [if_pos hmax] at hpc
      rw [if_pos hzero, if_pos hmax]
      exact ⟨[], by rw [hpc], by rw [hpc]; rfl⟩
    · rw [if_neg hmax] at hpc
      rw [if_neg hmax]
      split
      · exact hnpc _ hpc
      · exact hnpc _ hpc
  | _ =>
    rw [hc] at hpc
    exact hnpc _ hpc

/-- What the addresses in a section have to be so that it is written as it is. -/
structure Section.Fits (o : Options) (env : L → Taddr) (sec : Section L) : Prop where
  align : ∀ a ∈ sec.atoms, Low a.align
  org : Low sec.org
  low : ∀ c ∈ chunks o env sec.start sec.atoms, c.pos.pc.toNat + c.data.length < 2 ^ 31

theorem behind_cons (pc : Taddr) (c : Chunk L) (cs : List (Chunk L)) :
    behind pc (c :: cs) = behind (c.pos.pc + BitVec.ofNat 32 c.data.length) cs := by
  unfold behind
  rw [List.getLast?_cons]
  cases cs.getLast? <;> rfl

theorem writeAtoms_cons (env : L → Taddr) (pad : List Byte) (pc : ℕ) (c : Chunk L)
    (cs : List (Chunk L)) :
    writeAtoms env pad pc (c :: cs)
      = ((fwpcalign env pad c (BitVec.ofNat 32 pc)).1 ++ c.data
          ++ (writeAtoms env pad
            (ull (fwpcalign env pad c (BitVec.ofNat 32 pc)).2 + c.data.length) cs).1,
        (writeAtoms env pad
          (ull (fwpcalign env pad c (BitVec.ofNat 32 pc)).2 + c.data.length) cs).2) := rfl

/-- The first chunk, and those behind it. -/
theorem chunks_eq_cons {p : Pos} {as : List (Atom L)} {c : Chunk L} {cs : List (Chunk L)}
    (h : chunks o env p as = c :: cs) : ∃ as', as = c.atom :: as' ∧ c.pos = c.atom.place p
      ∧ chunks o env (c.pos.skip c.data.length) as' = cs := by
  cases as with
  | nil => exact absurd h (List.cons_ne_nil _ _).symm
  | cons a as =>
    obtain ⟨rfl, hcs⟩ := List.cons.inj h
    exact ⟨as, rfl, rfl, hcs⟩

/-- **The atoms in the file**: the address behind them, and where they are. -/
theorem writeAtoms_spec (pad : List Byte) {p : Pos} {as : List (Atom L)} {cs rest : List (Chunk L)}
    (hcs : chunks o env p as = cs ++ rest) (hp : Low p.pc) (ha : ∀ a ∈ as, Low a.align)
    (hlow : ∀ c ∈ cs, c.pos.pc.toNat + c.data.length < 2 ^ 31) :
    (writeAtoms env pad p.pc.toNat cs).2
        = p.pc.toNat + (writeAtoms env pad p.pc.toNat cs).1.length
      ∧ (writeAtoms env pad p.pc.toNat cs).2 = (behind p.pc cs).toNat
      ∧ ∀ c ∈ cs, Holds p.pc.toNat (writeAtoms env pad p.pc.toNat cs).1 c.pos.pc.toNat c.data := by
  induction cs generalizing p as with
  | nil => exact ⟨rfl, rfl, fun _ h => absurd h List.not_mem_nil⟩
  | cons c cs ih =>
    obtain ⟨as, rfl, hpos, hcs⟩ := chunks_eq_cons hcs
    have hlen := hlow c List.mem_cons_self
    obtain ⟨gap, hgap, hlength⟩ := fwpcalign_eq env pad hpos hp
      (ha c.atom List.mem_cons_self)
    -- the next atom comes behind the bytes of this one
    have hnext : (c.pos.skip c.data.length).pc.toNat = c.pos.pc.toNat + c.data.length := by
      show (c.pos.pc + BitVec.ofNat 32 c.data.length).toNat = _
      rw [BitVec.toNat_add, BitVec.toNat_ofNat]
      omega
    obtain ⟨hend, hbehind, hholds⟩ := ih hcs (by rwa [Low, hnext])
      (fun a ha' => ha a (List.mem_cons_of_mem _ ha'))
      fun c' hc' => hlow c' (List.mem_cons_of_mem c hc')
    have hwrite : writeAtoms env pad p.pc.toNat (c :: cs)
        = (gap ++ c.data ++ (writeAtoms env pad (c.pos.skip c.data.length).pc.toNat cs).1,
          (writeAtoms env pad (c.pos.skip c.data.length).pc.toNat cs).2) := by
      rw [writeAtoms_cons, BitVec.ofNat_toNat, BitVec.setWidth_eq, hgap, hnext,
        ull_eq (show c.pos.pc.toNat < 2 ^ 31 by omega)]
    rw [hwrite, behind_cons]
    refine ⟨?_, hbehind, fun c' hc' => ?_⟩
    · rw [hend, List.length_append, List.length_append, hnext]
      omega
    · rw [List.append_assoc]
      refine Holds.behind ?_
      rw [hlength]
      rcases List.mem_cons.mp hc' with rfl | hc'
      · exact (holds_self _ _).append _
      · refine Holds.behind ?_
        rw [← hnext]
        exact hholds c' hc'

/-- What is written of some chunks, and what is not. -/
theorem trimUninitialized_spec (cs : List (Chunk L)) :
    ∃ rest, cs = trimUninitialized cs ++ rest
      ∧ ∀ c ∈ rest, c.atom.content.initialized = false := by
  induction cs with
  | nil => exact ⟨[], rfl, fun _ h => absurd h List.not_mem_nil⟩
  | cons c cs ih =>
    obtain ⟨rest, hcs, hrest⟩ := ih
    unfold trimUninitialized
    split
    · rename_i htrim
      rw [htrim, List.nil_append] at hcs
      split
      · exact ⟨cs, rfl, by rwa [hcs]⟩
      · rename_i hc
        refine ⟨c :: cs, rfl, fun c' hc' => ?_⟩
        rcases List.mem_cons.mp hc' with rfl | hc'
        · exact Bool.eq_false_iff.mpr hc
        · exact hrest c' (hcs ▸ hc')
    · exact ⟨rest, by rw [List.cons_append, ← hcs], hrest⟩

theorem le_behind_chunks {p : Pos} {as : List (Atom L)} (hp : Low p.pc)
    (ha : ∀ a ∈ as, Low a.align)
    (hlow : ∀ c ∈ chunks o env p as, c.pos.pc.toNat + c.data.length < 2 ^ 31) :
    p.pc.toNat ≤ (behind p.pc (chunks o env p as)).toNat := by
  obtain ⟨hend, hbehind, -⟩ := writeAtoms_spec [] (List.append_nil _).symm hp ha hlow
  omega

/-- **A section in the file**: it does not go beyond its end, and its atoms are where they
belong. -/
theorem writeSection_spec {sec : Section L} (h : sec.Fits o env) :
    (writeSection env (assemble o env sec)).2
        = sec.org.toNat + (writeSection env (assemble o env sec)).1.length
      ∧ (writeSection env (assemble o env sec)).2 ≤ (assemble o env sec).pc.toNat
      ∧ ∀ c ∈ (assemble o env sec).chunks, c.atom.content.initialized = true →
        Holds sec.org.toNat (writeSection env (assemble o env sec)).1 c.pos.pc.toNat c.data := by
  obtain ⟨rest, hcs, hrest⟩ := trimUninitialized_spec (assemble o env sec).chunks
  have hlow : ∀ c ∈ trimUninitialized (assemble o env sec).chunks,
      c.pos.pc.toNat + c.data.length < 2 ^ 31 := by
    intro c hc
    have hmem : c ∈ (assemble o env sec).chunks := by
      rw [hcs]
      exact List.mem_append_left _ hc
    exact h.low c hmem
  obtain ⟨hend, hbehind, hholds⟩ := writeAtoms_spec sec.pad (p := sec.start) hcs h.org
    h.align hlow
  have hwrite : writeSection env (assemble o env sec)
      = writeAtoms env sec.pad sec.start.pc.toNat (trimUninitialized (assemble o env sec).chunks) := by
    rw [writeSection, ull_eq (show Low (assemble o env sec).sec.org from h.org)]
    rfl
  rw [hwrite]
  refine ⟨hend, ?_, fun c hc hinit => ?_⟩
  · rw [hbehind, Assembled.pc]
    split
    · rename_i htrim
      rw [htrim]
      exact le_behind_chunks h.org h.align h.low
    · exact Nat.le_refl _
  · rw [hcs] at hc
    rcases List.mem_append.mp hc with hc | hc
    · exact hholds c hc
    · exact absurd ((hrest c hc).symm.trans hinit) Bool.false_ne_true

/-! ## Sections in the file -/

/-- **Two sections are apart**: one of them begins before the other, and ends before it. -/
def Apart (s t : Assembled L) : Prop :=
  (s.sec.org < t.sec.org ∧ s.pc ≤ t.sec.org) ∨ (t.sec.org < s.sec.org ∧ t.pc ≤ s.sec.org)

theorem Apart.symm {s t : Assembled L} (h : Apart s t) : Apart t s := Or.symm h

/-- The sections are written in the order of their addresses, each behind the end of the
last one. -/
def Ascending (ss : List (Assembled L)) : Prop :=
  ss.Pairwise fun s t => s.pc ≤ t.sec.org

theorem ascending_mergeSort {secs : List (Assembled L)} (h : secs.Pairwise Apart) :
    Ascending (secs.mergeSort orgcmp) := by
  have hapart : (secs.mergeSort orgcmp).Pairwise Apart :=
    (List.mergeSort_perm secs orgcmp).symm.pairwise h Apart.symm
  have hsorted : (secs.mergeSort orgcmp).Pairwise fun s t => orgcmp s t = true :=
    List.pairwise_mergeSort (fun a b c hab hbc => by
      simp only [orgcmp, decide_eq_true_eq] at *
      exact BitVec.le_trans hab hbc) (fun a b => by
      simp only [orgcmp, Bool.or_eq_true, decide_eq_true_eq]
      exact BitVec.le_total _ _) secs
  refine (hapart.and hsorted).imp fun ⟨hst, hle⟩ => ?_
  rcases hst with ⟨-, hpc⟩ | ⟨hlt, -⟩
  · exact hpc
  · exact absurd (of_decide_eq_true hle) (by bv_omega)

/-- A section that has been assembled, and has addresses that fit. -/
def Assembled.Fits (o : Options) (env : L → Taddr) (s : Assembled L) : Prop :=
  s = assemble o env s.sec ∧ s.sec.Fits o env

theorem Assembled.Fits.end_eq {s : Assembled L} (h : s.Fits o env) :
    (writeSection env s).2 = s.sec.org.toNat + (writeSection env s).1.length := by
  rw [h.1]
  exact (writeSection_spec h.2).1

theorem Assembled.Fits.end_le {s : Assembled L} (h : s.Fits o env) :
    (writeSection env s).2 ≤ s.pc.toNat := by
  rw [h.1]
  exact (writeSection_spec h.2).2.1

/-- **The sections behind an address**, in the file. -/
theorem writeSections_spec {pc : ℕ} {ss : List (Assembled L)} (hfit : ∀ s ∈ ss, s.Fits o env)
    (hasc : Ascending ss) (hpc : ∀ s ∈ ss, pc ≤ s.sec.org.toNat) :
    ∀ s ∈ ss, Holds pc (writeSections env pc ss) s.sec.org.toNat (writeSection env s).1 := by
  induction ss generalizing pc with
  | nil => exact fun _ h => absurd h List.not_mem_nil
  | cons t ss ih =>
    obtain ⟨ht, hss⟩ := List.pairwise_cons.mp hasc
    have hfitt := hfit t List.mem_cons_self
    have hle := hpc t List.mem_cons_self
    have hlow : t.sec.org.toNat < 2 ^ 31 := hfitt.2.org
    -- the gap ends where the section begins
    have hgap : pc + (fwpattern (BitVec.ofNat 32 (ull t.sec.org - pc)).toNat t.sec.pad).length
        = t.sec.org.toNat := by
      rw [length_fwpattern, ull_eq hfitt.2.org, BitVec.toNat_ofNat, Nat.mod_eq_of_lt (by omega)]
      omega
    intro s hs
    rw [writeSections, List.append_assoc]
    refine Holds.behind ?_
    rw [hgap]
    rcases List.mem_cons.mp hs with rfl | hs
    · exact (holds_self _ _).append _
    · refine Holds.behind ?_
      rw [← hfitt.end_eq]
      refine ih (fun s' hs' => hfit s' (List.mem_cons_of_mem t hs')) hss (fun s' hs' => ?_) s hs
      exact Nat.le_trans hfitt.end_le (ht s' hs')

/-- The address the file begins at. -/
def Program.base (p : Program L) : ℕ := (p.secs.map fun s => s.org.toNat).min?.getD 0

/-- **The sections in the file.** -/
theorem writeOutput_spec {p : Program L} (hfit : ∀ s ∈ p.secs, s.Fits o env)
    (hapart : (p.secs.map (assemble o env)).Pairwise Apart) :
    ∀ s ∈ p.secs, Holds p.base (writeOutput env (p.secs.map (assemble o env))) s.org.toNat
      (writeSection env (assemble o env s)).1 := by
  have hperm := List.mergeSort_perm (p.secs.map (assemble o env)) orgcmp
  have hasc := ascending_mergeSort hapart
  have hfits : ∀ s ∈ (p.secs.map (assemble o env)).mergeSort orgcmp, s.Fits o env := by
    intro s hs
    obtain ⟨sec, hsec, rfl⟩ := List.mem_map.mp (hperm.mem_iff.mp hs)
    exact ⟨rfl, hfit sec hsec⟩
  intro s hs
  have hmem := hperm.mem_iff.mpr (List.mem_map_of_mem (f := assemble o env) hs)
  unfold writeOutput
  cases hsort : (p.secs.map (assemble o env)).mergeSort orgcmp with
  | nil =>
    rw [hsort] at hmem
    exact absurd hmem List.not_mem_nil
  | cons t ss =>
    rw [hsort] at hmem hasc hfits
    obtain ⟨ht, hss⟩ := List.pairwise_cons.mp hasc
    have hfitt := hfits t List.mem_cons_self
    have hend : ∀ s' ∈ ss, (writeSection env t).2 ≤ s'.sec.org.toNat := fun s' hs' =>
      Nat.le_trans hfitt.end_le (ht s' hs')
    -- the first section is the lowest one
    have hbase : p.base = t.sec.org.toNat := by
      have hmin : (p.secs.map fun s => s.org.toNat).min? = some t.sec.org.toNat := by
        refine List.min?_eq_some_iff.mpr ⟨?_, fun b hb => ?_⟩
        · obtain ⟨sec, hsec, hsect⟩ := List.mem_map.mp
            (hperm.mem_iff.mp (hsort ▸ List.mem_cons_self))
          exact List.mem_map.mpr ⟨sec, hsec, by rw [← hsect]; rfl⟩
        · obtain ⟨sec, hsec, rfl⟩ := List.mem_map.mp hb
          have hin := hperm.mem_iff.mpr (List.mem_map_of_mem (f := assemble o env) hsec)
          rw [hsort] at hin
          rcases List.mem_cons.mp hin with heq | hin
          · rw [← heq]
            exact Nat.le_refl _
          · have hle := hend _ hin
            rw [hfitt.end_eq] at hle
            exact Nat.le_trans (Nat.le_add_right _ _) hle
      rw [Program.base, hmin]
      rfl
    rw [hbase]
    show Holds _ ((writeSection env t).1 ++ writeSections env (writeSection env t).2 ss)
      (assemble o env s).sec.org.toNat _
    rcases List.mem_cons.mp hmem with heq | hmem
    · rw [heq]
      exact (holds_self _ _).append _
    · refine Holds.behind ?_
      rw [← hfitt.end_eq]
      exact writeSections_spec (fun s' hs' => hfits s' (List.mem_cons_of_mem t hs')) hss hend _ hmem

/-! ## Sections that overlap -/

/-- **A later section lies around another one**: it begins below it, and does not end before
it. -/
def Encloses (s t : Assembled L) : Prop := t.sec.org < s.sec.org ∧ s.pc ≤ t.pc

/-- **A section that is somewhere**: it is not empty, and ends where the address space does at
the latest. -/
structure Assembled.Within (s : Assembled L) : Prop where
  pos : s.sec.org.toNat < s.pc.toNat
  le : s.pc.toNat ≤ 2 ^ 16

instance (s : Assembled L) : Decidable s.Within :=
  decidable_of_iff (s.sec.org.toNat < s.pc.toNat ∧ s.pc.toNat ≤ 2 ^ 16)
    ⟨fun ⟨hpos, hle⟩ => ⟨hpos, hle⟩, fun h => ⟨h.pos, h.le⟩⟩

/-- What is not noticed of two sections: that the later one lies around the other one, and
anything at all, where the other one ends with the address space. Its end is zero then. -/
def Unnoticed (s t : Assembled L) : Prop := Encloses s t ∨ s.pc.toNat = 2 ^ 16

theorem ulltaddr_eq (a : Taddr) : ulltaddr a = a.toNat % 2 ^ 16 := by
  have hlow : (a.signExtend 64).setWidth 16 = a.setWidth 16 := by
    refine BitVec.eq_of_getLsbD_eq fun i hi => ?_
    have hi64 : i < 64 := by omega
    have hi32 : i < 32 := by omega
    rw [BitVec.getLsbD_setWidth, BitVec.getLsbD_setWidth, BitVec.getLsbD_signExtend, if_pos hi32,
      decide_eq_true hi64, Bool.true_and]
  have hmod := congrArg BitVec.toNat hlow
  rw [BitVec.toNat_setWidth, BitVec.toNat_setWidth] at hmod
  rw [ulltaddr, taddrmask, show 0xffff = 2 ^ 16 - 1 from rfl, Nat.and_two_pow_sub_one_eq_mod]
  exact hmod

/-- A section in front of another one is not taken to overlap it. -/
theorem overlaps_of_le {s t : Assembled L} (horg : s.pc.toNat ≤ t.sec.org.toNat)
    (ht : t.Within) : overlaps s t = false := by
  obtain ⟨hpos, hle⟩ := ht
  unfold overlaps
  simp only [ulltaddr_eq, Bool.or_eq_false_iff, Bool.and_eq_false_iff, decide_eq_false_iff_not]
  omega

/-- **What the assembler notices of two sections.** -/
theorem overlaps_eq_false_iff {s t : Assembled L} (hs : s.Within) (ht : t.Within) :
    overlaps s t = false ↔ Apart s t ∨ Unnoticed s t := by
  obtain ⟨hspos, hsle⟩ := hs
  obtain ⟨htpos, htle⟩ := ht
  unfold overlaps Apart Unnoticed Encloses
  simp only [ulltaddr_eq, Bool.or_eq_false_iff, Bool.and_eq_false_iff, decide_eq_false_iff_not,
    BitVec.lt_def, BitVec.le_def]
  omega

/-- All pairs of sections are compared. -/
theorem chkSecOverlap_iff {ss : List (Assembled L)} :
    chkSecOverlap ss = true ↔ ss.Pairwise fun s t => overlaps s t = false := by
  induction ss with
  | nil => exact iff_of_true rfl List.Pairwise.nil
  | cons s ss ih =>
    rw [chkSecOverlap, Bool.and_eq_true_iff, List.pairwise_cons, ih, List.all_eq_true]
    simp only [Bool.not_eq_true']

/-- **What the assembler notices of sections that overlap**: all of it, but for a section that
lies around one that was there before it, or is there after one that ends with the address
space. -/
theorem overlaps_noticed {ss : List (Assembled L)} (hin : ∀ s ∈ ss, s.Within) :
    chkSecOverlap ss = true ↔ ss.Pairwise fun s t => Apart s t ∨ Unnoticed s t :=
  chkSecOverlap_iff.trans
    (List.Pairwise.iff_of_mem fun hs ht => overlaps_eq_false_iff (hin _ hs) (hin _ ht))

/-- Some zeros at an address. -/
def zeros (org : Taddr) (n : ℕ) : Assembled Empty :=
  assemble ⟨M6502, false, false, 0⟩ Empty.elim
    ⟨org, 0, [0], [⟨1, .data (List.replicate n 0)⟩]⟩

/-- It makes a difference which of two sections is there first, and vectors at the end of a
section that fills the memory are not noticed. -/
theorem enclosing_not_noticed : chkSecOverlap [zeros 0x10 0x10, zeros 0x00 0x30] = true
    ∧ ¬Apart (zeros 0x10 0x10) (zeros 0x00 0x30)
    ∧ chkSecOverlap [zeros 0x00 0x30, zeros 0x10 0x10] = false
    ∧ chkSecOverlap [zeros 0xfff0 0x10, zeros 0xfffc 0x04] = true
    ∧ ¬Apart (zeros 0xfff0 0x10) (zeros 0xfffc 0x04) := by
  have hpair : ∀ {s t : Assembled Empty}, (∀ u ∈ [s, t], u.Within) → Unnoticed s t →
      chkSecOverlap [s, t] = true := fun hin hst =>
    (overlaps_noticed hin).mpr (List.pairwise_pair.mpr (.inr hst))
  have hapart : ∀ {s t : Assembled Empty}, t.sec.org < s.pc → s.sec.org < t.pc → ¬Apart s t :=
    fun hst hts => not_or.mpr
      ⟨fun h => BitVec.not_le.mpr hst h.2, fun h => BitVec.not_le.mpr hts h.2⟩
  refine ⟨hpair (by decide +kernel) (.inl ⟨by decide +kernel, by decide +kernel⟩), ?_,
    by decide +kernel, hpair (by decide +kernel) (.inr (by decide +kernel)), ?_⟩
  · exact hapart (by decide +kernel) (by decide +kernel)
  · exact hapart (by decide +kernel) (by decide +kernel)

/-- Sections that the assembler does not notice to overlap are apart, if none of them overlaps
in a way that is not noticed. -/
theorem pairwise_apart {ss : List (Assembled L)} (hin : ∀ s ∈ ss, s.Within)
    (hchk : chkSecOverlap ss = true) (hnot : ss.Pairwise fun s t => Unnoticed s t → Apart s t) :
    ss.Pairwise Apart :=
  (List.Pairwise.and_mem.mp (((overlaps_noticed hin).mp hchk).and hnot)).imp
    fun ⟨_, _, happart, hst⟩ => happart.elim id hst

/-! ## The whole run -/

/-- What a run of the assembler that writes a file has come to. -/
theorem vasm_cases [DecidableEq L] {p : Program L} {rounds : ℕ} {ly : Layouts L}
    {image : List Byte} (h : vasm o p rounds ly = some (env, image)) :
    ∃ ly', resolve o p rounds ly = some ly' ∧ ly'.env = env
      ∧ image = writeOutput env (p.secs.map (assemble o env))
      ∧ (∀ s ∈ p.secs, Clean (assemble o env s).complaints)
      ∧ chkSecOverlap (p.secs.map (assemble o env)) = true := by
  obtain ⟨ly', hres, hvasm⟩ := Option.bind_eq_some_iff.mp h
  dsimp only at hvasm
  split at hvasm
  · rename_i hok
    obtain ⟨rfl, rfl⟩ := Prod.mk.inj (Option.some_inj.mp hvasm)
    obtain ⟨hcomplaints, hchk⟩ := Bool.and_eq_true_iff.mp hok
    refine ⟨ly', hres, rfl, rfl, fun s hs c hc => ?_, hchk⟩
    have hall := List.all_eq_true.mp (List.all_eq_true.mp hcomplaints _
      (List.mem_map_of_mem hs)) c hc
    rwa [Bool.not_eq_true'] at hall
  · exact absurd hvasm (Option.some_ne_none _).symm

/-- **The atoms in the file**: every atom is written without an error, and the file holds it
where it stands. -/
theorem vasm_atom [DecidableEq L] {p : Program L} {rounds : ℕ} {ly : Layouts L}
    {image : List Byte} (h : vasm o p rounds ly = some (env, image))
    (hv : ∀ s ∈ p.secs, ∀ a ∈ s.atoms, a.content.Valued) (hfit : ∀ s ∈ p.secs, s.Fits o env)
    (hin : ∀ s ∈ p.secs, (assemble o env s).Within)
    (hnot : (p.secs.map (assemble o env)).Pairwise fun s t => Unnoticed s t → Apart s t)
    {s : Section L} (hs : s ∈ p.secs) {q : Pos} {a : Atom L}
    (hqa : (q, a) ∈ placed o env s.start s.atoms) :
    Clean (emission o env q a.content).complaints
      ∧ (a.content.initialized = true →
        Holds p.base image q.pc.toNat (emission o env q a.content).data) := by
  obtain ⟨-, -, -, rfl, hcomplaints, hchk⟩ := vasm_cases h
  have hapart : (p.secs.map (assemble o env)).Pairwise Apart := by
    refine pairwise_apart (fun s hs => ?_) hchk hnot
    obtain ⟨sec, hsec, rfl⟩ := List.mem_map.mp hs
    exact hin sec hsec
  have hclean : Clean ((chunks o env s.start s.atoms).flatMap Chunk.complaints) := fun c hc =>
    hcomplaints s hs c (List.mem_append_left _ hc)
  have hmem : ⟨a, q, (emission o env q a.content).data,
      (emission o env q a.content).complaints⟩ ∈ (assemble o env s).chunks := by
    show _ ∈ chunks o env s.start s.atoms
    rw [chunks_eq (hv s hs) hclean]
    exact List.mem_map.mpr ⟨(q, a), hqa, rfl⟩
  refine ⟨fun c hc => hclean c (List.mem_flatMap_of_mem hmem hc), fun hinit => ?_⟩
  exact (writeOutput_spec hfit hapart s hs).trans
    ((writeSection_spec (hfit s hs)).2.2 _ hmem hinit)

/-- A word that points to a byte in another section. -/
def pointer : Program Unit where
  secs := [⟨0x8000, 0, [0], [⟨1, .datadef 16 ⟨false, false, false, false⟩ (.label ())⟩]⟩,
    ⟨0x8010, 0, [0], [⟨1, .label ()⟩, ⟨1, .data [0x42]⟩]⟩]
  sec _ := 1
  owned {i s} hs l hl := by
    match i with
    | 0 =>
      obtain rfl := Option.some_inj.mp hs
      obtain ⟨a, ha, hal⟩ := hl
      rw [List.mem_singleton.mp ha] at hal
      cases hal
    | 1 => rfl

/-- What the assembler makes of it. -/
def pointerFile : (Unit → Taddr) × List Byte :=
  (vasm ⟨M6502, false, false, 0⟩ pointer 3 ⟨fun _ => 0, fun _ => []⟩).getD (fun _ => 0, [])

/-- The assembler, where nothing goes wrong. -/
theorem vasm_of_clean [DecidableEq L] {p : Program L} {rounds : ℕ} {ly ly' : Layouts L}
    (hres : resolve o p rounds ly = some ly')
    (hclean : ∀ s ∈ p.secs, (assemble o ly'.env s).complaints = [])
    (hoverlap : chkSecOverlap (p.secs.map (assemble o ly'.env)) = true) :
    vasm o p rounds ly
      = some (ly'.env, writeOutput ly'.env (p.secs.map (assemble o ly'.env))) := by
  have hok : ((p.secs.map (assemble o ly'.env)).all fun s =>
      s.complaints.all fun c => !c.isError) = true := by
    refine List.all_eq_true.mpr fun s hs => ?_
    obtain ⟨sec, hsec, rfl⟩ := List.mem_map.mp hs
    rw [hclean sec hsec]
    rfl
  unfold vasm
  rw [hres, Option.bind_some]
  exact if_pos (Bool.and_eq_true_iff.mpr ⟨hok, hoverlap⟩)

end Write

end Vasm
