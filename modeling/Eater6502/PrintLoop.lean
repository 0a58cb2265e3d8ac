import Eater6502.Transfer

/-!
# The print loop

The loop at `print` takes bytes from the window at `message`, from wherever the
index register stands, wrapping after 256, and calls `print_char` for each until
it meets a zero. `cyclic` is that sequence of bytes and `chars_lead` the loop
itself, `j` bytes at a time. Whether it ends is a question about the window
alone: either a zero is met within a turn (`end_leads`), or there is none, and
the loop goes on for ever.

The calls are observed at the entry of `print_char`, where the accumulator holds
the byte. That the observer of the processor and the observer of the listing see
the same rests on no two instructions sharing an address.
-/

namespace Eater

open Isa Cpu Asm Run

/-- The first `j` bytes of a window from `x` on, cyclically. -/
def cyclic (w : Byte → Byte) (x : Byte) (j : ℕ) : List Byte :=
  (List.range j).map fun i => w (x + BitVec.ofNat 8 i)

theorem cyclic_succ (w : Byte → Byte) (x : Byte) (j : ℕ) :
    cyclic w x (j + 1) = cyclic w x j ++ [w (x + BitVec.ofNat 8 j)] := by
  rw [cyclic, List.range_succ, List.map_append]
  rfl

/-- Part of such a sequence is such a sequence. -/
theorem eq_cyclic_of_part {w : Byte → Byte} {x : Byte} {j : ℕ} {l : List Byte}
    (h : l <+: cyclic w x j) : l = cyclic w x l.length ∧ l.length ≤ j := by
  have hle : l.length ≤ j := by
    have hlen := h.length_le
    rw [cyclic, List.length_map, List.length_range] at hlen
    exact hlen
  refine ⟨?_, hle⟩
  rw [List.prefix_iff_eq_take.mp h, cyclic, ← List.map_take, List.take_range, List.length_map,
    List.length_range, Nat.min_eq_left hle]
  rfl

/-- The byte a listing calls `print_char` with, where it is at its entry. -/
def called (c : Config Board) : List Byte := if c.line = 47 then [c.a] else []

/-- **The bytes a processor calls `print_char` with** in `n` steps: the contents of
the accumulator each time it is there. -/
def charCalls (msg : Message) (lcd : ℕ → Byte) (n : ℕ) (m : Machine Board) : List Byte :=
  observe (Machine.step (board msg lcd))
    (fun m => if m.pc = label msg .printChar then [m.a] else []) n m

/-- What holds in the print loop. -/
def Printing (k : ℕ) (c : Config Board) : Prop :=
  Calm k c.stack c.bus ∧ (c.line != 20) = true

theorem Inside.printing {k : ℕ} {c : Config Board} (h : Inside k c) : Printing k c := by
  refine ⟨h.1, bne_iff_ne.mpr fun hline => ?_⟩
  rw [Inside, hline] at h
  exact absurd h.2 (by decide)

/-- Nothing is printed inside a routine. -/
theorem Inside.called_eq_nil {k : ℕ} {c : Config Board} (h : Inside k c) : called c = [] := by
  refine if_neg fun hline => ?_
  rw [Inside, hline] at h
  exact absurd h.2 (by decide)

section Loop

variable {msg : Message} {lcd : ℕ → Byte} {k : ℕ} {a x y : Byte} {f : Flags} {b : Board}

variable (msg) in
/-- **One byte printed**, and on to the next. -/
theorem char_leads (hfair : Fair lcd) (hx : window msg x ≠ 0) (hv : b.via.Idle)
    (h : Calm k [] b) :
    ∃ n a' f' b', Leads (go msg lcd) (Printing k) (n + 1) ⟨a, x, y, f, 15, [], b⟩
        ⟨a', x + 1, y, f', 15, [], b'⟩
      ∧ observe (go msg lcd) called (n + 1) ⟨a, x, y, f, 15, [], b⟩ = [window msg x]
      ∧ (∃ q, Adds q [⟨true, window msg x⟩] b b') ∧ b'.via.Idle ∧ Calm k [] b' := by
  obtain ⟨q, hq⟩ := hfair.answers b.polls
  have h₁ : Calm k [.call 17] b := h.stack (show 2 ∈ [0, 2, 4, 5] by decide)
  have h₂ : Calm k [.call 47, .call 17] b := h.stack (show 4 ∈ [0, 2, 4, 5] by decide)
  obtain ⟨f', b', hbody, hsends, hcalm⟩ := body_leads msg (a := window msg x)
    (x := x) (y := y) (f := f.result (window msg x)) .printChar hv h₂ hq
  generalize 3 + 7 * q + 21 = N at hbody
  have hload : go msg lcd ⟨a, x, y, f, 15, [], b⟩ = _ := step_ldaMessage
  have hbeq : go msg lcd ⟨window msg x, x, y, f.result (window msg x), 16, [], b⟩ = _ :=
    step_atEnd
  rw [Flags.result_z, if_neg (by simpa using hx)] at hbeq
  have hcall : go msg lcd ⟨window msg x, x, y, f.result (window msg x), 17, [], b⟩ = _ :=
    step_call .printChar rfl
  have hentry : go msg lcd ⟨window msg x, x, y, f.result (window msg x), Routine.printChar.line,
      [.call 17], b⟩ = _ := step_entry .printChar
  have hinx : go msg lcd ⟨Routine.printChar.rs, x, y, f', 17 + 1, [], b'⟩ = _ :=
    Config.step_inx rfl
  have hjmp : go msg lcd ⟨Routine.printChar.rs, x + 1, y, f'.result (x + 1), 17 + 1 + 1, [], b'⟩
      = _ := Config.step_jmpAbs rfl rfl
  refine ⟨N + 2 + 1 + 1 + 1, RS, f'.result (x + 1), b', ?_, ?_,
    ⟨_, hsends.adds⟩, hsends.idle, hcalm⟩
  · refine .cons ⟨h, rfl⟩ hload (.cons ⟨h, rfl⟩ hbeq (.cons ⟨h, rfl⟩ hcall ?_))
    refine .cons ⟨h₁, rfl⟩ hentry ((hbody.mono fun _ => Inside.printing).trans ?_)
    exact .cons ⟨hcalm, rfl⟩ hinx (.single ⟨hcalm, rfl⟩ hjmp)
  · rw [observe_succ_of hload, observe_succ_of hbeq, observe_succ_of hcall,
      observe_succ_of hentry, observe_add hbody.after_eq,
      hbody.observe_eq_nil fun _ => Inside.called_eq_nil, observe_succ_of hinx,
      observe_succ_of hjmp]
    simp [called, Routine.line, observe]

variable (msg) in
/-- **The loop, `j` bytes on.** -/
theorem chars_lead (hfair : Fair lcd) (hv : b.via.Idle) (h : Calm k [] b) {j : ℕ}
    (hne : ∀ i < j, window msg (x + BitVec.ofNat 8 i) ≠ 0) :
    ∃ n a' f' b', j ≤ n ∧ Leads (go msg lcd) (Printing k) n ⟨a, x, y, f, 15, [], b⟩
        ⟨a', x + BitVec.ofNat 8 j, y, f', 15, [], b'⟩
      ∧ observe (go msg lcd) called n ⟨a, x, y, f, 15, [], b⟩ = cyclic (window msg) x j
      ∧ (∃ q, Adds q ((cyclic (window msg) x j).map (Strobe.mk true)) b b')
      ∧ b'.via.Idle ∧ Calm k [] b' := by
  induction j with
  | zero =>
    refine ⟨0, a, f, b, Nat.le_refl 0, ?_, rfl, ⟨0, .refl b⟩, hv, h⟩
    rw [show x + BitVec.ofNat 8 0 = x from BitVec.add_zero x]
    exact .refl _
  | succ j ih =>
    obtain ⟨n, a₁, f₁, b₁, hn, hpath, hobs, ⟨q, hadds⟩, hv₁, h₁⟩ :=
      ih fun i hi => hne i (Nat.lt_succ_of_lt hi)
    obtain ⟨n', a', f', b', hpath', hobs', ⟨q', hadds'⟩, hv', h'⟩ :=
      char_leads msg (y := y) (a := a₁) (f := f₁) hfair (hne j (Nat.lt_succ_self j)) hv₁ h₁
    refine ⟨n + (n' + 1), a', f', b', by omega, ?_, ?_, ⟨q + q', ?_⟩, hv', h'⟩
    · rw [BitVec.ofNat_add, ← BitVec.add_assoc]
      exact hpath.trans hpath'
    · rw [observe_add hpath.after_eq, hobs, hobs', cyclic_succ]
    · rw [cyclic_succ, List.map_append]
      exact hadds.trans hadds'

/-- The first zero met from `x` on is met within a turn. -/
theorem first_zero {w : Byte → Byte} (x : Byte) (h : ∃ i, w i = 0) :
    ∃ j ≤ 255, w (x + BitVec.ofNat 8 j) = 0 ∧ ∀ i < j, w (x + BitVec.ofNat 8 i) ≠ 0 := by
  obtain ⟨i, hi⟩ := h
  have hturn : w (x + BitVec.ofNat 8 (i - x).toNat) = 0 := by
    rw [BitVec.ofNat_toNat, BitVec.setWidth_eq, BitVec.add_comm, BitVec.sub_add_cancel, hi]
  have hex : ∃ j, w (x + BitVec.ofNat 8 j) = 0 := ⟨_, hturn⟩
  refine ⟨Nat.find hex, ?_, Nat.find_spec hex, fun j hj => Nat.find_min hex hj⟩
  exact Nat.le_trans (Nat.find_min' hex hturn) (Nat.le_of_lt_succ (i - x).isLt)

variable (msg) in
/-- **The loop is left at the first zero.** -/
theorem end_leads (hfair : Fair lcd) (hv : b.via.Idle) (h : Calm k [] b) {j : ℕ}
    (hne : ∀ i < j, window msg (x + BitVec.ofNat 8 i) ≠ 0)
    (hz : window msg (x + BitVec.ofNat 8 j) = 0) :
    ∃ n f' b', Leads (go msg lcd) (Printing k) n ⟨a, x, y, f, 15, [], b⟩
        ⟨0, x + BitVec.ofNat 8 j, y, f', 20, [], b'⟩
      ∧ observe (go msg lcd) called n ⟨a, x, y, f, 15, [], b⟩ = cyclic (window msg) x j
      ∧ ∃ q, Adds q ((cyclic (window msg) x j).map (Strobe.mk true)) b b' := by
  obtain ⟨n, a₁, f₁, b₁, -, hpath, hobs, hadds, -, h₁⟩ :=
    chars_lead msg (a := a) (y := y) (f := f) hfair hv h hne
  have hload : go msg lcd ⟨a₁, x + BitVec.ofNat 8 j, y, f₁, 15, [], b₁⟩ = _ := step_ldaMessage
  have hbeq : go msg lcd ⟨0, x + BitVec.ofNat 8 j, y, f₁.result 0, 16, [], b₁⟩ = _ := step_atEnd
  rw [hz] at hload
  refine ⟨n + 2, f₁.result 0, b₁, hpath.trans ?_, ?_, hadds⟩
  · exact .cons ⟨h₁, rfl⟩ hload (.single ⟨h₁, rfl⟩ hbeq)
  · rw [observe_add hpath.after_eq, hobs, observe_succ_of hload, observe_succ_of hbeq]
    simp [called, observe]

variable (msg) in
/-- **Wherever the loop is**, it has printed a part of the sequence that contains
no zero, and if it has been left, a zero is what it met. -/
theorem printing_run (hfair : Fair lcd) (hv : b.via.Idle) (h : Calm k [] b) (n : ℕ) :
    ∃ c, after (go msg lcd) n ⟨a, x, y, f, 15, [], b⟩ = some c
      ∧ ∃ j, observe (go msg lcd) called n ⟨a, x, y, f, 15, [], b⟩ = cyclic (window msg) x j
        ∧ (∀ i < j, window msg (x + BitVec.ofNat 8 i) ≠ 0)
        ∧ (c.line = 20 → j ≤ 255 ∧ window msg (x + BitVec.ofNat 8 j) = 0) := by
  by_cases hex : ∃ i, window msg i = 0
  · obtain ⟨j, hj, hz, hne⟩ := first_zero x hex
    obtain ⟨N, f', b', hpath, hobs, -⟩ := end_leads msg (a := a) (y := y) (f := f) hfair hv h hne hz
    obtain ⟨c, hc, ⟨hP, hpre⟩ | ⟨rfl, heq⟩⟩ := hpath.rest called step_loop rfl n
    · rw [hobs] at hpre
      obtain ⟨hl, hle⟩ := eq_cyclic_of_part hpre
      exact ⟨c, hc, _, hl, fun i hi => hne i (Nat.lt_of_lt_of_le hi hle),
        fun hline => absurd hline (bne_iff_ne.mp hP.2)⟩
    · exact ⟨_, hc, j, heq.trans hobs, hne, fun _ => ⟨hj, hz⟩⟩
  · have hne : ∀ i, window msg i ≠ 0 := fun i hi => hex ⟨i, hi⟩
    obtain ⟨N, a', f', b', hN, hpath, hobs, -⟩ :=
      chars_lead msg (a := a) (x := x) (y := y) (f := f) (j := n + 1) hfair hv h fun i _ => hne _
    obtain ⟨c, hc, hP⟩ := hpath.get hN
    have hpre := observe_mono called hpath.after_eq (Nat.le_of_lt hN)
    rw [hobs] at hpre
    exact ⟨c, hc, _, (eq_cyclic_of_part hpre).1, fun i _ => hne _,
      fun hline => absurd hline (bne_iff_ne.mp hP.2)⟩

end Loop

/-! ## The loop as the processor runs it -/

section Processor

variable {msg : Message} {lcd : ℕ → Byte} {m : Machine Board} {c c' : Config Board}
variable {base : Byte} {page : Byte → Byte} {noted : List Word}

/-- **An address tells the line**, where the listing is running. -/
theorem pc_eq_iff (h : Models (prog msg.data) discipline base page noted m c)
    (hc : go msg lcd c = some c') {i : ℕ} {lbl : Option Label}
    {ins : Instr (Operand Label) Label} (hi : (lines msg.data)[i]? = some ⟨lbl, .instr ins⟩) :
    m.pc = (prog msg.data).addr i ↔ c.line = i := by
  obtain ⟨lbl', ins', hline, -⟩ := Config.step_cases hc
  refine ⟨fun hpc => ?_, fun hline => by rw [h.pc, hline]⟩
  refine Listing.addr_inj (p := prog msg.data) ?_ hline hi (h.pc.symm.trans hpc)
  show offset (lines msg.data) 56 < 2 ^ 16
  have hfits := msg.fits
  rw [offset_lines]
  omega

/-- The two observers see the same. -/
theorem charCalls_eq (h : Models (prog msg.data) discipline base page noted m c) {n : ℕ}
    (hc : after (go msg lcd) n c = some c') :
    charCalls msg lcd n m = observe (go msg lcd) called n c := by
  refine follows.observe_eq (fun m c c' hm hc => ?_) h hc
  show (if m.pc = (prog msg.data).addr 47 then [m.a] else []) = called c
  rw [called, hm.a]
  exact if_congr (pc_eq_iff hm hc (i := 47) rfl) rfl rfl

/-- **The print loop**, from a processor at `print`. -/
structure Prints (msg : Message) (lcd : ℕ → Byte) (m : Machine Board) : Prop where
  /-- At every time `print_char` has been called with a part of the window from `x`
  on that contains no zero; and when `loop` is reached, a zero comes next. -/
  calls : ∀ n, ∃ m', after (Machine.step (board msg lcd)) n m = some m'
    ∧ ∃ j, charCalls msg lcd n m = cyclic (window msg) m.x j
      ∧ (∀ i < j, window msg (m.x + BitVec.ofNat 8 i) ≠ 0)
      ∧ (m'.pc = label msg .loop → j ≤ 255 ∧ window msg (m.x + BitVec.ofNat 8 j) = 0)
  /-- It is reached if and only if there is a zero. -/
  ends : (∃ n m', after (Machine.step (board msg lcd)) n m = some m'
    ∧ m'.pc = label msg .loop) ↔ ∃ i, window msg i = 0
  /-- Otherwise the window is printed over and over. -/
  forever : (∀ i, window msg i ≠ 0) →
    ∀ j, ∃ n, charCalls msg lcd n m = cyclic (window msg) m.x j
  /-- A string of up to 255 bytes is printed from its start. -/
  short : ∀ s, msg.data = asciiz s → 0 ∉ s → m.x = 0 → s.length ≤ 255 →
    ∃ n m', after (Machine.step (board msg lcd)) n m = some m' ∧ m'.pc = label msg .loop
      ∧ charCalls msg lcd n m = s
  /-- The end of a longer one is out of reach. -/
  long : ∀ s, msg.data = asciiz s → 0 ∉ s → m.x = 0 → 256 ≤ s.length →
    ∀ n m', after (Machine.step (board msg lcd)) n m = some m' → m'.pc ≠ label msg .loop

section Strings

variable {s : List Byte}

theorem window_of_lt (hs : msg.data = asciiz s) {i : Byte} (hi : i.toNat < s.length) :
    window msg i = s[i.toNat] := by
  refine window_data msg ?_
  rw [hs, asciiz, List.getElem?_append_left hi, List.getElem?_eq_getElem hi]

theorem window_of_eq (hs : msg.data = asciiz s) {i : Byte} (hi : i.toNat = s.length) :
    window msg i = 0 := by
  refine window_data msg ?_
  rw [hs, asciiz, hi, List.getElem?_append_right (Nat.le_refl _), Nat.sub_self]
  rfl

/-- Before its end there is no zero in a string. -/
theorem window_ne_zero (hs : msg.data = asciiz s) (h0 : 0 ∉ s) {i : Byte}
    (hi : i.toNat < s.length) : window msg i ≠ 0 := by
  rw [window_of_lt hs hi]
  exact fun h => h0 (h ▸ List.getElem_mem hi)

theorem toNat_zero_add {i : ℕ} (hi : i ≤ 255) : (0 + BitVec.ofNat 8 i : Byte).toNat = i := by
  rw [show (0 + BitVec.ofNat 8 i : Byte) = BitVec.ofNat 8 i from BitVec.zero_add _,
    BitVec.toNat_ofNat]
  exact Nat.mod_eq_of_lt (Nat.lt_succ_of_le hi)

/-- From its start the window shows the string. -/
theorem cyclic_string (hs : msg.data = asciiz s) (hlen : s.length ≤ 255) :
    cyclic (window msg) 0 s.length = s := by
  refine List.ext_getElem (by rw [cyclic, List.length_map, List.length_range]) fun i hi hi' => ?_
  have hnat := toNat_zero_add (Nat.le_trans (Nat.le_of_lt hi') hlen)
  simp only [cyclic, List.getElem_map, List.getElem_range]
  rw [window_of_lt hs (by rw [hnat]; exact hi')]
  simp only [hnat]

end Strings

section Print

variable (hfair : Fair lcd) (hpc : m.pc = label msg .print) (hidle : m.bus.via.Idle)
include hfair hpc hidle

/-- **At every time** a part of the window has been printed, and at `loop` a zero comes
next. -/
theorem calls_of_run (n : ℕ) : ∃ m', after (Machine.step (board msg lcd)) n m = some m'
    ∧ ∃ j, charCalls msg lcd n m = cyclic (window msg) m.x j
      ∧ (∀ i < j, window msg (m.x + BitVec.ofNat 8 i) ≠ 0)
      ∧ (m'.pc = label msg .loop → j ≤ 255 ∧ window msg (m.x + BitVec.ofNat 8 j) = 0) := by
  have hmodels := models_of_pc (i := 15) hpc
  have hrun := printing_run msg (a := m.a) (x := m.x) (y := m.y) (f := m.p) hfair
    hidle (Calm.init hidle.noContention)
  obtain ⟨c, hc, j, hobs, hne, hend⟩ := hrun n
  obtain ⟨c', hc', -⟩ := hrun (n + 1)
  obtain ⟨m', hm', hmodels'⟩ := follows.after_lift hmodels hc
  exact ⟨m', hm', j, (charCalls_eq hmodels hc).trans hobs, hne,
    fun h => hend ((pc_eq_iff hmodels' (step_of_after hc hc') (i := 20) rfl).mp h)⟩

/-- **A zero ends the loop**, with everything in front of it printed. -/
theorem ends_of_zero {j : ℕ} (hne : ∀ i < j, window msg (m.x + BitVec.ofNat 8 i) ≠ 0)
    (hz : window msg (m.x + BitVec.ofNat 8 j) = 0) :
    ∃ n m', after (Machine.step (board msg lcd)) n m = some m' ∧ m'.pc = label msg .loop
      ∧ charCalls msg lcd n m = cyclic (window msg) m.x j := by
  have hmodels := models_of_pc (i := 15) hpc
  obtain ⟨n, f', b', hpath, hobs, -⟩ := end_leads msg (a := m.a) (y := m.y) (f := m.p) hfair
    hidle (Calm.init hidle.noContention) hne hz
  obtain ⟨m', hm', hmodels'⟩ := follows.after_lift hmodels hpath.after_eq
  exact ⟨n, m', hm', hmodels'.pc, (charCalls_eq hmodels hpath.after_eq).trans hobs⟩

/-- **Nothing else ends it.** -/
theorem zero_of_end {n : ℕ} {m' : Machine Board}
    (hm' : after (Machine.step (board msg lcd)) n m = some m') (hloop : m'.pc = label msg .loop) :
    ∃ i, window msg i = 0 := by
  obtain ⟨m'', hm'', j, -, -, hend⟩ := calls_of_run hfair hpc hidle n
  obtain rfl := Option.some_inj.mp (hm'.symm.trans hm'')
  exact ⟨_, (hend hloop).2⟩

end Print

/-- **What the print loop does**, with an LCD that is never busy for ever. -/
theorem print_loop (msg : Message) (lcd : ℕ → Byte) (hfair : Fair lcd) (m : Machine Board)
    (hpc : m.pc = label msg .print) (hidle : m.bus.via.Idle) : Prints msg lcd m := by
  have hmodels := models_of_pc (i := 15) hpc
  exact {
    calls := calls_of_run hfair hpc hidle
    ends := by
      refine ⟨fun ⟨_, _, hm', hloop⟩ => zero_of_end hfair hpc hidle hm' hloop, fun hex => ?_⟩
      obtain ⟨j, -, hz, hne⟩ := first_zero m.x hex
      obtain ⟨n, m', hm', hloop, -⟩ := ends_of_zero hfair hpc hidle hne hz
      exact ⟨n, m', hm', hloop⟩
    forever := by
      intro hne j
      obtain ⟨n, _, _, _, -, hpath, hobs, -⟩ := chars_lead msg (a := m.a) (x := m.x)
        (y := m.y) (f := m.p) (j := j) hfair hidle (Calm.init hidle.noContention)
        fun i _ => hne _
      exact ⟨n, (charCalls_eq hmodels hpath.after_eq).trans hobs⟩
    short := by
      intro s hs h0 hx hlen
      have hnat : ∀ {i}, i ≤ 255 → (m.x + BitVec.ofNat 8 i).toNat = i := fun hi => by
        rw [hx, toNat_zero_add hi]
      obtain ⟨n, m', hm', hloop, hcall⟩ := ends_of_zero hfair hpc hidle
        (fun i hi => window_ne_zero hs h0 (by rw [hnat (by omega)]; exact hi))
        (window_of_eq hs (hnat hlen))
      rw [hx, cyclic_string hs hlen] at hcall
      exact ⟨n, m', hm', hloop, hcall⟩
    long := by
      intro s hs h0 _ hlen n m' hm' hloop
      obtain ⟨i, hi⟩ := zero_of_end hfair hpc hidle hm' hloop
      exact window_ne_zero hs h0 (Nat.lt_of_lt_of_le i.isLt hlen) hi }

/-- A processor at `print`, with the index at the start of the message. -/
def atPrint : Machine Board where
  a := 0
  x := 0
  y := 0
  sp := 0xff
  p := ⟨false, false, false, true, true, false⟩
  pc := label helloWorld .print
  page1 _ := 0
  bus := ⟨⟨0x01, 0, 0xff, 0xe0⟩, fun _ => 0, 0, []⟩
  written := []

/-- With the index cleared, the listing's own message is printed from its start. -/
theorem hello_printed : ∃ n m',
    after (Machine.step (board helloWorld idleLcd)) n atPrint = some m'
      ∧ m'.pc = label helloWorld .loop ∧ charCalls helloWorld idleLcd n atPrint = hello :=
  (print_loop helloWorld idleLcd fair_idleLcd atPrint rfl ⟨rfl, by decide⟩).short hello rfl
    (by decide) rfl (by decide)

end Processor

end Eater
