import Eater6502.Startup

/-!
# What holds in every state of every run

The LCD may answer what it likes, and may be busy for ever. The busy loop then
has no last round, and no statement about whole calls says anything about the
states inside it. So every run is cut into the paths of `Driver` instead, at
the lines of the main program, the entries of the two routines and the head of
the busy loop (`Cut`); each path leads from cut to cut through states that are
`Calm` (`cut_leads`), and hence every state of every run is (`calm_run`).

Two theorems follow about the processor. `bus_safety` is what the LCD sees of
it: the protocol is respected. `footprint` is about the processor itself:
execution stays on the listing, calls and returns pair up, and nothing is
written but five bytes of stack and the registers of the VIA.
-/

namespace Eater

open Isa Cpu Asm Run

variable {msg : Message} {lcd : ℕ → Byte} {k : ℕ}

/-- The lines of the main program behind the set-up of the VIA. -/
def mainLines : List ℕ := [6, 7, 8, 9, 10, 11, 12, 13, 14, 15, 16, 17, 18, 19, 20]

/-- Those among them that call the driver. -/
def callLines : List ℕ := [7, 9, 11, 13, 17]

/-- **The cut points.** -/
inductive Cut (k : ℕ) : Config Board → Prop where
  /-- Before the VIA is set up. -/
  | boot {a x y f b} (hv : b.via = .cleared) (h : Calm k [] b) : Cut k ⟨a, x, y, f, 2, [], b⟩
  /-- On a line of the main program. -/
  | main {a x y f i b} (hi : i ∈ mainLines) (hv : b.via.Idle) (h : Calm k [] b) :
    Cut k ⟨a, x, y, f, i, [], b⟩
  /-- At the entry of a routine. -/
  | entry {a x y f i b} (r : Routine) (hi : i ∈ callLines) (hv : b.via.Idle)
    (h : Calm k [] b) : Cut k ⟨a, x, y, f, r.line, [.call i], b⟩
  /-- At the head of the busy loop. -/
  | busy {a x y f i s b} (r : Routine) (hi : i ∈ callLines) (hv : b.via.Polling)
    (h : Calm k [.saved s, .call r.line, .call i] b) :
    Cut k ⟨a, x, y, f, 25, [.saved s, .call r.line, .call i], b⟩

/-- A return leads back to the main program. -/
theorem succ_mem_mainLines {i : ℕ} (hi : i ∈ callLines) : i + 1 ∈ mainLines := by
  revert i
  decide

/-- **A line of the main program** leads to another one, or into a routine. -/
theorem main_step {a x y : Byte} {f : Flags} {i : ℕ} {b : Board} (hi : i ∈ mainLines)
    (hv : b.via.Idle) (h : Calm k [] b) :
    ∃ c', go msg lcd ⟨a, x, y, f, i, [], b⟩ = some c' ∧ Cut k c' := by
  have hmain : ∀ {j : ℕ}, j ∈ mainLines → ∀ {a x y f}, Cut k ⟨a, x, y, f, j, [], b⟩ :=
    fun hj => Cut.main hj hv h
  have hcall : ∀ r : Routine, ∀ {j : ℕ}, j ∈ callLines →
      ∀ {a x y f}, Cut k ⟨a, x, y, f, r.line, [.call j], b⟩ :=
    fun r _ hj => Cut.entry r hj hv h
  simp only [mainLines, List.mem_cons, List.not_mem_nil, or_false] at hi
  rcases hi with rfl | rfl | rfl | rfl | rfl | rfl | rfl | rfl | rfl | rfl | rfl | rfl | rfl |
    rfl | rfl
  -- the commands, each loaded and sent
  · exact ⟨_, Config.step_ldaImm rfl, hmain (by decide)⟩
  · exact ⟨_, step_call .lcdInstruction rfl, hcall _ (by decide)⟩
  · exact ⟨_, Config.step_ldaImm rfl, hmain (by decide)⟩
  · exact ⟨_, step_call .lcdInstruction rfl, hcall _ (by decide)⟩
  · exact ⟨_, Config.step_ldaImm rfl, hmain (by decide)⟩
  · exact ⟨_, step_call .lcdInstruction rfl, hcall _ (by decide)⟩
  · exact ⟨_, Config.step_ldaImm rfl, hmain (by decide)⟩
  · exact ⟨_, step_call .lcdInstruction rfl, hcall _ (by decide)⟩
  · exact ⟨_, Config.step_ldaImm rfl, hmain (by decide)⟩
  -- the print loop
  · exact ⟨_, step_ldaMessage, hmain (by decide)⟩
  · refine ⟨_, step_atEnd, hmain ?_⟩
    cases f.z <;> decide
  · exact ⟨_, step_call .printChar rfl, hcall _ (by decide)⟩
  · exact ⟨_, Config.step_inx rfl, hmain (by decide)⟩
  · exact ⟨_, Config.step_jmpAbs rfl rfl, hmain (by decide)⟩
  · exact ⟨_, step_loop, hmain (by decide)⟩

/-- **From cut to cut.** -/
theorem cut_leads {c : Config Board} (hc : Cut k c) :
    ∃ n c', Leads (go msg lcd) (fun c => Calm k c.stack c.bus) (n + 1) c c' ∧ Cut k c' := by
  cases hc with
  | boot hv h =>
    exact ⟨3, _, boot_leads msg lcd h hv, .main (by decide) (idle_setUp hv) (h.setUp hv)⟩
  | main hi hv h =>
    obtain ⟨c', hc', hcut⟩ := main_step hi hv h
    exact ⟨0, c', .single h hc', hcut⟩
  | @entry a x y f i b r hi hv h =>
    have h₁ : Calm k [.call i] b := h.stack (show 2 ∈ [0, 2, 4, 5] by decide)
    have h₂ : Calm k [.call r.line, .call i] b := h.stack (show 4 ∈ [0, 2, 4, 5] by decide)
    have h₃ : Calm k [.saved a, .call r.line, .call i] (b.store .ddrb 0) :=
      (h₂.wait hv).stack (show 5 ∈ [0, 2, 4, 5] by decide)
    exact ⟨3, _, .cons h₁ (step_entry r) ((wait_leads msg lcd h₂ rfl).mono fun _ hc => hc.1),
      .busy r hi hv.polling h₃⟩
  | @busy a x y f i s b r hi hv h =>
    cases hready : (lcd b.polls).msb with
    | true =>
      obtain ⟨a', f', hleads⟩ := round_leads msg lcd (a := a) (x := x)
        (y := y) (f := f) hv h
      rw [if_pos hready] at hleads
      exact ⟨6, _, hleads.mono fun _ hc => hc.1, .busy r hi hv.round (h.round lcd hv)⟩
    | false =>
      obtain ⟨f', hleads, hcalm⟩ := ready_leads msg lcd (a := a) (x := x)
        (y := y) (f := f) r hv h hready
      refine ⟨20, _, hleads.mono fun _ hc => hc.1, .main (succ_mem_mainLines hi) ?_ hcalm⟩
      exact idle_send hv.round.settled

/-- **Every run stays calm**, and never gets stuck. -/
theorem calm_run (msg : Message) (lcd : ℕ → Byte) (m : Machine Board) (n : ℕ) :
    ∃ c, after (go msg lcd) n (boot msg lcd m) = some c ∧ Calm 0 c.stack c.bus :=
  cutpoints (fun _ => cut_leads) (.boot (powerOn_via msg lcd m) (calm_boot msg lcd m)) n

/-! ## What the LCD sees -/

theorem Calm.protocol {st : List Frame} {b : Board} (h : Calm 0 st b) :
    b.via.NoContention ∧ (∀ e ∈ b.log, e.Proper) ∧ ReadyBetween b.log := by
  have hp := h.polite
  rw [List.drop_zero] at hp
  exact ⟨h.contention, hp.proper, hp.readyBetween⟩

/-- **The bus protocol is respected** in every state of every run from power-on. -/
theorem bus_safety (msg : Message) (lcd : ℕ → Byte) (m : Machine Board) (n : ℕ) :
    ∃ m', after (Machine.step (board msg lcd)) n (powerOn msg lcd m) = some m'
      ∧ m'.bus.via.NoContention ∧ (∀ e ∈ m'.bus.log, e.Proper) ∧ ReadyBetween m'.bus.log := by
  rcases n with _ | _ | n
  · exact ⟨_, rfl, (calm_boot msg lcd m).protocol⟩
  · exact ⟨_, after_succ_of (step_powerOn msg lcd m) 0, (calm_boot msg lcd m).protocol⟩
  · obtain ⟨c, hc, hcalm⟩ := calm_run msg lcd m n
    obtain ⟨m', hm', hmodels⟩ := follows.after_lift (models_boot msg lcd m) hc
    rw [start]
    refine ⟨m', hm', ?_⟩
    rw [hmodels.bus]
    exact hcalm.protocol

/-! ## Where the processor goes, and what it writes -/

/-- **What is demanded of the processor** in a state, with the marks of an observer
who pairs calls with returns and bytes pushed with bytes pulled. -/
structure Footprint (msg : Message) (lcd : ℕ → Byte) (s : Machine Board × List Mark) :
    Prop where
  /-- Execution is at an instruction of the listing. -/
  pc : ∃ i lbl ins, (lines msg.data)[i]? = some ⟨lbl, .instr ins⟩
    ∧ s.1.pc = (prog msg.data).addr i
  /-- Only the stack and the VIA have been written. -/
  written : ∀ w ∈ s.1.written, 0x01fb ≤ w ∧ w ≤ 0x01ff ∨ 0x6000 ≤ w ∧ w ≤ 0x6003
  /-- A return goes behind its call. -/
  rts : ∀ m₁, s.1.fetchInstr (board msg lcd) = some (.rts, m₁) →
    ∃ pc rest m', s.2 = .call pc :: rest ∧ s.1.step (board msg lcd) = some m' ∧ m'.pc = pc + 3
  /-- A pull restores its byte. -/
  pla : ∀ m₁, s.1.fetchInstr (board msg lcd) = some (.pla, m₁) →
    ∃ b rest m', s.2 = .saved b :: rest ∧ s.1.step (board msg lcd) = some m' ∧ m'.a = b

/-- The two lines before the stack pointer is set up write nothing and return from
nothing. -/
theorem footprint_of_fetch {m m₁ : Machine Board} {marks : List Mark} {i : ℕ}
    {lbl : Option Label} {ins : Instr (Operand Label) Label} {ins' : Instr Word Byte}
    (hi : (lines msg.data)[i]? = some ⟨lbl, .instr ins⟩)
    (hpc : m.pc = (prog msg.data).addr i) (hw : m.written = [])
    (hf : m.fetchInstr (board msg lcd) = some (ins', m₁)) (hrts : ins' ≠ .rts)
    (hpla : ins' ≠ .pla) : Footprint msg lcd (m, marks) where
  pc := ⟨i, lbl, ins, hi, hpc⟩
  written w hmem := by
    rw [show (m, marks).1.written = [] from hw] at hmem
    exact absurd hmem List.not_mem_nil
  rts m₂ h := absurd (Prod.mk.inj (Option.some_inj.mp (hf.symm.trans h))).1 hrts
  pla m₂ h := absurd (Prod.mk.inj (Option.some_inj.mp (hf.symm.trans h))).1 hpla

/-- Where the discipline allows a write. -/
theorem written_bounds {m : Machine Board} {page : Byte → Byte} {bs : List Byte}
    (h : StackPage discipline 0xff page [] m bs) :
    ∀ w ∈ m.written, 0x01fb ≤ w ∧ w ≤ 0x01ff ∨ 0x6000 ≤ w ∧ w ≤ 0x6003 := by
  intro w hw
  have hslots : ∀ k < 5, 0x01fb ≤ word 1 (0xff - BitVec.ofNat 8 k)
      ∧ word 1 (0xff - BitVec.ofNat 8 k) ≤ 0x01ff := by decide
  rcases h.written w hw with hnil | ⟨k, hk, rfl⟩ | hs
  · exact absurd hnil List.not_mem_nil
  · exact Or.inl (hslots k hk)
  · obtain ⟨r, hr⟩ := Option.isSome_iff_exists.mp hs
    rw [Reg.at_eq_some hr]
    exact Or.inr (by cases r <;> decide)

/-- A processor that follows the listing leaves the right footprint. -/
theorem footprint_of_tracked {s : Machine Board × List Mark} {c c' : Config Board}
    {page : Byte → Byte} (h : Tracked (prog msg.data) discipline 0xff page [] s c)
    (hc : go msg lcd c = some c') : Footprint msg lcd s where
  pc := by
    obtain ⟨lbl, ins, hi, -⟩ := Config.step_cases hc
    exact ⟨c.line, lbl, ins, hi, h.models.pc⟩
  written := written_bounds h.models.stack
  rts _ hrts := h.returns (loaded msg lcd) (assemble_code msg) hc hrts
  pla _ hpla := h.restores (loaded msg lcd) (assemble_code msg) hc hpla

/-- The stack pointer is where the calls put it. -/
theorem sp_of_used {m : Machine Board} {page : Byte → Byte} {st : List Frame}
    (h : StackPage discipline 0xff page [] m (stackBytes (prog msg.data) st))
    (hst : used st ∈ [0, 2, 4, 5]) : m.sp ∈ [0xff, 0xfd, 0xfb, 0xfa] := by
  have hsp : ∀ n ∈ [0, 2, 4, 5],
      0xff - BitVec.ofNat 8 n ∈ ([0xff, 0xfd, 0xfb, 0xfa] : List Byte) := by
    decide
  rw [h.sp, length_stackBytes]
  exact hsp _ hst

/-- **Execution stays on the listing, calls and returns pair up, and nothing else is
written**, in every state of every run from power-on. -/
theorem footprint (msg : Message) (lcd : ℕ → Byte) (m : Machine Board) (n : ℕ) :
    ∃ s, after (trackedStep (board msg lcd)) n (powerOn msg lcd m, []) = some s
      ∧ after (Machine.step (board msg lcd)) n (powerOn msg lcd m) = some s.1
      ∧ Footprint msg lcd s ∧ (2 ≤ n → s.1.sp ∈ [0xff, 0xfd, 0xfb, 0xfa]) := by
  have h₀ : trackedStep (board msg lcd) (powerOn msg lcd m, []) = some (begun msg lcd m, []) := by
    rw [trackedStep, step_powerOn, Option.map_some, track, fetch_powerOn]
  have h₁ : trackedStep (board msg lcd) (begun msg lcd m, []) = some (started msg lcd m, []) := by
    rw [trackedStep, step_begun, Option.map_some, track, fetch_begun]
  have hrun : ∀ n s, after (trackedStep (board msg lcd)) n (powerOn msg lcd m, []) = some s →
      after (Machine.step (board msg lcd)) n (powerOn msg lcd m) = some s.1 :=
    fun _ _ h => after_trackedStep _ h
  rcases n with _ | _ | n
  · refine ⟨_, rfl, rfl, ?_, fun h => absurd h (by decide)⟩
    exact footprint_of_fetch (i := 0) rfl (powerOn_pc msg lcd m) (powerOn_written msg lcd m)
      (fetch_powerOn msg lcd m) (by simp) (by simp)
  · refine ⟨_, after_succ_of h₀ 0, after_succ_of (step_powerOn msg lcd m) 0, ?_,
      fun h => absurd h (by decide)⟩
    exact footprint_of_fetch (i := 1) rfl rfl (powerOn_written msg lcd m)
      (fetch_begun msg lcd m) (by simp) (by simp)
  · obtain ⟨c, hc, hcalm⟩ := calm_run msg lcd m n
    obtain ⟨c', hc', -⟩ := calm_run msg lcd m (n + 1)
    have hstep := step_of_after hc hc'
    have hinit : Tracked (prog msg.data) discipline 0xff (started msg lcd m).page1 []
        (started msg lcd m, []) (boot msg lcd m) :=
      ⟨models_boot msg lcd m, rfl, fun _ hj => absurd hj List.not_mem_nil⟩
    obtain ⟨s, hs, htracked⟩ :=
      (Tracked.simulates (loaded msg lcd) (assemble_code msg)).after_lift hinit hc
    have hs' : after (trackedStep (board msg lcd)) (n + 2) (powerOn msg lcd m, []) = some s := by
      rw [after_succ_of h₀, after_succ_of h₁, hs]
    exact ⟨s, hs', hrun _ _ hs', footprint_of_tracked htracked hstep,
      fun _ => sp_of_used htracked.models.stack hcalm.room⟩

end Eater
