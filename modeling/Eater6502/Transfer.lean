import Mathlib.Data.Nat.Find
import Eater6502.Driver

/-!
# A call of the driver, from start to end

With the LCD's answers known, the pieces of `Driver` fit together: `lcd_wait`
goes round its loop once for every busy answer and once more for the ready one,
and then the byte is sent. `Sends` is what a call does to the board, and
`call_leads` that it does it, gives the processor back where the call was made,
and preserves the index registers.

The log is accounted for by what it contains. A piece of a run `Adds` a number
of reads of the busy flag and a list of strobes to it, and pieces add up.
-/

namespace Eater

open Isa Cpu Asm Run

/-- What a piece of a run adds to the log: `n` reads of the busy flag, and the
strobes `ss`. -/
def Adds (n : ℕ) (ss : List Strobe) (b b' : Board) : Prop :=
  ∃ l, b'.log = b.log ++ l ∧ l.countP Access.isPoll = n ∧ strobes l = ss

namespace Adds

variable {n n' : ℕ} {ss ss' : List Strobe} {b b' b'' : Board} {r : Reg} {v : Byte}

theorem refl (b : Board) : Adds 0 [] b b := ⟨[], (List.append_nil _).symm, rfl, rfl⟩

theorem trans (h : Adds n ss b b') (h' : Adds n' ss' b' b'') :
    Adds (n + n') (ss ++ ss') b b'' := by
  obtain ⟨l, hl, hn, hs⟩ := h
  obtain ⟨l', hl', hn', hs'⟩ := h'
  refine ⟨l ++ l', ?_, ?_, ?_⟩
  · rw [hl', hl, List.append_assoc]
  · rw [List.countP_append, hn, hn']
  · rw [strobes_append, hs, hs']

/-- A store adds its strobe, if it is one. -/
theorem store (b : Board) (r : Reg) (v : Byte) :
    Adds 0 (Access.store r b.via (b.via.set r v)).strobe?.toList b (b.store r v) := by
  refine ⟨[_], rfl, rfl, ?_⟩
  rw [strobes, List.filterMap_cons]
  cases (Access.store r b.via (b.via.set r v)).strobe? <;> rfl

/-- A store that strobes nothing adds nothing. -/
theorem store_quiet (h : (Access.store r b.via (b.via.set r v)).strobe? = none) :
    Adds 0 [] b (b.store r v) := by
  have hs := store b r v
  rw [h] at hs
  exact hs

theorem poll {lcd : ℕ → Byte} (h : (Access.read b.via (b.portB lcd)).isPoll = true) :
    Adds 1 [] b (b.poll lcd) := by
  refine ⟨[_], rfl, ?_, rfl⟩
  rw [List.countP_cons_of_pos h, List.countP_nil]

end Adds

section Wait

variable {lcd : ℕ → Byte} {k n : ℕ} {st : List Frame} {b b' : Board}

/-- A round adds a read of the busy flag. -/
theorem adds_round (hv : b.via.Polling) : Adds 1 [] b (b.round lcd) := by
  have hselect : (b.store .porta RW).via.Control false true false := Via.control_rw hv.ddra rfl
  have h₁ : Adds 0 [] b (b.store .porta RW) := by
    refine Adds.store_quiet ?_
    rcases hv.porta with hp | hp
    · exact Access.strobe?_of_low (Via.Idle.e ⟨hv.ddra, hp⟩)
    · exact Access.strobe?_of_rw (Via.control_rw_e hv.ddra hp).rw
  have h₂ : Adds 0 [] (b.store .porta RW) ((b.store .porta RW).store .porta (RW ||| E)) :=
    Adds.store_quiet (Access.strobe?_of_low hselect.e)
  exact (h₁.trans h₂).trans (Adds.poll (hv.isPoll lcd _))

/-- **`b'` is `b` after some rounds of the busy loop.** -/
structure Waits (lcd : ℕ → Byte) (n : ℕ) (b b' : Board) : Prop where
  polling : b'.via.Polling
  ram : b'.ram = b.ram
  polls : b'.polls = b.polls + n
  adds : Adds n [] b b'

theorem Waits.round (h : Waits lcd n b b') : Waits lcd (n + 1) b (b'.round lcd) where
  polling := h.polling.round
  ram := h.ram
  polls := congrArg (· + 1) h.polls
  adds := h.adds.trans (adds_round h.polling)

variable (lcd) in
theorem waits_rounds (hv : b.via.Polling) (n : ℕ) :
    Waits lcd n b ((Board.round lcd)^[n] b) := by
  induction n with
  | zero => exact ⟨hv, rfl, rfl, .refl b⟩
  | succ n ih =>
    rw [Function.iterate_succ_apply']
    exact ih.round

variable (lcd) in
theorem Calm.rounds (h : Calm k st b) (hv : b.via.Polling) (n : ℕ) :
    Calm k st ((Board.round lcd)^[n] b) := by
  induction n with
  | zero => exact h
  | succ n ih =>
    rw [Function.iterate_succ_apply']
    exact ih.round lcd (waits_rounds lcd hv n).polling

/-- The end of `lcd_wait` strobes nothing. -/
theorem adds_settle (hp : b.via.porta = RW ||| E) (hd : b.via.ddra = 0xe0) :
    Adds 0 [] b b.settle := by
  have hselect : (b.store .porta RW).via.Control false true false := Via.control_rw hd rfl
  have h₁ : Adds 0 [] b (b.store .porta RW) :=
    Adds.store_quiet (Access.strobe?_of_rw (Via.control_rw_e hd hp).rw)
  exact h₁.trans (Adds.store_quiet (Access.strobe?_of_low hselect.e))

end Wait

/-- **The LCD answers busy `n` times**, counting from the `p`-th read of port B,
and then that it is ready. -/
structure Answers (lcd : ℕ → Byte) (p n : ℕ) : Prop where
  busy : ∀ i < n, (lcd (p + i)).msb = true
  ready : (lcd (p + n)).msb = false

/-- **An LCD that is never busy for ever.** -/
def Fair (lcd : ℕ → Byte) : Prop := ∀ p, ∃ n, (lcd (p + n)).msb = false

/-- An LCD that is never busy at all. -/
def idleLcd (_ : ℕ) : Byte := 0

theorem fair_idleLcd : Fair idleLcd := fun _ => ⟨0, BitVec.msb_zero⟩

theorem Fair.answers {lcd : ℕ → Byte} (h : Fair lcd) (p : ℕ) : ∃ n, Answers lcd p n := by
  refine ⟨Nat.find (h p), fun i hi => ?_, Nat.find_spec (h p)⟩
  exact Bool.not_eq_false _ |>.mp (Nat.find_min (h p) hi)

/-- **What a call of the driver does to the board**, when the LCD answers busy
`n` times. -/
structure Sends (r : Routine) (v : Byte) (n : ℕ) (b b' : Board) : Prop where
  via : b'.via = ⟨v, r.rs, 0xff, 0xe0⟩
  ram : b'.ram = b.ram
  polls : b'.polls = b.polls + (n + 1)
  log : ∃ b₁, Adds (n + 1) [] b b₁ ∧ Adds 0 [⟨r.isData, v⟩] b₁ b'

/-- Between calls the VIA is idle again. -/
theorem Sends.idle {r : Routine} {v : Byte} {n : ℕ} {b b' : Board} (h : Sends r v n b b') :
    b'.via.Idle := by
  rw [h.via]
  exact ⟨rfl, r.rs_low⟩

theorem Sends.adds {r : Routine} {v : Byte} {n : ℕ} {b b' : Board} (h : Sends r v n b b') :
    Adds (n + 1) [⟨r.isData, v⟩] b b' := by
  obtain ⟨b₁, h₁, h₂⟩ := h.log
  exact h₁.trans h₂

section Call

variable {msg : Message} {lcd : ℕ → Byte} {k n i : ℕ} {a x y : Byte} {f : Flags}
variable {b : Board}

/-- Sending adds the one strobe. -/
theorem adds_send (hv : b.via.Settled) (r : Routine) (v : Byte) :
    Adds 0 [⟨r.isData, v⟩] b (b.send r v) := by
  have hselect : ((b.store .portb v).store .porta r.rs).via.Control r.isData false false :=
    r.control_rs hv.ddra rfl
  have h₁ : Adds 0 [] b (b.store .portb v) :=
    Adds.store_quiet (Access.strobe?_of_low hv.idle.e)
  have h₂ : Adds 0 [] (b.store .portb v) ((b.store .portb v).store .porta r.rs) :=
    Adds.store_quiet (Access.strobe?_of_low (Via.control_rw hv.ddra hv.porta).e)
  have h₃ : Adds 0 [] ((b.store .portb v).store .porta r.rs)
      (((b.store .portb v).store .porta r.rs).store .porta (r.rs ||| E)) :=
    Adds.store_quiet (Access.strobe?_of_low hselect.e)
  have h₄ := Adds.store
    (((b.store .portb v).store .porta r.rs).store .porta (r.rs ||| E)) .porta r.rs
  rw [strobe?_send (b := ((b.store .portb v).store .porta r.rs).store .porta (r.rs ||| E))
    hv.ddra hv.ddrb rfl] at h₄
  exact ((h₁.trans h₂).trans h₃).trans h₄

variable (msg) in
/-- **The body of a routine**, from its call of `lcd_wait` to the caller. -/
theorem body_leads (r : Routine) (hv : b.via.Idle) (h : Calm k [.call r.line, .call i] b)
    (hans : Answers lcd b.polls n) :
    ∃ f' b', Leads (go msg lcd) (Inside k) (3 + 7 * n + 21)
        ⟨a, x, y, f, 22, [.call r.line, .call i], b⟩ ⟨r.rs, x, y, f', i + 1, [], b'⟩
      ∧ Sends r a n b b' ∧ Calm k [] b' := by
  have hv₁ := hv.polling
  have h₁ : Calm k [.saved a, .call r.line, .call i] (b.store .ddrb 0) :=
    (h.wait hv).stack (show 5 ∈ [0, 2, 4, 5] by decide)
  have hw := waits_rounds lcd (b := b.store .ddrb 0) hv₁ n
  have hc := h₁.rounds lcd hv₁ n
  obtain ⟨a₂, f₂, h₂⟩ := rounds_leads msg lcd (a := 0) (x := x) (y := y)
    (f := f.result 0) hv₁ h₁ hans.busy
  have hready : (lcd ((Board.round lcd)^[n] (b.store .ddrb 0)).polls).msb = false := by
    rw [hw.polls]
    exact hans.ready
  generalize (Board.round lcd)^[n] (b.store .ddrb 0) = b₂ at h₂ hw hc hready
  obtain ⟨f₃, h₃, hc₃⟩ := ready_leads msg lcd (a := a₂) (x := x) (y := y)
    (f := f₂) r hw.polling hc hready
  have hw₃ := hw.round
  refine ⟨f₃, _, ((wait_leads msg lcd h rfl).trans h₂).trans h₃, ?_, hc₃⟩
  refine ⟨?_, hw₃.ram, hw₃.polls, (b₂.round lcd).settle, ?_, adds_send hw₃.polling.settled r a⟩
  · show (⟨a, r.rs, 0xff, b₂.via.ddra⟩ : Via) = ⟨a, r.rs, 0xff, 0xe0⟩
    rw [hw.polling.ddra]
  · have hin : Adds 0 [] b (b.store .ddrb 0) :=
      Adds.store_quiet (Access.strobe?_of_low hv.e)
    have hall := (hin.trans hw₃.adds).trans (adds_settle rfl hw.polling.ddra)
    rw [Nat.zero_add] at hall
    exact hall

variable (msg) in
/-- **A call of the driver sends the accumulator to the LCD and comes back**, with
the index registers as they were. -/
theorem call_leads (r : Routine) {lbl : Option Label}
    (hsite : (lines msg.data)[i]? = some ⟨lbl, .instr (.jsr (.label r.label))⟩)
    (hv : b.via.Idle) (h : Calm k [] b) (hans : Answers lcd b.polls n) :
    ∃ f' b', Leads (go msg lcd) (fun c => Calm k c.stack c.bus)
        (3 + 7 * n + 21 + 1 + 1) ⟨a, x, y, f, i, [], b⟩ ⟨r.rs, x, y, f', i + 1, [], b'⟩
      ∧ Sends r a n b b' ∧ Calm k [] b' := by
  have h₁ : Calm k [.call i] b := h.stack (show 2 ∈ [0, 2, 4, 5] by decide)
  have h₂ : Calm k [.call r.line, .call i] b := h.stack (show 4 ∈ [0, 2, 4, 5] by decide)
  obtain ⟨f', b', hbody, hsends, hcalm⟩ := body_leads msg (a := a) (x := x) (y := y)
    (f := f) r hv h₂ hans
  exact ⟨f', b', .cons h (step_call r hsite) (.cons h₁ (step_entry r)
    (hbody.mono fun _ hc => hc.1)), hsends, hcalm⟩

end Call

end Eater
