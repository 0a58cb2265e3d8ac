import Mathlib.Logic.Function.Iterate
import Eater6502.CallStack
import Eater6502.Prog
import Eater6502.Protocol

/-!
# The LCD driver of `prog.s`, line by line

The subroutines `lcd_wait`, `lcd_instruction` and `print_char`, executed on the
listing with its call stack (`Asm.Config`). Each straight piece of code is a
path whose end is given in full, so that the same pieces serve twice: chained
with the answers of the LCD known they give what a call does, and between the
cut points of the busy loop they give what holds in every state of every run.

What holds in every state is `Calm`: the stack is as deep as the listing can
make it, nobody fights for the data lines, and the accesses to the VIA since
the `k`-th one respect the LCD (`Polite`).
-/

namespace Eater

open Isa Cpu Asm Run

/-- Which register is at an address, the other way round. -/
theorem Reg.at_eq_some {w : Word} {r : Reg} (h : Reg.at w = some r) : w = r.addr := by
  unfold Reg.at at h
  split at h
  · next hw => rw [hw, ← Option.some_inj.mp h]; rfl
  · split at h
    · next hw => rw [hw, ← Option.some_inj.mp h]; rfl
    · split at h
      · next hw => rw [hw, ← Option.some_inj.mp h]; rfl
      · split at h
        · next hw => rw [hw, ← Option.some_inj.mp h]; rfl
        · exact absurd h (by simp)

/-- **What the listing may do to memory**: five bytes of stack – the call of a
subroutine, its call of `lcd_wait`, and the accumulator – and the registers of
the VIA. -/
def discipline : Discipline where
  depth := 5
  depth_le := by decide
  stores w := (Reg.at w).isSome
  stores_hi w hw := by
    obtain ⟨r, hr⟩ := Option.isSome_iff_exists.mp hw
    rw [Reg.at_eq_some hr]
    cases r <;> decide

/-- A step of the listing on the board. -/
abbrev go (msg : Message) (lcd : ℕ → Byte) : Config Board → Option (Config Board) :=
  Config.step (prog msg.data) (board msg lcd) discipline

section Following

variable {msg : Message} {lcd : ℕ → Byte} {base : Byte} {page : Byte → Byte}
variable {noted : List Word}

/-- The processor follows the listing, since the ROM holds it. -/
theorem follows : Simulates (Machine.step (board msg lcd)) (go msg lcd)
    (Models (prog msg.data) discipline base page noted) :=
  Models.simulates (loaded msg lcd) (assemble_code msg)

/-- A processor at a line with nothing on the stack, as far as it is concerned. -/
theorem models_of_pc {m : Machine Board} {i : ℕ} (hpc : m.pc = (prog msg.data).addr i) :
    Models (prog msg.data) discipline m.sp m.page1 m.written m
      ⟨m.a, m.x, m.y, m.p, i, [], m.bus⟩ :=
  ⟨rfl, rfl, rfl, rfl, hpc, rfl, StackPage.empty discipline m⟩

end Following

/-! ## The control lines of the LCD -/

/-- **The control lines**, as the LCD sees them. -/
structure Via.Control (v : Via) (rs rw e : Bool) : Prop where
  rs : v.rs = rs
  rw : v.rw = rw
  e : v.e = e

namespace Via

variable {v : Via}

/-- With its upper pins driven, what is on port A is what the LCD sees. -/
theorem control_of {p : Byte} {rs rw e : Bool} (hd : v.ddra = 0xe0) (hp : v.porta = p)
    (hrs : (p &&& RS != 0) = rs) (hrw : (p &&& RW != 0) = rw) (he : (p &&& E != 0) = e) :
    v.Control rs rw e := by
  refine ⟨?_, ?_, ?_⟩
  · rw [Via.rs, pinsA, hd, hp, BitVec.and_assoc]
    exact hrs
  · rw [Via.rw, pinsA, hd, hp, BitVec.and_assoc]
    exact hrw
  · rw [Via.e, pinsA, hd, hp, BitVec.and_assoc]
    exact he

/-- A read that has not begun, or has ended. -/
theorem control_rw (hd : v.ddra = 0xe0) (hp : v.porta = RW) : v.Control false true false :=
  control_of hd hp rfl rfl rfl

/-- A read of the busy flag. -/
theorem control_rw_e (hd : v.ddra = 0xe0) (hp : v.porta = RW ||| E) :
    v.Control false true true :=
  control_of hd hp rfl rfl rfl

/-- The VIA between transfers: port A is set up for the LCD and `E` is low. -/
structure Idle (v : Via) : Prop where
  ddra : v.ddra = 0xe0
  low : v.porta &&& E = 0

theorem Idle.e (h : v.Idle) : v.e = false := by
  rw [Via.e, pinsA, h.ddra, BitVec.and_assoc, bne_eq_false_iff_eq]
  exact h.low

theorem Idle.noContention (h : v.Idle) : v.NoContention := fun _ he =>
  absurd (h.e.symm.trans he) Bool.false_ne_true

end Via

/-! ## Accesses that respect the LCD -/

namespace Access

variable {r : Reg} {v v' : Via} {rs rw : Bool}

/-- With `E` low before and after, anything may change. -/
theorem proper_low (h : v.e = false) (h' : v'.e = false) : (store r v v').Proper := by
  refine ⟨fun he => ?_, fun _ => ⟨h, h'⟩, fun hs => ?_, fun _ he => ?_⟩
  · exact absurd (h.symm.trans he) Bool.false_ne_true
  · simp [strobe?, h] at hs
  · exact absurd (h'.symm.trans he) Bool.false_ne_true

/-- With `E` low before, nothing is strobed. -/
theorem strobe?_of_low (h : v.e = false) : (store r v v').strobe? = none := by
  simp [strobe?, h]

/-- With `RW` high before, nothing is strobed. -/
theorem strobe?_of_rw (h : v.rw = true) : (store r v v').strobe? = none := by
  simp [strobe?, h]

/-- When `E` rises, `RS` and `RW` must stand. -/
theorem proper_rise (h : v.Control rs rw false) (h' : v'.Control rs rw true)
    (hd : v'.NoContention) : (store r v v').Proper := by
  refine ⟨fun he => ?_, fun hne => ?_, fun hs => ?_, hd⟩
  · exact absurd (h.e.symm.trans he) Bool.false_ne_true
  · rcases hne with hne | hne
    · exact absurd (h'.rs.trans h.rs.symm) hne
    · exact absurd (h'.rw.trans h.rw.symm) hne
  · simp [strobe?, h.e] at hs

/-- When `E` falls, everything else must stand. -/
theorem proper_fall (h : v.Control rs rw true) (h' : v'.Control rs rw false)
    (hb : v'.portb = v.portb) (hd : v'.ddrb = v.ddrb) (hs : rw = true ∨ v.ddrb = 0xff) :
    (store r v v').Proper := by
  refine ⟨fun _ => ⟨hb, hd, h'.rs.trans h.rs.symm, h'.rw.trans h.rw.symm⟩, fun hne => ?_,
    fun hst => ?_, fun _ he => ?_⟩
  · rcases hne with hne | hne
    · exact absurd (h'.rs.trans h.rs.symm) hne
    · exact absurd (h'.rw.trans h.rw.symm) hne
  · rcases hs with hs | hs
    · rw [strobe?_of_rw (h.rw.trans hs)] at hst
      exact absurd hst (by simp)
    · exact hs
  · exact absurd (h'.e.symm.trans he) Bool.false_ne_true

end Access

/-! ## What holds throughout -/

/-- Whether the LCD has been found ready since the last strobe, counting from
the `k`-th access. -/
def Board.heard (k : ℕ) (b : Board) : Bool := readyAfter false (b.log.drop k)

/-- **The state of the bus and the stack throughout**, for a program that took
over after `k` accesses. -/
structure Calm (k : ℕ) (st : List Frame) (b : Board) : Prop where
  le : k ≤ b.log.length
  contention : b.via.NoContention
  polite : Polite false (b.log.drop k)
  room : used st ∈ [0, 2, 4, 5]

/-- At the start of an account nothing has been said. -/
theorem Calm.init {b : Board} (hv : b.via.NoContention) : Calm b.log.length [] b where
  le := Nat.le_refl _
  contention := hv
  polite := by
    rw [List.drop_length]
    trivial
  room := show 0 ∈ [0, 2, 4, 5] by decide

section Calm

variable {k : ℕ} {st st' : List Frame} {b : Board} {r : Reg} {v : Byte}

theorem Calm.stack (h : Calm k st b) (hst : used st' ∈ [0, 2, 4, 5]) : Calm k st' b :=
  ⟨h.le, h.contention, h.polite, hst⟩

/-- A store that respects the LCD. -/
theorem Calm.store (h : Calm k st b) (hp : (Access.store r b.via (b.via.set r v)).Proper)
    (hr : (Access.store r b.via (b.via.set r v)).strobe?.isSome → b.heard k = true) :
    Calm k st (b.store r v) where
  le := by
    rw [Board.store, List.length_append]
    exact Nat.le_add_right_of_le h.le
  contention := hp.2.2.2
  polite := by
    rw [Board.store, List.drop_append_of_le_length h.le]
    exact h.polite.concat hp hr
  room := h.room

/-- A store that strobes nothing. -/
theorem Calm.store_quiet (h : Calm k st b)
    (hp : (Access.store r b.via (b.via.set r v)).Proper)
    (hs : (Access.store r b.via (b.via.set r v)).strobe? = none) : Calm k st (b.store r v) :=
  h.store hp fun hsome => by
    rw [hs] at hsome
    exact absurd hsome (by simp)

/-- A read of port B. -/
theorem Calm.poll (h : Calm k st b) (lcd : ℕ → Byte) : Calm k st (b.poll lcd) where
  le := by
    rw [Board.poll, List.length_append]
    exact Nat.le_add_right_of_le h.le
  contention := h.contention
  polite := by
    rw [Board.poll, List.drop_append_of_le_length h.le]
    exact h.polite.concat trivial fun hsome => absurd hsome (by simp [Access.strobe?])
  room := h.room

theorem Board.heard_store (hk : k ≤ b.log.length)
    (hs : (Access.store r b.via (b.via.set r v)).strobe? = none) :
    (b.store r v).heard k = b.heard k := by
  rw [heard, Board.store, List.drop_append_of_le_length hk, readyAfter_append]
  simp [readyAfter, Access.ready, hs, Access.isReady, heard]

theorem Board.heard_poll (hk : k ≤ b.log.length) (lcd : ℕ → Byte)
    (hr : (Access.read b.via (b.portB lcd)).isReady = true) :
    (b.poll lcd).heard k = true := by
  rw [heard, Board.poll, List.drop_append_of_le_length hk, readyAfter_append]
  simp [readyAfter, Access.ready, Access.strobe?, hr]

end Calm

/-- The lines of the subroutines, but for the entry of `print_char`. -/
def inside (i : ℕ) : Bool := 22 ≤ i && i != 47

/-- What holds in a subroutine. -/
def Inside (k : ℕ) (c : Config Board) : Prop :=
  Calm k c.stack c.bus ∧ inside c.line = true

/-! ## The steps of this listing -/

section Lines

variable {msg : Message} {lcd : ℕ → Byte} {lbl : Option Label} {a x y : Byte} {f : Flags}
variable {i : ℕ} {st : List Frame} {b : Board}

/-- A store to a register of the VIA. -/
theorem step_sta (r : Reg)
    (h : (lines msg.data)[i]? = some ⟨lbl, .instr (.staAbs (.addr r.addr))⟩) :
    go msg lcd ⟨a, x, y, f, i, st, b⟩ = some ⟨a, x, y, f, i + 1, st, b.store r a⟩ := by
  have hd : discipline.stores r.addr = true := by
    show (Reg.at r.addr).isSome = true
    rw [Reg.at_addr]
    rfl
  have hw : (board msg lcd).write b r.addr a = b.store r a := Board.write_addr b r a
  rw [← hw]
  exact Config.step_staAbs (p := prog msg.data) h hd

/-- A load from port B. -/
theorem step_ldaPortb
    (h : (lines msg.data)[i]? = some ⟨lbl, .instr (.ldaAbs (.addr PORTB))⟩) :
    go msg lcd ⟨a, x, y, f, i, st, b⟩
      = some ⟨b.portB lcd, x, y, f.result (b.portB lcd), i + 1, st, b.poll lcd⟩ :=
  Config.step_ldaAbs (p := prog msg.data) h (by decide) (Board.read_portb b)

/-- The load of a byte of the message. -/
theorem step_ldaMessage :
    go msg lcd ⟨a, x, y, f, 15, st, b⟩
      = some ⟨window msg x, x, y, f.result (window msg x), 16, st, b⟩ :=
  Config.step_ldaAbsX (p := prog msg.data) rfl (symbol_message msg.data)
    (hi_message_addr msg x) (read_message msg lcd b x)

/-- The print loop is left at a zero. -/
theorem step_atEnd :
    go msg lcd ⟨a, x, y, f, 16, st, b⟩
      = some ⟨a, x, y, f, if f.z then 20 else 17, st, b⟩ :=
  Config.step_beq (p := prog msg.data) rfl rfl

/-- The program rests at `loop`. -/
theorem step_loop :
    go msg lcd ⟨a, x, y, f, 20, st, b⟩ = some ⟨a, x, y, f, 20, st, b⟩ :=
  Config.step_jmpAbs (p := prog msg.data) rfl rfl

end Lines

/-! ## `lcd_wait` -/

/-- The VIA at the head of the busy loop: port B is an input, and port A is
either as it was before the call or as the last round left it. -/
structure Via.Polling (v : Via) : Prop where
  ddra : v.ddra = 0xe0
  ddrb : v.ddrb = 0
  porta : v.porta &&& E = 0 ∨ v.porta = RW ||| E

/-- What a round of the busy loop does to the board. -/
def Board.round (lcd : ℕ → Byte) (b : Board) : Board :=
  ((b.store .porta RW).store .porta (RW ||| E)).poll lcd

/-- The busy flag is the top bit. -/
theorem and_busy (v : Byte) : (v &&& 0b10000000 == 0) = !v.msb := by
  revert v
  decide

section Wait

variable {msg : Message} {lcd : ℕ → Byte} {k : ℕ} {a x y : Byte} {f : Flags}
variable {st : List Frame} {b : Board}

variable (msg lcd) in
/-- The accumulator put aside, port B made an input. -/
theorem wait_leads (h : Calm k st b) (hst : used st = 4) :
    Leads (go msg lcd) (Inside k) 3 ⟨a, x, y, f, 22, st, b⟩
      ⟨0, x, y, f.result 0, 25, .saved a :: st, b.store .ddrb 0⟩ := by
  have hused : used (.saved a :: st) = 5 := by
    rw [used, List.map_cons, List.sum_cons]
    exact congrArg (1 + ·) hst
  have h' : Calm k (.saved a :: st) b := h.stack (by rw [hused]; decide)
  refine .cons ⟨h, rfl⟩ (Config.step_pha rfl (Nat.le_of_eq hused)) ?_
  refine .cons ⟨h', rfl⟩ (Config.step_ldaImm rfl) ?_
  exact .single ⟨h', rfl⟩ (step_sta .ddrb rfl)

/-- Making port B an input leaves the VIA ready to poll. -/
theorem Via.Idle.polling {v : Via} (h : v.Idle) : (v.set .ddrb 0).Polling :=
  ⟨h.ddra, rfl, Or.inl h.low⟩

theorem Calm.wait (h : Calm k st b) (hv : b.via.Idle) : Calm k st (b.store .ddrb 0) :=
  h.store_quiet (Access.proper_low hv.e (Via.Idle.e ⟨hv.ddra, hv.low⟩))
    (Access.strobe?_of_low hv.e)

/-- The first store of a round: `RW` goes high, or `E` goes low again. -/
theorem Calm.round_select (h : Calm k st b) (hv : b.via.Polling) :
    Calm k st (b.store .porta RW) := by
  have hselect : (b.via.set .porta RW).Control false true false := Via.control_rw hv.ddra rfl
  rcases hv.porta with hp | hp
  · have he : b.via.e = false := Via.Idle.e ⟨hv.ddra, hp⟩
    exact h.store_quiet (Access.proper_low he hselect.e) (Access.strobe?_of_low he)
  · have hread := Via.control_rw_e hv.ddra hp
    exact h.store_quiet (Access.proper_fall hread hselect rfl rfl (Or.inl rfl))
      (Access.strobe?_of_rw hread.rw)

/-- The second store of a round: `E` goes high. -/
theorem Calm.round_enable (h : Calm k st b) (hp : b.via.porta = RW)
    (hv : b.via.ddra = 0xe0 ∧ b.via.ddrb = 0) : Calm k st (b.store .porta (RW ||| E)) := by
  have hselect := Via.control_rw hv.1 hp
  have hread : (b.via.set .porta (RW ||| E)).Control false true true := Via.control_rw_e hv.1 rfl
  exact h.store_quiet (Access.proper_rise hselect hread fun _ _ => hv.2)
    (Access.strobe?_of_low hselect.e)

/-- While port B is an input, the LCD's answer is what is read there. -/
theorem Via.Polling.portB_enabled {lcd : ℕ → Byte} (hv : b.via.Polling) :
    ((b.store .porta RW).store .porta (RW ||| E)).portB lcd = lcd b.polls := by
  show b.via.portb &&& b.via.ddrb ||| lcd b.polls &&& ~~~b.via.ddrb = lcd b.polls
  rw [hv.ddrb]
  show b.via.portb &&& 0#8 ||| lcd b.polls &&& BitVec.allOnes 8 = lcd b.polls
  rw [BitVec.and_zero, BitVec.zero_or, BitVec.and_allOnes]

variable (msg lcd) in
/-- **A round of the busy loop** goes back to its head if the LCD is busy, and on
if it is not. -/
theorem round_leads (hv : b.via.Polling) (h : Calm k st b) :
    ∃ a' f', Leads (go msg lcd) (Inside k) 7 ⟨a, x, y, f, 25, st, b⟩
      ⟨a', x, y, f', if (lcd b.polls).msb then 25 else 32, st, b.round lcd⟩ := by
  have h₁ := h.round_select hv
  have h₂ := h₁.round_enable rfl ⟨hv.ddra, hv.ddrb⟩
  have hbne : go msg lcd ⟨lcd b.polls &&& 0b10000000, x, y, (((f.result RW).result
      (RW ||| E)).result (lcd b.polls)).result (lcd b.polls &&& 0b10000000), 31, st,
      b.round lcd⟩ = _ := Config.step_bne (j := 25) rfl rfl
  rw [Flags.result_z, and_busy] at hbne
  refine ⟨lcd b.polls &&& 0b10000000, (((f.result RW).result (RW ||| E)).result
    (lcd b.polls)).result (lcd b.polls &&& 0b10000000), ?_⟩
  refine .cons ⟨h, rfl⟩ (Config.step_ldaImm rfl) ?_
  refine .cons ⟨h, rfl⟩ (step_sta .porta rfl) ?_
  refine .cons ⟨h₁, rfl⟩ (Config.step_ldaImm rfl) ?_
  refine .cons ⟨h₁, rfl⟩ (step_sta .porta rfl) ?_
  refine .cons ⟨h₂, rfl⟩ (step_ldaPortb rfl) ?_
  rw [hv.portB_enabled]
  refine .cons ⟨h₂.poll lcd, rfl⟩ (Config.step_andImm rfl) ?_
  refine .single ⟨h₂.poll lcd, rfl⟩ (hbne.trans ?_)
  cases (lcd b.polls).msb <;> rfl

theorem Via.Polling.round (hv : b.via.Polling) : (b.round lcd).via.Polling :=
  ⟨hv.ddra, hv.ddrb, Or.inr rfl⟩

variable (lcd) in
theorem Calm.round (h : Calm k st b) (hv : b.via.Polling) : Calm k st (b.round lcd) :=
  ((h.round_select hv).round_enable rfl ⟨hv.ddra, hv.ddrb⟩).poll lcd

variable (lcd) in
/-- The read of a round is a read of the busy flag. -/
theorem Via.Polling.isPoll (hv : b.via.Polling) (v : Byte) :
    (Access.read (b.round lcd).via v).isPoll = true := by
  have hread : (b.round lcd).via.Control false true true := Via.control_rw_e hv.ddra rfl
  have hd : (b.round lcd).via.ddrb = 0 := hv.ddrb
  rw [Access.isPoll, hread.rs, hread.rw, hread.e, hd]
  rfl

/-- The LCD is heard to be ready in the round in which it is. -/
theorem Calm.heard_round (h : Calm k st b) (hv : b.via.Polling)
    (hready : (lcd b.polls).msb = false) : (b.round lcd).heard k = true := by
  refine Board.heard_poll ((h.round_select hv).round_enable rfl ⟨hv.ddra, hv.ddrb⟩).le lcd ?_
  rw [hv.portB_enabled, Access.isReady, hready]
  exact Bool.and_eq_true_iff.mpr ⟨hv.isPoll lcd _, rfl⟩

variable (msg lcd) in
/-- **While the LCD is busy**, round follows round. -/
theorem rounds_leads (hv : b.via.Polling) (h : Calm k st b) {n : ℕ}
    (hbusy : ∀ i < n, (lcd (b.polls + i)).msb = true) :
    ∃ a' f', Leads (go msg lcd) (Inside k) (7 * n) ⟨a, x, y, f, 25, st, b⟩
      ⟨a', x, y, f', 25, st, (Board.round lcd)^[n] b⟩ := by
  induction n generalizing a f b with
  | zero => exact ⟨a, f, .refl _⟩
  | succ n ih =>
    obtain ⟨a₁, f₁, h₁⟩ := round_leads msg lcd (a := a) (x := x) (y := y) (f := f)
      hv h
    rw [if_pos (show (lcd b.polls).msb = true from hbusy 0 n.succ_pos)] at h₁
    obtain ⟨a', f', h'⟩ := ih hv.round (h.round lcd hv) (a := a₁) (f := f₁) fun i hi => by
      rw [show (b.round lcd).polls + i = b.polls + (i + 1) from Nat.add_right_comm b.polls 1 i]
      exact hbusy (i + 1) (Nat.succ_lt_succ hi)
    rw [Nat.mul_succ, Nat.add_comm, Function.iterate_succ_apply]
    exact ⟨a', f', h₁.trans h'⟩

/-- What the end of `lcd_wait` does to the board. -/
def Board.settle (b : Board) : Board := (b.store .porta RW).store .ddrb 0xff

/-- `E` goes low again, and port B is an output. -/
theorem Calm.settle (h : Calm k st b) (hv : b.via.Polling) : Calm k st b.settle := by
  have hselect : (b.store .porta RW).via.Control false true false := Via.control_rw hv.ddra rfl
  have hselect' : ((b.store .porta RW).via.set .ddrb 0xff).Control false true false :=
    Via.control_rw hv.ddra rfl
  exact (h.round_select hv).store_quiet (Access.proper_low hselect.e hselect'.e)
    (Access.strobe?_of_low hselect.e)

variable (msg lcd) in
/-- **The end of `lcd_wait`**: the accumulator comes back, and with it the caller. -/
theorem settle_leads {s : Byte} {j : ℕ} (hv : b.via.Polling)
    (h : Calm k (.saved s :: .call j :: st) b) (hst : used st = 2) :
    Leads (go msg lcd) (Inside k) 6 ⟨a, x, y, f, 32, .saved s :: .call j :: st, b⟩
      ⟨s, x, y, (((f.result RW).result 0xff).result s), j + 1, st, b.settle⟩ := by
  have h₁ := h.round_select hv
  have h₂ := h.settle hv
  have h₃ : Calm k (.call j :: st) b.settle := h₂.stack (by
    rw [used, List.map_cons, List.sum_cons]
    exact (congrArg (fun n => 2 + n ∈ [0, 2, 4, 5]) hst).mpr (by decide))
  refine .cons ⟨h, rfl⟩ (Config.step_ldaImm rfl) ?_
  refine .cons ⟨h, rfl⟩ (step_sta .porta rfl) ?_
  refine .cons ⟨h₁, rfl⟩ (Config.step_ldaImm rfl) ?_
  refine .cons ⟨h₁, rfl⟩ (step_sta .ddrb rfl) ?_
  refine .cons ⟨h₂, rfl⟩ (Config.step_pla rfl) ?_
  exact .single ⟨h₃, rfl⟩ (Config.step_rts rfl)

/-- What is heard in the busy loop is not forgotten at its end. -/
theorem heard_settle (hk : k ≤ b.log.length) (hp : b.via.porta = RW ||| E)
    (hd : b.via.ddra = 0xe0) : b.settle.heard k = b.heard k := by
  have hk' : k ≤ (b.store .porta RW).log.length := by
    rw [Board.store, List.length_append]
    exact Nat.le_add_right_of_le hk
  rw [Board.settle, Board.heard_store hk', Board.heard_store hk]
  · exact Access.strobe?_of_rw (Via.control_rw_e hd hp).rw
  · have hselect : (b.store .porta RW).via.Control false true false := Via.control_rw hd rfl
    exact Access.strobe?_of_low hselect.e

end Wait

/-! ## `lcd_instruction` and `print_char` -/

/-- The subroutines that send a byte to the LCD. -/
inductive Routine where
  | lcdInstruction
  | printChar
  deriving Repr, DecidableEq

namespace Routine

/-- The label it is called by. -/
def label : Routine → Label
  | lcdInstruction => .lcdInstruction
  | printChar => .printChar

/-- The line of its label. -/
def line : Routine → ℕ
  | lcdInstruction => 38
  | printChar => 47

/-- What it puts on port A for `RS`. -/
def rs : Routine → Byte
  | lcdInstruction => 0
  | printChar => RS

/-- The level of `RS` at its strobe. -/
def isData : Routine → Bool
  | lcdInstruction => false
  | printChar => true

theorem index_label (r : Routine) (data : List Byte) :
    (prog data).index r.label = some r.line := by
  cases r <;> rfl

/-- What it does behind its call of `lcd_wait`. -/
def body (r : Routine) : List (Instr (Operand Label) Label) := [
  .staAbs (.addr PORTB),
  .ldaImm r.rs,
  .staAbs (.addr PORTA),
  .ldaImm (r.rs ||| E),
  .staAbs (.addr PORTA),
  .ldaImm r.rs,
  .staAbs (.addr PORTA),
  .rts]

theorem entry_line (r : Routine) (data : List Byte) :
    (lines data)[r.line]? = some ⟨some r.label, .instr (.jsr (.label .lcdWait))⟩ := by
  cases r <;> rfl

/-- **The two routines differ in the level of `RS`**, and in nothing else. -/
theorem body_line (r : Routine) (data : List Byte) {n : ℕ}
    {i : Instr (Operand Label) Label} (h : r.body[n]? = some i) :
    (lines data)[r.line + 1 + n]? = some (ins i) := by
  have hbody : ((lines data).drop (r.line + 1)).take 8 = r.body.map ins := by
    cases r <;> rfl
  have hn : n < 8 := (List.getElem?_eq_some_iff.mp h).1
  rw [← List.getElem?_drop, ← List.getElem?_take_of_lt hn, hbody, List.getElem?_map, h]
  rfl

theorem rs_low (r : Routine) : r.rs &&& E = 0 := by
  cases r <;> decide

/-- The control lines before and after its strobe. -/
theorem control_rs (r : Routine) {v : Via} (hd : v.ddra = 0xe0) (hp : v.porta = r.rs) :
    v.Control r.isData false false := by
  cases r <;> exact Via.control_of hd hp rfl rfl rfl

/-- The control lines while it has `E` high. -/
theorem control_rs_e (r : Routine) {v : Via} (hd : v.ddra = 0xe0) (hp : v.porta = r.rs ||| E) :
    v.Control r.isData false true := by
  cases r <;> exact Via.control_of hd hp rfl rfl rfl

theorem inside_line (r : Routine) {n : ℕ} (hn : n < 8) : inside (r.line + 1 + n) = true := by
  cases r <;> revert n <;> decide

end Routine

/-- What the end of a routine does to the board. -/
def Board.send (r : Routine) (v : Byte) (b : Board) : Board :=
  (((b.store .portb v).store .porta r.rs).store .porta (r.rs ||| E)).store .porta r.rs

/-- The VIA behind `lcd_wait`. -/
structure Via.Settled (v : Via) : Prop where
  ddra : v.ddra = 0xe0
  ddrb : v.ddrb = 0xff
  porta : v.porta = RW

section Send

variable {msg : Message} {lcd : ℕ → Byte} {k : ℕ} {a x y : Byte} {f : Flags}
variable {st : List Frame} {b : Board} {r : Routine} {i : ℕ}

theorem Via.Settled.idle {v : Via} (hv : v.Settled) : v.Idle :=
  ⟨hv.ddra, by rw [hv.porta]; rfl⟩

theorem Via.Polling.settled (hv : b.via.Polling) : b.settle.via.Settled :=
  ⟨hv.ddra, rfl, rfl⟩

/-- Behind a routine the VIA is idle. -/
theorem idle_send (hv : b.via.Settled) {v : Byte} : (b.send r v).via.Idle :=
  ⟨hv.ddra, r.rs_low⟩

theorem Calm.send_data (h : Calm k st b) (hv : b.via.Settled) (v : Byte) :
    Calm k st (b.store .portb v) :=
  h.store_quiet (Access.proper_low hv.idle.e (Via.control_rw hv.ddra hv.porta).e)
    (Access.strobe?_of_low hv.idle.e)

/-- `RS` is set up and `RW` goes low. -/
theorem Calm.send_select (h : Calm k st b) (hv : b.via.Settled) (r : Routine) :
    Calm k st (b.store .porta r.rs) := by
  have hselect : (b.via.set .porta r.rs).Control r.isData false false := r.control_rs hv.ddra rfl
  exact h.store_quiet (Access.proper_low hv.idle.e hselect.e) (Access.strobe?_of_low hv.idle.e)

/-- `E` goes high. -/
theorem Calm.send_enable (h : Calm k st b) (hd : b.via.ddra = 0xe0)
    (hp : b.via.porta = r.rs) : Calm k st (b.store .porta (r.rs ||| E)) := by
  have hselect := r.control_rs hd hp
  have henable : (b.via.set .porta (r.rs ||| E)).Control r.isData false true :=
    r.control_rs_e hd rfl
  exact h.store_quiet
    (Access.proper_rise hselect henable fun hrw _ =>
      absurd (henable.rw.symm.trans hrw) Bool.false_ne_true)
    (Access.strobe?_of_low hselect.e)

/-- **The strobe**: `E` falls with `RW` low. -/
theorem strobe?_send (hd : b.via.ddra = 0xe0) (hb : b.via.ddrb = 0xff)
    (hp : b.via.porta = r.rs ||| E) :
    (Access.store .porta b.via (b.via.set .porta r.rs)).strobe?
      = some ⟨r.isData, b.via.portb⟩ := by
  have henable := r.control_rs_e hd hp
  have hselect : (b.via.set .porta r.rs).Control r.isData false false := r.control_rs hd rfl
  have hdata : b.via.portb &&& b.via.ddrb = b.via.portb := by
    rw [hb]
    exact BitVec.and_allOnes
  rw [Access.strobe?, henable.e, hselect.e, henable.rw, henable.rs, hdata]
  rfl

/-- `E` goes low again, if the LCD was ready. -/
theorem Calm.send_strobe (h : Calm k st b) (hd : b.via.ddra = 0xe0)
    (hb : b.via.ddrb = 0xff) (hp : b.via.porta = r.rs ||| E) (hk : b.heard k = true) :
    Calm k st (b.store .porta r.rs) := by
  have hselect : (b.via.set .porta r.rs).Control r.isData false false := r.control_rs hd rfl
  exact h.store
    (Access.proper_fall (r.control_rs_e hd hp) hselect rfl rfl (Or.inr hb)) fun _ => hk

variable (msg lcd) in
/-- **A byte is sent** once the LCD is ready, and the routine returns. -/
theorem send_leads {j : ℕ} (hv : b.via.Settled) (h : Calm k (.call j :: st) b)
    (hk : b.heard k = true) :
    Leads (go msg lcd) (Inside k) 8 ⟨a, x, y, f, r.line + 1, .call j :: st, b⟩
        ⟨r.rs, x, y, ((f.result r.rs).result (r.rs ||| E)).result r.rs, j + 1, st, b.send r a⟩
      ∧ Calm k (.call j :: st) (b.send r a) := by
  have hselect : ((b.store .portb a).store .porta r.rs).via.Control r.isData false false :=
    r.control_rs hv.ddra rfl
  have h₁ := h.send_data hv a
  have h₂ := h₁.send_select (b := b.store .portb a) ⟨hv.ddra, hv.ddrb, hv.porta⟩ r
  have h₃ := h₂.send_enable (r := r) hv.ddra rfl
  have h₄ := h₃.send_strobe (r := r) hv.ddra hv.ddrb rfl (by
    rw [Board.heard_store h₂.le, Board.heard_store h₁.le, Board.heard_store h.le, hk]
    · exact Access.strobe?_of_low hv.idle.e
    · exact Access.strobe?_of_low (Via.control_rw hv.ddra hv.porta).e
    · exact Access.strobe?_of_low hselect.e)
  refine ⟨.cons ⟨h, r.inside_line (n := 0) (by decide)⟩
    (step_sta .portb (r.body_line _ (n := 0) rfl)) ?_, h₄⟩
  refine .cons ⟨h₁, r.inside_line (n := 1) (by decide)⟩
    (Config.step_ldaImm (r.body_line _ (n := 1) rfl)) ?_
  refine .cons ⟨h₁, r.inside_line (n := 2) (by decide)⟩
    (step_sta .porta (r.body_line _ (n := 2) rfl)) ?_
  refine .cons ⟨h₂, r.inside_line (n := 3) (by decide)⟩
    (Config.step_ldaImm (r.body_line _ (n := 3) rfl)) ?_
  refine .cons ⟨h₂, r.inside_line (n := 4) (by decide)⟩
    (step_sta .porta (r.body_line _ (n := 4) rfl)) ?_
  refine .cons ⟨h₃, r.inside_line (n := 5) (by decide)⟩
    (Config.step_ldaImm (r.body_line _ (n := 5) rfl)) ?_
  refine .cons ⟨h₃, r.inside_line (n := 6) (by decide)⟩
    (step_sta .porta (r.body_line _ (n := 6) rfl)) ?_
  exact .single ⟨h₄, r.inside_line (n := 7) (by decide)⟩
    (Config.step_rts (r.body_line _ (n := 7) rfl))

variable (msg lcd) in
/-- **Once the LCD is ready** the last round of the busy loop leads back to the
caller. -/
theorem ready_leads {s : Byte} (r : Routine) (hv : b.via.Polling)
    (h : Calm k [.saved s, .call r.line, .call i] b) (hready : (lcd b.polls).msb = false) :
    ∃ f', Leads (go msg lcd) (Inside k) 21
        ⟨a, x, y, f, 25, [.saved s, .call r.line, .call i], b⟩
        ⟨r.rs, x, y, f', i + 1, [], (b.round lcd).settle.send r s⟩
      ∧ Calm k [] ((b.round lcd).settle.send r s) := by
  obtain ⟨a₁, f₁, h₁⟩ := round_leads msg lcd (a := a) (x := x) (y := y)
    (f := f) hv h
  rw [hready] at h₁
  have hc₁ := h.round lcd hv
  have hheard := h.heard_round hv hready
  rw [← heard_settle hc₁.le rfl hv.ddra] at hheard
  have h₂ := settle_leads msg lcd (a := a₁) (x := x) (y := y) (f := f₁)
    hv.round hc₁ rfl
  have hc₂ : Calm k [.call i] (b.round lcd).settle :=
    (hc₁.settle hv.round).stack (show 2 ∈ [0, 2, 4, 5] by decide)
  obtain ⟨h₃, hc₃⟩ := send_leads msg lcd (a := s) (x := x) (y := y)
    (f := ((f₁.result RW).result 0xff).result s) (r := r) hv.round.settled hc₂ hheard
  exact ⟨_, (h₁.trans h₂).trans h₃, hc₃.stack (show 0 ∈ [0, 2, 4, 5] by decide)⟩

/-- The call of a routine, on the line `i`. -/
theorem step_call (r : Routine) {lbl : Option Label}
    (hsite : (lines msg.data)[i]? = some ⟨lbl, .instr (.jsr (.label r.label))⟩) :
    go msg lcd ⟨a, x, y, f, i, [], b⟩ = some ⟨a, x, y, f, r.line, [.call i], b⟩ :=
  Config.step_jsr (p := prog msg.data) hsite (r.index_label msg.data)
    (show 2 ≤ 5 by decide)

/-- A routine begins with a call of `lcd_wait`. -/
theorem step_entry (r : Routine) :
    go msg lcd ⟨a, x, y, f, r.line, [.call i], b⟩
      = some ⟨a, x, y, f, 22, [.call r.line, .call i], b⟩ :=
  Config.step_jsr (p := prog msg.data) (r.entry_line msg.data) rfl (show 4 ≤ 5 by decide)

end Send

end Eater
