import Eater6502.Driver

/-!
# From reset to the first byte sent

The first two lines set up the stack pointer, so that a listing with a call
stack of its own has nothing to say about them: they are executed on the
processor (`start`). From there on the processor follows the listing, and the
next four lines give the VIA the directions it keeps (`boot_leads`).
-/

namespace Eater

open Isa Cpu Asm Run

section Start

variable {msg : Message} {lcd : ℕ → Byte} {m : Machine Board}

/-- A fetch on a line of the listing. -/
theorem fetch_line {i : ℕ} {lbl : Option Label} {ins : Instr (Operand Label) Label}
    {ins' : Instr Word Byte} (hi : (lines msg.data)[i]? = some ⟨lbl, .instr ins⟩)
    (hr : (prog msg.data).resolve i ins = some ins') (hpc : m.pc = (prog msg.data).addr i) :
    m.fetchInstr (board msg lcd)
      = some (ins', { m with pc := (prog msg.data).addr (i + 1) }) := by
  obtain ⟨ins'', hr', hf⟩ := fetchInstr_addr (loaded msg lcd) (assemble_code msg) hi hpc
  rw [hf, ← Option.some_inj.mp (hr.symm.trans hr')]

variable (msg lcd m)

theorem powerOn_pc : (powerOn msg lcd m).pc = (prog msg.data).addr 0 := by
  rw [powerOn_eq]

theorem powerOn_written : (powerOn msg lcd m).written = [] := by
  rw [powerOn_eq]

theorem powerOn_via : (powerOn msg lcd m).bus.via = .cleared := by
  rw [powerOn_eq]

theorem powerOn_log : (powerOn msg lcd m).bus.log = [] := by
  rw [powerOn_eq]

/-- The processor behind `ldx #$ff`. -/
def begun : Machine Board :=
  { (powerOn msg lcd m).setX 0xff with pc := (prog msg.data).addr 1 }

/-- The processor behind `txs`. -/
def started : Machine Board :=
  { begun msg lcd m with sp := 0xff, pc := (prog msg.data).addr 2 }

theorem fetch_powerOn : (powerOn msg lcd m).fetchInstr (board msg lcd)
    = some (.ldxImm 0xff, { powerOn msg lcd m with pc := (prog msg.data).addr 1 }) :=
  fetch_line (i := 0) rfl rfl (powerOn_pc msg lcd m)

theorem fetch_begun : (begun msg lcd m).fetchInstr (board msg lcd)
    = some (.txs, { begun msg lcd m with pc := (prog msg.data).addr 2 }) :=
  fetch_line (i := 1) rfl rfl rfl

theorem step_powerOn : (powerOn msg lcd m).step (board msg lcd) = some (begun msg lcd m) := by
  rw [Machine.step, fetch_powerOn, Option.map_some]
  rfl

theorem step_begun : (begun msg lcd m).step (board msg lcd) = some (started msg lcd m) := by
  rw [Machine.step, fetch_begun, Option.map_some]
  rfl

/-- **The stack pointer is set up.** -/
theorem start (n : ℕ) : after (Machine.step (board msg lcd)) (n + 2) (powerOn msg lcd m)
    = after (Machine.step (board msg lcd)) n (started msg lcd m) := by
  rw [after_succ_of (step_powerOn msg lcd m), after_succ_of (step_begun msg lcd m)]

/-- Where the listing is then. -/
def boot : Config Board :=
  ⟨(started msg lcd m).a, 0xff, (started msg lcd m).y, (started msg lcd m).p, 2, [],
    (powerOn msg lcd m).bus⟩

theorem models_boot : Models (prog msg.data) discipline 0xff (started msg lcd m).page1
    [] (started msg lcd m) (boot msg lcd m) := by
  have h := models_of_pc (m := started msg lcd m) (i := 2) rfl
  rw [show (started msg lcd m).written = [] from powerOn_written msg lcd m] at h
  exact h

theorem calm_boot : Calm 0 [] (boot msg lcd m).bus where
  le := Nat.zero_le _
  contention := by
    show (powerOn msg lcd m).bus.via.NoContention
    rw [powerOn_via]
    exact fun he => absurd he (by decide)
  polite := by
    rw [List.drop_zero, show (boot msg lcd m).bus.log = [] from powerOn_log msg lcd m]
    trivial
  room := show 0 ∈ [0, 2, 4, 5] by decide

end Start

/-! ## The VIA set up -/

section Boot

variable {msg : Message} {lcd : ℕ → Byte} {k : ℕ} {a x y : Byte} {f : Flags} {b : Board}

/-- What setting up the VIA does to the board. -/
def Board.setUp (b : Board) : Board := (b.store .ddrb 0xff).store .ddra 0xe0

theorem Calm.setUp_ddrb (h : Calm k [] b) (hv : b.via = .cleared) :
    Calm k [] (b.store .ddrb 0xff) := by
  refine h.store_quiet ?_ ?_
  · rw [hv]
    exact Access.proper_low (by decide) (by decide)
  · rw [hv]
    exact Access.strobe?_of_low (by decide)

theorem Calm.setUp (h : Calm k [] b) (hv : b.via = .cleared) : Calm k [] b.setUp := by
  refine (h.setUp_ddrb hv).store_quiet ?_ ?_
  · rw [show (b.store .ddrb 0xff).via = b.via.set .ddrb 0xff from rfl, hv]
    exact Access.proper_low (by decide) (by decide)
  · rw [show (b.store .ddrb 0xff).via = b.via.set .ddrb 0xff from rfl, hv]
    exact Access.strobe?_of_low (by decide)

theorem idle_setUp (hv : b.via = .cleared) : b.setUp.via.Idle := by
  refine ⟨rfl, ?_⟩
  show b.via.porta &&& E = 0
  rw [hv]
  decide

variable (msg lcd) in
/-- **The VIA is set up** and idle. -/
theorem boot_leads (h : Calm k [] b) (hv : b.via = .cleared) :
    Leads (go msg lcd) (fun c => Calm k c.stack c.bus) 4 ⟨a, x, y, f, 2, [], b⟩
      ⟨0xe0, x, y, (f.result 0xff).result 0xe0, 6, [], b.setUp⟩ := by
  have h₁ := h.setUp_ddrb hv
  refine .cons h (Config.step_ldaImm rfl) ?_
  refine .cons h (step_sta .ddrb rfl) ?_
  refine .cons h₁ (Config.step_ldaImm rfl) ?_
  exact .single h₁ (step_sta .ddra rfl)

end Boot

end Eater
