import Eater6502.PrintLoop
import Eater6502.Startup

/-!
# From power-on to the end

The whole of `prog.s`: the VIA is set up, four commands are sent, and the print
loop runs. What it is meant to do is show the message (`EndToEnd`). What it does
is another matter (`output_shown`): the index register still holds the `$ff` the
stack pointer was set up with, since the line in front of `print` clears the
accumulator instead. The first byte taken is therefore the one 255 places behind
the start of the message, and the loop is left at once if that byte is zero. If
it is not, it is shown, and the message after it. Either way the message and
nothing else is shown only if there is none.
-/

namespace Eater

open Isa Cpu Asm Run

/-- The commands the display is initialised with: function set, display on, entry
mode, clear display. -/
def commands : List Byte := [0b00111000, 0b00001110, 0b00000110, 0b00000001]

/-- The strobes of the commands and of some characters. -/
def shown (s : List Byte) : List Strobe :=
  commands.map (Strobe.mk false) ++ s.map (Strobe.mk true)

section Introduction

variable {msg : Message} {lcd : ℕ → Byte} {k i : ℕ} {a x y v : Byte} {f : Flags} {b : Board}

variable (msg) in
/-- **A command sent**, from the line that loads it. -/
theorem command_leads (hfair : Fair lcd)
    (hload : (lines msg.data)[i]? = some (ins (.ldaImm v)))
    (hsite : (lines msg.data)[i + 1]? = some (ins (.jsr (.label .lcdInstruction))))
    (hv : b.via.Idle) (h : Calm k [] b) :
    ∃ n a' f' b', Leads (go msg lcd) (fun c => Calm k c.stack c.bus) n ⟨a, x, y, f, i, [], b⟩
        ⟨a', x, y, f', i + 2, [], b'⟩
      ∧ (∃ q, Adds q [⟨false, v⟩] b b') ∧ b'.via.Idle ∧ Calm k [] b' := by
  obtain ⟨q, hq⟩ := hfair.answers b.polls
  obtain ⟨f', b', hcall, hsends, hcalm⟩ := call_leads msg (a := v) (x := x) (y := y)
    (f := f.result v) .lcdInstruction hsite hv h hq
  exact ⟨_, _, f', b', .cons h (Config.step_ldaImm (p := prog msg.data) hload) hcall,
    ⟨_, hsends.adds⟩, hsends.idle, hcalm⟩

/-- Setting up the VIA strobes nothing. -/
theorem adds_setUp (hv : b.via = .cleared) : Adds 0 [] b b.setUp := by
  have h₁ : Adds 0 [] b (b.store .ddrb 0xff) := by
    refine Adds.store_quiet ?_
    rw [hv]
    exact Access.strobe?_of_low (by decide)
  refine h₁.trans (Adds.store_quiet ?_)
  rw [show (b.store .ddrb 0xff).via = b.via.set .ddrb 0xff from rfl, hv]
  exact Access.strobe?_of_low (by decide)

variable (msg) in
/-- **The introduction**: from the set-up of the VIA to the print loop, which the
index register reaches unchanged. -/
theorem introduction_leads (hfair : Fair lcd) (hv : b.via = .cleared) (h : Calm k [] b) :
    ∃ n a' f' b', Leads (go msg lcd) (fun c => Calm k c.stack c.bus) n ⟨a, x, y, f, 2, [], b⟩
        ⟨a', x, y, f', 15, [], b'⟩
      ∧ (∃ q, Adds q (commands.map (Strobe.mk false)) b b') ∧ b'.via.Idle ∧ Calm k [] b' := by
  have hboot := boot_leads msg lcd (a := a) (x := x) (y := y) (f := f) h hv
  have hadds₀ : Adds 0 [] b b.setUp := adds_setUp hv
  obtain ⟨n₁, a₁, f₁, b₁, h₁, ⟨q₁, hadds₁⟩, hv₁, hc₁⟩ := command_leads msg
    (i := 6) (a := 0xe0) (x := x) (y := y) (f := (f.result 0xff).result 0xe0) hfair rfl rfl
    (idle_setUp hv) (h.setUp hv)
  obtain ⟨n₂, a₂, f₂, b₂, h₂, ⟨q₂, hadds₂⟩, hv₂, hc₂⟩ := command_leads msg
    (i := 8) (a := a₁) (x := x) (y := y) (f := f₁) hfair rfl rfl hv₁ hc₁
  obtain ⟨n₃, a₃, f₃, b₃, h₃, ⟨q₃, hadds₃⟩, hv₃, hc₃⟩ := command_leads msg
    (i := 10) (a := a₂) (x := x) (y := y) (f := f₂) hfair rfl rfl hv₂ hc₂
  obtain ⟨n₄, a₄, f₄, b₄, h₄, ⟨q₄, hadds₄⟩, hv₄, hc₄⟩ := command_leads msg
    (i := 12) (a := a₃) (x := x) (y := y) (f := f₃) hfair rfl rfl hv₃ hc₃
  exact ⟨_, _, _, b₄, ((((hboot.trans h₁).trans h₂).trans h₃).trans h₄).trans
      (.single hc₄ (Config.step_ldaImm rfl)),
    ⟨_, (((hadds₀.trans hadds₁).trans hadds₂).trans hadds₃).trans hadds₄⟩, hv₄, hc₄⟩

end Introduction

/-! ## What is shown -/

/-- **What is shown of a message**: the byte 255 places behind its start, and then
the message; or nothing, if that byte is zero. -/
def output (msg : Message) (s : List Byte) : List Byte :=
  if window msg 0xff = 0 then [] else window msg 0xff :: s

/-- A window taken from one place on is a byte and the window from the next. -/
theorem cyclic_cons (w : Byte → Byte) (x : Byte) (j : ℕ) :
    cyclic w x (j + 1) = w x :: cyclic w (x + 1) j := by
  rw [cyclic, List.range_succ_eq_map, List.map_cons, List.map_map, cyclic]
  refine List.cons_eq_cons.mpr ⟨congrArg w (BitVec.add_zero x), List.map_congr_left fun i _ => ?_⟩
  show w (x + BitVec.ofNat 8 (i + 1)) = w (x + 1 + BitVec.ofNat 8 i)
  rw [Nat.add_comm, BitVec.ofNat_add, BitVec.add_assoc]
  rfl

/-- From the index the stack pointer was set up with, the loop takes the output. -/
theorem cyclic_output {msg : Message} {s : List Byte} (hs : msg.data = asciiz s) (h0 : 0 ∉ s)
    (hlen : s.length ≤ 255) :
    ∃ j, cyclic (window msg) 0xff j = output msg s
      ∧ (∀ i < j, window msg (0xff + BitVec.ofNat 8 i) ≠ 0)
      ∧ window msg (0xff + BitVec.ofNat 8 j) = 0 := by
  have hnext : ∀ i, (0xff : Byte) + BitVec.ofNat 8 (i + 1) = 0 + BitVec.ofNat 8 i := fun i => by
    rw [Nat.add_comm, BitVec.ofNat_add, ← BitVec.add_assoc]
    rfl
  rw [output]
  split
  · next hz => exact ⟨0, rfl, fun i hi => absurd hi (Nat.not_lt_zero i), hz⟩
  · next hne =>
    refine ⟨s.length + 1, ?_, fun i hi => ?_, ?_⟩
    · rw [cyclic_cons, show (0xff : Byte) + 1 = 0 from rfl, cyclic_string hs hlen]
    · cases i with
      | zero => exact hne
      | succ i =>
        have hi : i < s.length := Nat.lt_of_succ_lt_succ hi
        rw [hnext]
        exact window_ne_zero hs h0 (by rw [toNat_zero_add (by omega)]; exact hi)
    · rw [hnext]
      exact window_of_eq hs (toNat_zero_add hlen)

/-- **What the program does**: it comes to rest at `loop`, with the output shown. -/
theorem output_shown {msg : Message} {lcd : ℕ → Byte} (hfair : Fair lcd) (m : Machine Board)
    {s : List Byte} (hs : msg.data = asciiz s) (h0 : 0 ∉ s) (hlen : s.length ≤ 255) :
    ∃ n b, strobes b.log = shown (output msg s)
      ∧ ∀ k, ∃ m', after (Machine.step (board msg lcd)) (n + k) (powerOn msg lcd m) = some m'
        ∧ m'.pc = label msg .loop ∧ m'.bus = b := by
  obtain ⟨j, hj, hne, hz⟩ := cyclic_output hs h0 hlen
  obtain ⟨n₁, a₁, f₁, b₁, hintro, ⟨q₁, l₁, hlog₁, -, hs₁⟩, hv₁, hc₁⟩ := introduction_leads
    msg (a := (started msg lcd m).a) (x := 0xff) (y := (started msg lcd m).y)
    (f := (started msg lcd m).p) hfair (powerOn_via msg lcd m) (calm_boot msg lcd m)
  obtain ⟨n₂, f₂, b₂, hloop, -, ⟨q₂, l₂, hlog₂, -, hs₂⟩⟩ :=
    end_leads msg (a := a₁) (y := (started msg lcd m).y) (f := f₁) hfair hv₁ hc₁ hne hz
  refine ⟨n₁ + n₂ + 2, b₂, ?_, fun k => ?_⟩
  · rw [hlog₂, hlog₁, strobes_append, strobes_append, hs₁, hs₂, hj, powerOn_log]
    rfl
  · have hrun := (hintro.trans (hloop.mono fun _ h => h.1)).after_eq
    obtain ⟨m', hm', hmodels⟩ := follows.after_lift (models_boot msg lcd m)
      ((after_add_of hrun k).trans (after_of_fixed step_loop k))
    refine ⟨m', ?_, hmodels.pc, hmodels.bus⟩
    rw [Nat.add_right_comm, start]
    exact hm'

/-- **What the program is meant to do**: come to rest at `loop`, with the commands
and the message sent and nothing else, and write nothing more. -/
def EndToEnd (msg : Message) (lcd : ℕ → Byte) (m : Machine Board) (s : List Byte) : Prop :=
  ∃ n m', after (Machine.step (board msg lcd)) n (powerOn msg lcd m) = some m'
    ∧ m'.pc = label msg .loop ∧ strobes m'.bus.log = shown s
    ∧ ∀ k, ∃ m'', after (Machine.step (board msg lcd)) k m' = some m''
      ∧ m''.pc = label msg .loop
      ∧ m''.bus.log.filter Access.isStore = m'.bus.log.filter Access.isStore

/-- Only a store can be a strobe. -/
theorem strobes_filter (l : List Access) : strobes (l.filter Access.isStore) = strobes l := by
  rw [strobes, strobes, List.filterMap_filter]
  refine List.filterMap_congr fun e _ => ?_
  cases e <;> rfl

theorem shown_inj {s s' : List Byte} (h : shown s = shown s') : s = s' :=
  List.map_injective_iff.mpr (fun _ _ h => (Strobe.mk.inj h).2) (List.append_cancel_left h)

section EndToEnd

variable {msg : Message} {lcd : ℕ → Byte} {s : List Byte}

/-- The program does what it is meant to if the output is the message. -/
theorem endToEnd_iff_output (hfair : Fair lcd) (m : Machine Board) (hs : msg.data = asciiz s)
    (h0 : 0 ∉ s) (hlen : s.length ≤ 255) : EndToEnd msg lcd m s ↔ output msg s = s := by
  obtain ⟨n, b, hshown, hrest⟩ := output_shown hfair m hs h0 hlen
  refine ⟨fun ⟨n', m', hm', _, hout, hstay⟩ => ?_, fun hout => ?_⟩
  · obtain ⟨m₁, hm₁, -, hlog⟩ := hstay n
    obtain ⟨m₂, hm₂, -, hb⟩ := hrest n'
    rw [Nat.add_comm, after_add_of hm'] at hm₂
    obtain rfl := Option.some_inj.mp (hm₁.symm.trans hm₂)
    refine shown_inj ?_
    rw [← hshown, ← hb, ← strobes_filter, hlog, strobes_filter, hout]
  · obtain ⟨m', hm', hpc, hb⟩ := hrest 0
    rw [Nat.add_zero] at hm'
    refine ⟨n, m', hm', hpc, by rw [hb, hshown, hout], fun k => ?_⟩
    obtain ⟨m'', hm'', hpc', hb'⟩ := hrest k
    refine ⟨m'', ?_, hpc', by rw [hb, hb']⟩
    rw [← after_add_of hm', hm'']

/-- The output is the message only if there is none. -/
theorem output_eq_iff (hs : msg.data = asciiz s) : output msg s = s ↔ s = [] := by
  rw [output]
  refine ⟨fun h => ?_, fun h => ?_⟩
  · split at h
    · exact h.symm
    · exact absurd (congrArg List.length h) (Nat.succ_ne_self s.length)
  · rw [h] at hs ⊢
    exact if_pos (window_gap msg (by rw [hs]; decide))

end EndToEnd

/-- **The program shows its message if and only if there is none to show**, whatever
was in the processor and in memory, and however long the LCD is busy. -/
theorem end_to_end_iff_empty (msg : Message) (lcd : ℕ → Byte) (hfair : Fair lcd)
    (m : Machine Board) (s : List Byte) (hs : msg.data = asciiz s) (h0 : 0 ∉ s)
    (hlen : s.length ≤ 255) : EndToEnd msg lcd m s ↔ s = [] :=
  (endToEnd_iff_output hfair m hs h0 hlen).trans (output_eq_iff hs)

/-- A processor and a board with nothing but zeros in them. -/
def blank : Machine Board where
  a := 0
  x := 0
  y := 0
  sp := 0
  p := ⟨false, false, false, false, false, false⟩
  pc := 0
  page1 _ := 0
  bus := ⟨.cleared, fun _ => 0, 0, []⟩
  written := []

/-- The listing's own message. -/
theorem hello_shown_iff_empty : EndToEnd helloWorld idleLcd blank hello ↔ hello = [] :=
  end_to_end_iff_empty helloWorld idleLcd fair_idleLcd blank hello rfl (by decide) (by decide)

/-- **The listing's own message is not shown.** The byte taken first lies in the gap
behind the program, so that the display stays empty. -/
theorem hello_not_shown : Fair idleLcd ∧ helloWorld.data = asciiz hello ∧ 0 ∉ hello
    ∧ hello.length ≤ 255 ∧ output helloWorld hello = []
    ∧ ¬ EndToEnd helloWorld idleLcd blank hello := by
  have hout : output helloWorld hello = [] := if_pos (window_gap helloWorld (by decide))
  refine ⟨fair_idleLcd, rfl, by decide, by decide, hout, fun h => ?_⟩
  have heq := (endToEnd_iff_output fair_idleLcd blank rfl (by decide) (by decide)).mp h
  rw [hout] at heq
  exact absurd heq (by decide)

end Eater
