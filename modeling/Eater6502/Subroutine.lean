import Eater6502.Transfer

/-!
# The contract of `lcd_instruction` and `print_char`

What the processor does between a `jsr` to one of the two routines and the
instruction after it, wherever its stack pointer stands, whatever is in its
registers and in RAM, and however often the LCD says that it is busy first.

The call is accounted for from the state it is made in (`models_of_pc`): the
stack pointer of that state is the base of the account, so that the five bytes
at and below it are the only RAM the call may touch, wrapping or not.
-/

namespace Eater

open Isa Cpu Asm Run

/-- **What a caller gets**, if the LCD answers busy `k` times. -/
structure Delivered (r : Routine) (k : ℕ) (m m' : Machine Board) : Prop where
  /-- Back behind the `jsr`. -/
  pc : m'.pc = m.pc + 3
  x : m'.x = m.x
  y : m'.y = m.y
  sp : m'.sp = m.sp
  /-- The busy flag was read `k + 1` times, and then the one strobe was made. -/
  log : ∃ pre post, m'.bus.log = m.bus.log ++ (pre ++ post)
    ∧ pre.countP Access.isPoll = k + 1 ∧ strobes pre = []
    ∧ post.countP Access.isPoll = 0 ∧ strobes post = [⟨r.isData, m.a⟩]
  /-- Port B was read for nothing else. -/
  polls : m'.bus.polls = m.bus.polls + (k + 1)
  ram : m'.bus.ram = m.bus.ram
  page1 : ∀ s, (∀ j < 5, s ≠ m.sp - BitVec.ofNat 8 j) → m'.page1 s = m.page1 s
  portb : m'.bus.via.portb = m.a
  porta : m'.bus.via.porta = r.rs
  ddrb : m'.bus.via.ddrb = 0xff
  /-- The next call may follow. -/
  idle : m'.bus.via.Idle

/-- **The contract.** A call of the driver from anywhere in the listing, with the
VIA idle, delivers the accumulator to the LCD. -/
theorem call_delivers (msg : Message) (lcd : ℕ → Byte) (r : Routine) (k i : ℕ)
    (m : Machine Board)
    (hsite : (lines msg.data)[i]? = some (ins (.jsr (.label r.label))))
    (hpc : m.pc = (prog msg.data).addr i) (hidle : m.bus.via.Idle)
    (hans : Answers lcd m.bus.polls k) :
    ∃ n m', after (Machine.step (board msg lcd)) n m = some m' ∧ Delivered r k m m' := by
  obtain ⟨f', b', hleads, hsends, -⟩ := call_leads msg (a := m.a) (x := m.x)
    (y := m.y) (f := m.p) r hsite hidle (Calm.init hidle.noContention) hans
  obtain ⟨m', hm', hmodels⟩ := follows.after_lift (models_of_pc hpc) hleads.after_eq
  obtain ⟨b₁, ⟨pre, hpre, hreads, hquiet⟩, ⟨post, hpost, hnone, hstrobe⟩⟩ := hsends.log
  refine ⟨_, m', hm', ?_⟩
  exact {
    pc := by rw [hmodels.pc, hpc, Listing.addr_succ (p := prog msg.data) hsite]; rfl
    x := hmodels.x
    y := hmodels.y
    sp := hmodels.stack.sp.trans (BitVec.sub_zero m.sp)
    log := ⟨pre, post, by rw [hmodels.bus, hpost, hpre, List.append_assoc], hreads, hquiet,
      hnone, hstrobe⟩
    polls := by rw [hmodels.bus, hsends.polls]
    ram := by rw [hmodels.bus, hsends.ram]
    page1 := hmodels.stack.rest
    portb := by rw [hmodels.bus, hsends.via]
    porta := by rw [hmodels.bus, hsends.via]
    ddrb := by rw [hmodels.bus, hsends.via]
    idle := by rw [hmodels.bus]; exact hsends.idle }

/-- A machine at the first call of `lcd_instruction`, with the stack about to wrap. -/
def atFirstCall : Machine Board where
  a := 0x38
  x := 0xff
  y := 0
  sp := 0x02
  p := ⟨false, false, false, true, false, false⟩
  pc := (prog helloWorld.data).addr 7
  page1 _ := 0
  bus := ⟨⟨0, 0, 0xff, 0xe0⟩, fun _ => 0, 0, []⟩
  written := []

/-- The first call, with an LCD that answers busy twice. -/
theorem first_call_delivers :
    (lines helloWorld.data)[7]? = some (ins (.jsr (.label .lcdInstruction)))
      ∧ ∃ n m', after (Machine.step (board helloWorld fun i => if i < 2 then 0x80 else 0)) n
          atFirstCall = some m' ∧ Delivered .lcdInstruction 2 atFirstCall m' :=
  ⟨rfl, call_delivers helloWorld (fun i => if i < 2 then 0x80 else 0) .lcdInstruction 2 7
    atFirstCall rfl rfl ⟨rfl, by decide⟩ ⟨by decide, by decide⟩⟩

end Eater
