import Eater6502.Assembler
import Eater6502.Run
import Eater6502.StackPage

/-!
# A listing run with a call stack of its own

How the author of a listing thinks of it: execution goes from line to line, a
call remembers the line it was made from, a return goes behind the call it
belongs to, and what is pushed is what is pulled. `Config` is such an execution
state and `Config.step` its step. Code that breaks the discipline – a return
with no call to return from, a stack deeper than the `Discipline` allows, a
store where it allows none, a move of the stack pointer – is stuck.

`simulates` says that this is a safe way to think. The processor running the
assembled bytes, with return addresses and saved registers as bytes of the
stack page, follows every step of a `Config`: the program counter stays at the
address of the line, and the stack page carries the call stack
(`Models.stack`). Whatever is proved of runs by lines and calls holds of the
bytes; `Models.track` adds that an observer who pairs calls and returns from
the instruction stream alone sees the same call stack.
-/

namespace Asm

open Isa Cpu Run

variable {L β : Type}

/-- What code leaves on the stack. -/
inductive Frame where
  /-- A call made on a line. -/
  | call (site : ℕ)
  /-- A byte put aside. -/
  | saved (b : Byte)
  deriving Repr, DecidableEq

/-- The bytes it takes there. -/
def Frame.size : Frame → ℕ
  | call _ => 2
  | saved _ => 1

/-- The bytes a stack takes. -/
def used (stack : List Frame) : ℕ := (stack.map Frame.size).sum

/-- The bytes of a frame on the stack page, in the order they are pulled. A call
leaves the address of its own last byte. -/
def Frame.bytes (p : Listing L) : Frame → List Byte
  | call s => [lo (p.addr (s + 1) - 1), hi (p.addr (s + 1) - 1)]
  | saved b => [b]

/-- The bytes of a stack. -/
def stackBytes (p : Listing L) (stack : List Frame) : List Byte :=
  stack.flatMap (Frame.bytes p)

theorem length_stackBytes (p : Listing L) (stack : List Frame) :
    (stackBytes p stack).length = used stack := by
  rw [stackBytes, used, List.length_flatMap]
  refine congrArg List.sum (List.map_congr_left fun f _ => ?_)
  cases f <;> rfl

/-- Where a listing is in its execution. -/
structure Config (β : Type) where
  a : Byte
  x : Byte
  y : Byte
  p : Flags
  /-- The line to be executed next. -/
  line : ℕ
  /-- The calls and saved bytes outstanding, the latest first. -/
  stack : List Frame
  bus : β

namespace Config

/-- A result in the accumulator. -/
def setA (c : Config β) (b : Byte) : Config β := { c with a := b, p := c.p.result b }

/-- A result in the index register. -/
def setX (c : Config β) (b : Byte) : Config β := { c with x := b, p := c.p.result b }

/-- On to the next line. -/
def next (c : Config β) : Config β := { c with line := c.line + 1 }

/-- A load from outside the stack page. -/
def load (B : Bus β) (c : Config β) (w : Word) : Option (Config β) :=
  if hi w = 1 then none
  else some ({ c with bus := (B.read c.bus w).2 }.setA (B.read c.bus w).1)

/-- A store where stores are allowed. -/
def store (B : Bus β) (D : Discipline) (c : Config β) (w : Word) : Option (Config β) :=
  if D.stores w = true then some { c with bus := B.write c.bus w c.a } else none

/-- A frame more on the stack, if there is room for it. -/
def push (D : Discipline) (c : Config β) (f : Frame) : Option (Config β) :=
  if used (f :: c.stack) ≤ D.depth then some { c with stack := f :: c.stack } else none

/-- The byte put aside last, back in the accumulator. -/
def pull (c : Config β) : Option (Config β) :=
  match c.stack with
  | .saved b :: rest => some ({ c with stack := rest }.setA b)
  | _ => none

/-- Back behind the call made last. -/
def ret (c : Config β) : Option (Config β) :=
  match c.stack with
  | .call s :: rest => some { c with stack := rest, line := s + 1 }
  | _ => none

/-! What an effect is, and what must hold for there to be one. -/

section Effects

variable {B : Bus β} {D : Discipline} {c c' : Config β} {w : Word} {f : Frame}

theorem of_load (h : c.load B w = some c') :
    hi w ≠ 1 ∧ { c with bus := (B.read c.bus w).2 }.setA (B.read c.bus w).1 = c' := by
  rw [load, Option.ite_none_left_eq_some, Option.some_inj] at h
  exact h

theorem of_store (h : c.store B D w = some c') :
    D.stores w = true ∧ { c with bus := B.write c.bus w c.a } = c' := by
  rw [store, Option.ite_none_right_eq_some, Option.some_inj] at h
  exact h

theorem of_push (h : c.push D f = some c') :
    used (f :: c.stack) ≤ D.depth ∧ { c with stack := f :: c.stack } = c' := by
  rw [push, Option.ite_none_right_eq_some, Option.some_inj] at h
  exact h

theorem of_pull (h : c.pull = some c') :
    ∃ b rest, c.stack = .saved b :: rest ∧ { c with stack := rest }.setA b = c' := by
  unfold pull at h
  split at h
  · next b rest hst => exact ⟨b, rest, hst, Option.some_inj.mp h⟩
  · exact absurd h (by simp)

theorem of_ret (h : c.ret = some c') :
    ∃ s rest, c.stack = .call s :: rest ∧ { c with stack := rest, line := s + 1 } = c' := by
  unfold ret at h
  split at h
  · next s rest hst => exact ⟨s, rest, hst, Option.some_inj.mp h⟩
  · exact absurd h (by simp)

end Effects

variable [DecidableEq L]

/-- On at a label. -/
def goto (p : Listing L) (c : Config β) (l : L) : Option (Config β) :=
  (p.index l).map fun i => { c with line := i }

/-- The effect of an instruction of the listing. -/
def exec (p : Listing L) (B : Bus β) (D : Discipline) (c : Config β) :
    Instr (Operand L) L → Option (Config β)
  | .ldaImm b => some (c.next.setA b)
  | .ldaAbs o => (p.operand o).bind fun w => c.next.load B w
  | .ldaAbsX o => (p.operand o).bind fun w => c.next.load B (w + c.x.setWidth 16)
  | .ldxImm b => some (c.next.setX b)
  | .staAbs o => (p.operand o).bind fun w => c.next.store B D w
  | .andImm b => some (c.next.setA (c.a &&& b))
  | .txs => none
  | .inx => some (c.next.setX (c.x + 1))
  | .pha => c.next.push D (.saved c.a)
  | .pla => c.next.pull
  | .jsr (.label l) => (c.push D (.call c.line)).bind fun c => c.goto p l
  | .jsr (.addr _) => none
  | .rts => c.ret
  | .jmpAbs (.label l) => c.goto p l
  | .jmpAbs (.addr _) => none
  | .beq l => if c.p.z then c.goto p l else some c.next
  | .bne l => if c.p.z then some c.next else c.goto p l

/-- The step to the next line. -/
def step (p : Listing L) (B : Bus β) (D : Discipline) (c : Config β) : Option (Config β) :=
  match p.lines[c.line]? with
  | some ⟨_, .instr i⟩ => c.exec p B D i
  | _ => none

/-- A step is the effect of an instruction on the current line. -/
theorem step_cases {p : Listing L} {B : Bus β} {D : Discipline} {c c' : Config β}
    (h : c.step p B D = some c') :
    ∃ lbl i, p.lines[c.line]? = some ⟨lbl, .instr i⟩ ∧ c.exec p B D i = some c' := by
  unfold step at h
  split at h
  · next lbl i hi => exact ⟨lbl, i, hi, h⟩
  · exact absurd h (by simp)

/-- The call stack behind an instruction. -/
def stackAfter (c : Config β) : Instr (Operand L) L → List Frame
  | .jsr _ => .call c.line :: c.stack
  | .pha => .saved c.a :: c.stack
  | .rts => c.stack.tail
  | .pla => c.stack.tail
  | _ => c.stack

theorem stack_of_goto {p : Listing L} {c c' : Config β} {l : L}
    (h : c.goto p l = some c') : c'.stack = c.stack := by
  obtain ⟨_, _, rfl⟩ := Option.map_eq_some_iff.mp h
  rfl

/-- The four stack instructions do to the call stack what they should, and no
other instruction does anything to it. -/
theorem exec_stack {p : Listing L} {B : Bus β} {D : Discipline} {c c' : Config β}
    {i : Instr (Operand L) L} (h : c.exec p B D i = some c') :
    c'.stack = c.stackAfter i := by
  cases i with
  | ldaImm | ldxImm | andImm | inx =>
    rw [← Option.some_inj.mp h]
    rfl
  | txs => exact absurd h (by simp [exec])
  | ldaAbs | ldaAbsX =>
    obtain ⟨w, -, hw⟩ := Option.bind_eq_some_iff.mp h
    obtain ⟨-, rfl⟩ := of_load hw
    rfl
  | staAbs =>
    obtain ⟨w, -, hw⟩ := Option.bind_eq_some_iff.mp h
    obtain ⟨-, rfl⟩ := of_store hw
    rfl
  | pha =>
    obtain ⟨-, rfl⟩ := of_push h
    rfl
  | pla =>
    obtain ⟨b, rest, hst, rfl⟩ := of_pull h
    rw [stackAfter, show c.stack = _ from hst]
    rfl
  | jsr o =>
    cases o with
    | addr => exact absurd h (by simp [exec])
    | label =>
      obtain ⟨c₁, h₁, h₂⟩ := Option.bind_eq_some_iff.mp h
      obtain ⟨-, rfl⟩ := of_push h₁
      exact stack_of_goto h₂
  | rts =>
    obtain ⟨s, rest, hst, rfl⟩ := of_ret h
    rw [stackAfter, hst]
    rfl
  | jmpAbs o =>
    cases o with
    | addr => exact absurd h (by simp [exec])
    | label => exact stack_of_goto h
  | beq l =>
    rw [exec] at h
    split at h
    · exact stack_of_goto h
    · rw [← Option.some_inj.mp h]
      rfl
  | bne l =>
    rw [exec] at h
    split at h
    · rw [← Option.some_inj.mp h]
      rfl
    · exact stack_of_goto h

/-! ### One instruction at a time

Where a line holds an instruction, this is the step from it. -/

section Steps

variable {p : Listing L} {B : Bus β} {D : Discipline} {lbl : Option L} {a x y : Byte}
variable {f : Flags} {i j : ℕ} {st : List Frame} {s : β}

theorem step_of {ins : Instr (Operand L) L} (h : p.lines[i]? = some ⟨lbl, .instr ins⟩) :
    step p B D ⟨a, x, y, f, i, st, s⟩ = exec p B D ⟨a, x, y, f, i, st, s⟩ ins := by
  simp only [step, h]

theorem step_ldaImm {b : Byte} (h : p.lines[i]? = some ⟨lbl, .instr (.ldaImm b)⟩) :
    step p B D ⟨a, x, y, f, i, st, s⟩ = some ⟨b, x, y, f.result b, i + 1, st, s⟩ :=
  step_of h

theorem step_andImm {b : Byte} (h : p.lines[i]? = some ⟨lbl, .instr (.andImm b)⟩) :
    step p B D ⟨a, x, y, f, i, st, s⟩
      = some ⟨a &&& b, x, y, f.result (a &&& b), i + 1, st, s⟩ :=
  step_of h

theorem step_inx (h : p.lines[i]? = some ⟨lbl, .instr .inx⟩) :
    step p B D ⟨a, x, y, f, i, st, s⟩
      = some ⟨a, x + 1, y, f.result (x + 1), i + 1, st, s⟩ :=
  step_of h

theorem step_ldaAbs {w : Word} (h : p.lines[i]? = some ⟨lbl, .instr (.ldaAbs (.addr w))⟩)
    (hw : hi w ≠ 1) {b : Byte} {s' : β} (hr : B.read s w = (b, s')) :
    step p B D ⟨a, x, y, f, i, st, s⟩ = some ⟨b, x, y, f.result b, i + 1, st, s'⟩ := by
  rw [step_of h, exec, Listing.operand_addr, Option.bind_some, load, if_neg hw]
  simp only [next, hr, setA]

theorem step_ldaAbsX {l : L} {w : Word}
    (h : p.lines[i]? = some ⟨lbl, .instr (.ldaAbsX (.label l))⟩) (hl : p.symbol l = some w)
    (hw : hi (w + x.setWidth 16) ≠ 1) {b : Byte} {s' : β}
    (hr : B.read s (w + x.setWidth 16) = (b, s')) :
    step p B D ⟨a, x, y, f, i, st, s⟩ = some ⟨b, x, y, f.result b, i + 1, st, s'⟩ := by
  rw [step_of h, exec, Listing.operand_label, hl, Option.bind_some, load, if_neg hw]
  simp only [next, hr, setA]

theorem step_staAbs {w : Word} (h : p.lines[i]? = some ⟨lbl, .instr (.staAbs (.addr w))⟩)
    (hw : D.stores w = true) :
    step p B D ⟨a, x, y, f, i, st, s⟩ = some ⟨a, x, y, f, i + 1, st, B.write s w a⟩ := by
  rw [step_of h, exec, Listing.operand_addr, Option.bind_some, store, if_pos hw]
  rfl

theorem step_pha (h : p.lines[i]? = some ⟨lbl, .instr .pha⟩)
    (hroom : used (.saved a :: st) ≤ D.depth) :
    step p B D ⟨a, x, y, f, i, st, s⟩ = some ⟨a, x, y, f, i + 1, .saved a :: st, s⟩ := by
  rw [step_of h, exec, push]
  exact if_pos hroom

theorem step_pla {b : Byte} (h : p.lines[i]? = some ⟨lbl, .instr .pla⟩) :
    step p B D ⟨a, x, y, f, i, .saved b :: st, s⟩
      = some ⟨b, x, y, f.result b, i + 1, st, s⟩ :=
  step_of h

theorem step_jsr {l : L} (h : p.lines[i]? = some ⟨lbl, .instr (.jsr (.label l))⟩)
    (hl : p.index l = some j) (hroom : used (.call i :: st) ≤ D.depth) :
    step p B D ⟨a, x, y, f, i, st, s⟩ = some ⟨a, x, y, f, j, .call i :: st, s⟩ := by
  rw [step_of h, exec, push, if_pos hroom, Option.bind_some, goto, hl]
  rfl

theorem step_rts (h : p.lines[i]? = some ⟨lbl, .instr .rts⟩) :
    step p B D ⟨a, x, y, f, i, .call j :: st, s⟩ = some ⟨a, x, y, f, j + 1, st, s⟩ :=
  step_of h

theorem step_jmpAbs {l : L} (h : p.lines[i]? = some ⟨lbl, .instr (.jmpAbs (.label l))⟩)
    (hl : p.index l = some j) :
    step p B D ⟨a, x, y, f, i, st, s⟩ = some ⟨a, x, y, f, j, st, s⟩ := by
  rw [step_of h, exec, goto, hl]
  rfl

theorem step_beq {l : L} (h : p.lines[i]? = some ⟨lbl, .instr (.beq l)⟩)
    (hl : p.index l = some j) :
    step p B D ⟨a, x, y, f, i, st, s⟩
      = some ⟨a, x, y, f, if f.z then j else i + 1, st, s⟩ := by
  rw [step_of h, exec]
  cases hz : f.z with
  | true => rw [if_pos rfl, if_pos rfl, goto, hl]; rfl
  | false => rw [if_neg Bool.false_ne_true, if_neg Bool.false_ne_true]; rfl

theorem step_bne {l : L} (h : p.lines[i]? = some ⟨lbl, .instr (.bne l)⟩)
    (hl : p.index l = some j) :
    step p B D ⟨a, x, y, f, i, st, s⟩
      = some ⟨a, x, y, f, if f.z then i + 1 else j, st, s⟩ := by
  rw [step_of h, exec]
  cases hz : f.z with
  | true => rw [if_pos rfl, if_pos rfl]; rfl
  | false => rw [if_neg Bool.false_ne_true, if_neg Bool.false_ne_true, goto, hl]; rfl

end Steps

end Config

/-! ## The processor follows the listing -/

/-- **The machine is where the configuration is**: the registers and the bus
agree, the program counter is at the line, and the stack page carries the call
stack. -/
structure Models (p : Listing L) (D : Discipline) (base : Byte) (page : Byte → Byte)
    (noted : List Word) (m : Machine β) (c : Config β) : Prop where
  a : m.a = c.a
  x : m.x = c.x
  y : m.y = c.y
  status : m.p = c.p
  pc : m.pc = p.addr c.line
  bus : m.bus = c.bus
  stack : StackPage D base page noted m (stackBytes p c.stack)

namespace Models

variable {p : Listing L} {D : Discipline} {base : Byte} {page : Byte → Byte}
variable {noted : List Word} {m : Machine β} {c : Config β}

/-- Everything is in place behind the instruction just fetched. -/
theorem next (h : Models p D base page noted m c) :
    Models p D base page noted { m with pc := p.addr (c.line + 1) } c.next :=
  ⟨h.a, h.x, h.y, h.status, rfl, h.bus, h.stack.congr rfl rfl rfl⟩

theorem setA (h : Models p D base page noted m c) (b : Byte) :
    Models p D base page noted (m.setA b) (c.setA b) :=
  ⟨rfl, h.x, h.y, congrArg (Flags.result · b) h.status, h.pc, h.bus, h.stack.congr rfl rfl rfl⟩

theorem setX (h : Models p D base page noted m c) (b : Byte) :
    Models p D base page noted (m.setX b) (c.setX b) :=
  ⟨h.a, rfl, h.y, congrArg (Flags.result · b) h.status, h.pc, h.bus, h.stack.congr rfl rfl rfl⟩

theorem load (h : Models p D base page noted m c) {B : Bus β} {w : Word} {c' : Config β}
    (hc : c.load B w = some c') :
    Models p D base page noted ((m.read B w).2.setA (m.read B w).1) c' := by
  obtain ⟨hw, rfl⟩ := Config.of_load hc
  rw [Machine.read, if_neg hw, h.bus]
  exact setA (m := { m with bus := (B.read c.bus w).2 })
    (c := { c with bus := (B.read c.bus w).2 })
    ⟨h.a, h.x, h.y, h.status, h.pc, rfl, h.stack.congr rfl rfl rfl⟩ _

theorem store (h : Models p D base page noted m c) {B : Bus β} {w : Word} {c' : Config β}
    (hc : c.store B D w = some c') :
    Models p D base page noted (m.write B w m.a) c' := by
  obtain ⟨hw, rfl⟩ := Config.of_store hc
  obtain ⟨hwrite, hstack⟩ := h.stack.store B hw m.a
  rw [hwrite]
  exact ⟨h.a, h.x, h.y, h.status, h.pc, by rw [h.bus, h.a], hstack⟩

/-- A frame pushed byte by byte. -/
theorem push_saved (h : Models p D base page noted m c) {B : Bus β} {c' : Config β}
    (hc : c.push D (.saved m.a) = some c') :
    Models p D base page noted (m.push B m.a) c' := by
  obtain ⟨hle, rfl⟩ := Config.of_push hc
  have hroom : (stackBytes p c.stack).length + 1 ≤ D.depth := by
    rw [length_stackBytes, Nat.add_comm]
    exact hle
  have hstack := h.stack.push B m.a hroom
  rw [Machine.push_eq] at hstack ⊢
  exact ⟨h.a, h.x, h.y, h.status, h.pc, h.bus, hstack⟩

theorem pull (h : Models p D base page noted m c) {B : Bus β} {c' : Config β}
    (hc : c.pull = some c') :
    Models p D base page noted ((m.pull B).2.setA (m.pull B).1) c' := by
  obtain ⟨b, rest, hst, rfl⟩ := Config.of_pull hc
  have hs := h.stack
  rw [hst] at hs
  obtain ⟨hpull, hstack⟩ := hs.pull B
  rw [hpull]
  exact setA (m := { m with sp := m.sp + 1 }) (c := { c with stack := rest })
    ⟨h.a, h.x, h.y, h.status, h.pc, h.bus, hstack⟩ b

variable [DecidableEq L]

theorem goto (h : Models p D base page noted m c) {l : L} {w : Word} {c' : Config β}
    (hw : p.symbol l = some w) (hc : c.goto p l = some c') :
    Models p D base page noted { m with pc := w } c' := by
  obtain ⟨i, hi, rfl⟩ := Option.map_eq_some_iff.mp hc
  rw [Listing.symbol, hi, Option.map_some, Option.some_inj] at hw
  rw [← hw]
  exact ⟨h.a, h.x, h.y, h.status, rfl, h.bus, h.stack.congr rfl rfl rfl⟩

/-- A branch taken: the displacement leads from the next line to the label. -/
theorem branch (h : Models p D base page noted m c) {l : L} {w : Word} {d : Byte}
    {c' : Config β} (hd : p.displacement w l = some d) (hc : c.goto p l = some c') :
    Models p D base page noted { m with pc := w + d.signExtend 16 } c' := by
  obtain ⟨t, ht, hd⟩ := Option.bind_eq_some_iff.mp hd
  split at hd
  · next hreach =>
    rw [← Option.some_inj.mp hd, hreach]
    exact h.goto ht hc
  · exact absurd hd (by simp)

/-- **A call.** Two pushes leave the return address, and the frame with it. -/
theorem jsr (h : Models p D base page noted m c) {B : Bus β} {l : L} {w : Word}
    {c' : Config β} (hw : p.symbol l = some w)
    (hc : ((c.push D (.call c.line)).bind fun c => c.goto p l) = some c') :
    Models p D base page noted
      { (Machine.push B (m.push B (hi (p.addr (c.line + 1) - 1)))
          (lo (p.addr (c.line + 1) - 1))) with pc := w } c' := by
  obtain ⟨c₁, hpush, hgoto⟩ := Option.bind_eq_some_iff.mp hc
  obtain ⟨hle, rfl⟩ := Config.of_push hpush
  have hroom : (stackBytes p c.stack).length + 1 + 1 ≤ D.depth := by
    rw [length_stackBytes, Nat.add_assoc, Nat.add_comm]
    exact hle
  have hstack := (h.stack.push B (hi (p.addr (c.line + 1) - 1)) (Nat.le_of_succ_le hroom)).push B
    (lo (p.addr (c.line + 1) - 1)) hroom
  refine goto (c := { c with stack := .call c.line :: c.stack })
    (m := Machine.push B (m.push B _) _) ⟨?_, ?_, ?_, ?_, ?_, ?_, hstack⟩ hw hgoto
  · rw [Machine.push_eq, Machine.push_eq]; exact h.a
  · rw [Machine.push_eq, Machine.push_eq]; exact h.x
  · rw [Machine.push_eq, Machine.push_eq]; exact h.y
  · rw [Machine.push_eq, Machine.push_eq]; exact h.status
  · rw [Machine.push_eq, Machine.push_eq]; exact h.pc
  · rw [Machine.push_eq, Machine.push_eq]; exact h.bus

omit [DecidableEq L] in
/-- **A return.** The two bytes pulled are the return address the call left. -/
theorem rts (h : Models p D base page noted m c) {B : Bus β} {c' : Config β}
    (hc : c.ret = some c') :
    Models p D base page noted
      { ((m.pull B).2.pull B).2 with
        pc := word ((m.pull B).2.pull B).1 (m.pull B).1 + 1 } c' := by
  obtain ⟨s, rest, hst, rfl⟩ := Config.of_ret hc
  have hs := h.stack
  rw [hst] at hs
  obtain ⟨hpull₁, hs₁⟩ := hs.pull B
  obtain ⟨hpull₂, hs₂⟩ := hs₁.pull B
  rw [hpull₁]
  simp only [hpull₂]
  refine ⟨h.a, h.x, h.y, h.status, ?_, h.bus, hs₂.congr rfl rfl rfl⟩
  show word (hi (p.addr (s + 1) - 1)) (lo (p.addr (s + 1) - 1)) + 1 = p.addr (s + 1)
  rw [word_hi_lo, BitVec.sub_add_cancel]

/-- **Instruction by instruction**, what the processor does with the assembled
one is what the listing does with the original. -/
theorem exec (h : Models p D base page noted m c) {B : Bus β}
    {i : Instr (Operand L) L} {i' : Instr Word Byte} {c' : Config β}
    (hr : p.resolve c.line i = some i') (hc : c.exec p B D i = some c') :
    Models p D base page noted
      (Machine.exec B { m with pc := p.addr (c.line + 1) } i') c' := by
  have hn := h.next
  cases i with
  | ldaImm b =>
    rw [← Option.some_inj.mp hr, ← Option.some_inj.mp hc]
    exact hn.setA b
  | ldxImm b =>
    rw [← Option.some_inj.mp hr, ← Option.some_inj.mp hc]
    exact hn.setX b
  | andImm b =>
    rw [← Option.some_inj.mp hr, ← Option.some_inj.mp hc, ← h.a]
    exact hn.setA _
  | inx =>
    rw [← Option.some_inj.mp hr, ← Option.some_inj.mp hc, ← h.x]
    exact hn.setX _
  | txs => exact absurd hc (by simp [Config.exec])
  | ldaAbs o =>
    obtain ⟨w, hw, rfl⟩ := Option.map_eq_some_iff.mp hr
    rw [Config.exec, hw, Option.bind_some] at hc
    exact hn.load hc
  | ldaAbsX o =>
    obtain ⟨w, hw, rfl⟩ := Option.map_eq_some_iff.mp hr
    rw [Config.exec, hw, Option.bind_some, ← h.x] at hc
    exact hn.load hc
  | staAbs o =>
    obtain ⟨w, hw, rfl⟩ := Option.map_eq_some_iff.mp hr
    rw [Config.exec, hw, Option.bind_some] at hc
    exact hn.store hc
  | pha =>
    rw [← Option.some_inj.mp hr]
    rw [Config.exec, ← h.a] at hc
    exact hn.push_saved hc
  | pla =>
    rw [← Option.some_inj.mp hr]
    exact hn.pull hc
  | jsr o =>
    cases o with
    | addr w => exact absurd hc (by simp [Config.exec])
    | label l =>
      obtain ⟨w, hw, rfl⟩ := Option.map_eq_some_iff.mp hr
      have := h.jsr (B := B) hw hc
      rw [Machine.push_eq, Machine.push_eq] at this
      rw [Machine.exec, Machine.push_eq, Machine.push_eq]
      exact this
  | rts =>
    rw [← Option.some_inj.mp hr]
    exact hn.rts hc
  | jmpAbs o =>
    cases o with
    | addr w => exact absurd hc (by simp [Config.exec])
    | label l =>
      obtain ⟨w, hw, rfl⟩ := Option.map_eq_some_iff.mp hr
      exact h.goto hw hc
  | beq l =>
    obtain ⟨d, hd, rfl⟩ := Option.map_eq_some_iff.mp hr
    rw [Config.exec, ← h.status] at hc
    rw [Machine.exec]
    split at hc
    · next hz =>
      rw [if_pos hz]
      exact h.branch hd hc
    · next hz =>
      rw [if_neg hz, ← Option.some_inj.mp hc]
      exact hn
  | bne l =>
    obtain ⟨d, hd, rfl⟩ := Option.map_eq_some_iff.mp hr
    rw [Config.exec, ← h.status] at hc
    rw [Machine.exec]
    split at hc
    · next hz =>
      rw [if_pos hz, ← Option.some_inj.mp hc]
      exact hn
    · next hz =>
      rw [if_neg hz]
      exact h.branch hd hc

/-- **Step by step.** With the assembled bytes loaded, a step of the listing is a
step of the processor. -/
theorem step {B : Bus β} {bs : List Byte} (hload : Loaded B p.org bs)
    (hasm : p.assemble = some bs) (h : Models p D base page noted m c) {c' : Config β}
    (hc : c.step p B D = some c') :
    ∃ lbl i i', p.lines[c.line]? = some ⟨lbl, .instr i⟩ ∧ p.resolve c.line i = some i'
      ∧ m.fetchInstr B = some (i', { m with pc := p.addr (c.line + 1) })
      ∧ c.exec p B D i = some c'
      ∧ ∃ m', m.step B = some m' ∧ Models p D base page noted m' c' := by
  obtain ⟨lbl, i, hi, hexec⟩ := Config.step_cases hc
  obtain ⟨i', hr, hfetch⟩ := fetchInstr_addr hload hasm hi h.pc
  refine ⟨lbl, i, i', hi, hr, hfetch, hexec, _, ?_, h.exec hr hexec⟩
  rw [Machine.step, hfetch, Option.map_some]

/-- The processor simulates the listing. -/
theorem simulates {B : Bus β} {bs : List Byte} (hload : Loaded B p.org bs)
    (hasm : p.assemble = some bs) :
    Simulates (Machine.step B) (Config.step p B D) (Models p D base page noted) := by
  intro m c c' h hc
  obtain ⟨_, _, _, _, _, _, _, hm⟩ := h.step hload hasm hc
  exact hm

end Models

/-! ## Pairing calls and returns

An observer of the instruction stream can keep a stack of its own: a mark for
every call and every byte pushed, taken off again at a return and a pull. The
observer reads nothing from memory, so that its marks say which call a return
*ought* to belong to. -/

/-- What the observer puts on its stack. -/
inductive Mark where
  /-- A call, by the address of the instruction that makes it. -/
  | call (pc : Word)
  /-- A byte put aside. -/
  | saved (b : Byte)
  deriving Repr, DecidableEq

/-- The marks after the next instruction. -/
def track (B : Bus β) (m : Machine β) (marks : List Mark) : List Mark :=
  match m.fetchInstr B with
  | some (.jsr _, _) => .call m.pc :: marks
  | some (.pha, _) => .saved m.a :: marks
  | some (.rts, _) => marks.tail
  | some (.pla, _) => marks.tail
  | _ => marks

/-- A step under observation. -/
def trackedStep (B : Bus β) (s : Machine β × List Mark) : Option (Machine β × List Mark) :=
  (s.1.step B).map fun m => (m, track B s.1 s.2)

/-- Observation does not interfere. -/
theorem after_trackedStep (B : Bus β) {n : ℕ} {s s' : Machine β × List Mark}
    (h : after (trackedStep B) n s = some s') : after (Machine.step B) n s.1 = some s'.1 := by
  induction n generalizing s with
  | zero => exact congrArg (Option.map Prod.fst) h
  | succ n ih =>
    obtain ⟨s₁, hs, hn⟩ := Option.bind_eq_some_iff.mp h
    obtain ⟨m₁, hm, rfl⟩ := Option.map_eq_some_iff.mp hs
    rw [after_succ_of hm]
    exact ih hn

/-- The mark of a frame. -/
def Frame.mark (p : Listing L) : Frame → Mark
  | call s => .call (p.addr s)
  | saved b => .saved b

/-- **The observer's marks are the call stack**, and every call on it was made
by a call instruction. -/
structure Tracked (p : Listing L) (D : Discipline) (base : Byte) (page : Byte → Byte)
    (noted : List Word) (s : Machine β × List Mark) (c : Config β) : Prop where
  models : Models p D base page noted s.1 c
  marks : s.2 = c.stack.map (Frame.mark p)
  sites : ∀ i, Frame.call i ∈ c.stack →
    ∃ lbl o, p.lines[i]? = some ⟨lbl, .instr (.jsr o)⟩

namespace Tracked

variable [DecidableEq L] {p : Listing L} {D : Discipline} {base : Byte} {page : Byte → Byte}
variable {noted : List Word} {s : Machine β × List Mark} {c : Config β}
variable {B : Bus β} {bs : List Byte}

/-- The observer does to the marks what the instruction does to the stack. -/
theorem track_eq (h : Tracked p D base page noted s c) {i : Instr (Operand L) L}
    {i' : Instr Word Byte} {m' : Machine β} (hr : p.resolve c.line i = some i')
    (hf : s.1.fetchInstr B = some (i', m')) :
    track B s.1 s.2 = (c.stackAfter i).map (Frame.mark p) := by
  unfold track
  rw [hf, h.marks]
  cases i with
  | ldaImm | ldxImm | andImm | inx | txs =>
    rw [← Option.some_inj.mp hr]
    rfl
  | pha =>
    rw [← Option.some_inj.mp hr, h.models.a]
    rfl
  | pla | rts =>
    rw [← Option.some_inj.mp hr]
    exact List.map_tail.symm
  | ldaAbs | ldaAbsX | staAbs | jmpAbs | beq | bne =>
    obtain ⟨_, -, rfl⟩ := Option.map_eq_some_iff.mp hr
    rfl
  | jsr =>
    obtain ⟨_, -, rfl⟩ := Option.map_eq_some_iff.mp hr
    rw [h.models.pc]
    rfl

omit [DecidableEq L] in
/-- Only a call instruction adds a call to the stack. -/
theorem sites_stackAfter (h : Tracked p D base page noted s c) {lbl : Option L}
    {i : Instr (Operand L) L} (hi : p.lines[c.line]? = some ⟨lbl, .instr i⟩) (j : ℕ)
    (hj : Frame.call j ∈ c.stackAfter i) :
    ∃ lbl o, p.lines[j]? = some ⟨lbl, .instr (.jsr o)⟩ := by
  cases i with
  | jsr o =>
    rcases List.mem_cons.mp hj with hj | hj
    · rw [Frame.call.inj hj]
      exact ⟨lbl, o, hi⟩
    · exact h.sites j hj
  | pha =>
    rcases List.mem_cons.mp hj with hj | hj
    · exact absurd hj (by simp)
    · exact h.sites j hj
  | pla | rts => exact h.sites j (List.mem_of_mem_tail hj)
  | _ => exact h.sites j hj

/-- **A step under observation** keeps the marks and the call stack together. -/
theorem simulates (hload : Loaded B p.org bs) (hasm : p.assemble = some bs) :
    Simulates (trackedStep B) (Config.step p B D) (Tracked p D base page noted) := by
  intro s c c' h hc
  obtain ⟨lbl, i, i', hi, hr, hf, hexec, m', hm', hmodels⟩ := h.models.step hload hasm hc
  refine ⟨(m', track B s.1 s.2), ?_, hmodels, ?_, fun j hj => ?_⟩
  · rw [trackedStep, hm', Option.map_some]
  · rw [h.track_eq hr hf, Config.exec_stack hexec]
  · rw [Config.exec_stack hexec] at hj
    exact h.sites_stackAfter hi j hj

/-- **Every return goes behind its call**: what the observer has on top at a
return is the call it belongs to, and the processor goes to the instruction
after that one. -/
theorem returns (hload : Loaded B p.org bs) (hasm : p.assemble = some bs)
    (h : Tracked p D base page noted s c) {c' : Config β} (hc : c.step p B D = some c')
    {m₁ : Machine β} (hrts : s.1.fetchInstr B = some (.rts, m₁)) :
    ∃ pc rest m', s.2 = .call pc :: rest ∧ s.1.step B = some m' ∧ m'.pc = pc + 3 := by
  obtain ⟨lbl, i, i', hi, hr, hf, hexec, m', hm', hmodels⟩ := h.models.step hload hasm hc
  obtain ⟨rfl, -⟩ := Prod.mk.inj (Option.some_inj.mp (hf.symm.trans hrts))
  cases i with
  | rts =>
    obtain ⟨j, rest, hst, rfl⟩ := Config.of_ret hexec
    obtain ⟨lbl', o, hj⟩ := h.sites j (hst ▸ List.mem_cons_self)
    refine ⟨p.addr j, rest.map (Frame.mark p), m', ?_, hm', ?_⟩
    · rw [h.marks, hst]
      rfl
    · rw [hmodels.pc, Listing.addr_succ hj]
      rfl
  | _ => exact absurd hr (by simp [Listing.resolve, Instr.resolve])

/-- **Every pull restores the byte put aside for it.** -/
theorem restores (hload : Loaded B p.org bs) (hasm : p.assemble = some bs)
    (h : Tracked p D base page noted s c) {c' : Config β} (hc : c.step p B D = some c')
    {m₁ : Machine β} (hpla : s.1.fetchInstr B = some (.pla, m₁)) :
    ∃ b rest m', s.2 = .saved b :: rest ∧ s.1.step B = some m' ∧ m'.a = b := by
  obtain ⟨lbl, i, i', hi, hr, hf, hexec, m', hm', hmodels⟩ := h.models.step hload hasm hc
  obtain ⟨rfl, -⟩ := Prod.mk.inj (Option.some_inj.mp (hf.symm.trans hpla))
  cases i with
  | pla =>
    obtain ⟨b, rest, hst, rfl⟩ := Config.of_pull hexec
    refine ⟨b, rest.map (Frame.mark p), m', ?_, hm', ?_⟩
    · rw [h.marks, show c.stack = _ from hst]
      rfl
    · rw [hmodels.a]
      rfl
  | _ => exact absurd hr (by simp [Listing.resolve, Instr.resolve])

end Tracked

end Asm
