import Eater6502.Driver
import Eater6502.VasmRom

/-!
# Programs that only tell the VIA what to do

The programs in `roms/complete` never ask the LCD anything. Each of them is a script: some
bytes for some registers of the VIA, in some order, whatever the LCD does in the meantime.
This is what such a program comes to, however it is written: as stores one after the other,
or as calls of a subroutine that stores.

A script that sends bytes to the LCD respects its demands on every single access, and the
LCD takes in these bytes (`log_dialogue`), but nobody waits for it to be ready
(`not_readyBetween`).

`Performs` is what is said of a run: it never gets stuck, what it has done to the board so
far is always a part of the script, and it comes to rest behind the whole of it.
-/

namespace Eater

open Isa Cpu Asm Run

/-! ## Scripts -/

/-- The board after some bytes have been stored in registers of the VIA. -/
def Board.writes (b : Board) (ws : List (Reg × Byte)) : Board :=
  ws.foldl (fun b w => b.store w.1 w.2) b

theorem Board.writes_append (b : Board) (ws ws' : List (Reg × Byte)) :
    b.writes (ws ++ ws') = (b.writes ws).writes ws' := List.foldl_append

/-- **A script touches nothing but the VIA.** -/
theorem Board.writes_frame (b : Board) (ws : List (Reg × Byte)) :
    (b.writes ws).ram = b.ram ∧ (b.writes ws).polls = b.polls := by
  induction ws generalizing b with
  | nil => exact ⟨rfl, rfl⟩
  | cons w ws ih => exact ih (b.store w.1 w.2)

/-- The VIA is set up for the LCD. -/
def setUp : List (Reg × Byte) := [(.ddrb, 0b11111111), (.ddra, 0b11100000)]

/-- A byte is sent. -/
def sends (r : Routine) (v : Byte) : List (Reg × Byte) :=
  [(.portb, v), (.porta, r.rs), (.porta, r.rs ||| E), (.porta, r.rs)]

/-- **A script for the LCD**: the VIA is set up, and some bytes are sent. -/
def dialogue (s : List (Routine × Byte)) : List (Reg × Byte) :=
  setUp ++ s.flatMap fun t => sends t.1 t.2

/-! ### What the LCD sees of it -/

/-- The VIA between two bytes, when port B is an output. -/
structure Via.Sending (v : Via) : Prop extends v.Idle where
  ddrb : v.ddrb = 0xff

section Dialogue

variable {b : Board}

/-- What is logged when a byte is sent. -/
theorem log_sends (b : Board) (r : Routine) (v : Byte) :
    ∃ l, (b.writes (sends r v)).log = b.log ++ l ∧ (b.via.Sending →
      strobes l = [⟨r.isData, v⟩] ∧ ∀ e ∈ l, e.Proper ∧ e.isStore = true) := by
  refine ⟨[.store .portb b.via (b.via.set .portb v),
    .store .porta (b.via.set .portb v) ((b.via.set .portb v).set .porta r.rs),
    .store .porta ((b.via.set .portb v).set .porta r.rs)
      ((b.via.set .portb v).set .porta (r.rs ||| E)),
    .store .porta ((b.via.set .portb v).set .porta (r.rs ||| E))
      ((b.via.set .portb v).set .porta r.rs)], ?_, fun hv => ?_⟩
  · show ((((b.log ++ [_]) ++ [_]) ++ [_]) ++ [_]) = _
    rw [List.append_assoc, List.append_assoc, List.append_assoc]
    rfl
  · have he₁ : (b.via.set .portb v).e = false := Via.Idle.e ⟨hv.ddra, hv.low⟩
    have h₂ : ((b.via.set .portb v).set .porta r.rs).Control r.isData false false :=
      r.control_rs hv.ddra rfl
    have h₃ : ((b.via.set .portb v).set .porta (r.rs ||| E)).Control r.isData false true :=
      r.control_rs_e hv.ddra rfl
    refine ⟨?_, ?_⟩
    · have hstrobe := strobe?_send (b := ((b.store .portb v).store .porta (r.rs ||| E))) (r := r)
        hv.ddra hv.ddrb rfl
      rw [strobes, List.filterMap_cons_none (Access.strobe?_of_low hv.e),
        List.filterMap_cons_none (Access.strobe?_of_low he₁),
        List.filterMap_cons_none (Access.strobe?_of_low h₂.e)]
      exact List.filterMap_cons_some hstrobe
    · have hcalm : ((b.via.set .portb v).set .porta (r.rs ||| E)).NoContention := fun hrw _ =>
        absurd (h₃.rw.symm.trans hrw) Bool.false_ne_true
      refine List.forall_mem_cons.mpr ⟨⟨Access.proper_low hv.e he₁, rfl⟩, ?_⟩
      refine List.forall_mem_cons.mpr ⟨⟨Access.proper_low he₁ h₂.e, rfl⟩, ?_⟩
      refine List.forall_mem_cons.mpr ⟨⟨Access.proper_rise h₂ h₃ hcalm, rfl⟩, ?_⟩
      exact List.forall_mem_singleton.mpr
        ⟨Access.proper_fall h₃ h₂ rfl rfl (.inr hv.ddrb), rfl⟩

theorem sending_sends (hv : b.via.Sending) (r : Routine) (v : Byte) :
    (b.writes (sends r v)).via.Sending :=
  ⟨⟨hv.ddra, r.rs_low⟩, hv.ddrb⟩

/-- The bytes of a script, from a VIA that is set up. -/
theorem log_flatMap_sends (hv : b.via.Sending) (s : List (Routine × Byte)) :
    ∃ l, (b.writes (s.flatMap fun t => sends t.1 t.2)).log = b.log ++ l
      ∧ strobes l = s.map (fun t => ⟨t.1.isData, t.2⟩)
      ∧ ∀ e ∈ l, e.Proper ∧ e.isStore = true := by
  induction s generalizing b with
  | nil => exact ⟨[], (List.append_nil _).symm, rfl, List.forall_mem_nil _⟩
  | cons t s ih =>
    obtain ⟨l₁, hlog₁, hspec⟩ := log_sends b t.1 t.2
    obtain ⟨hstrobes₁, hall₁⟩ := hspec hv
    obtain ⟨l₂, hlog₂, hstrobes₂, hall₂⟩ := ih (sending_sends hv t.1 t.2)
    refine ⟨l₁ ++ l₂, ?_, ?_, List.forall_mem_append.mpr ⟨hall₁, hall₂⟩⟩
    · rw [List.flatMap_cons, Board.writes_append, hlog₂, hlog₁, List.append_assoc]
    · rw [strobes_append, hstrobes₁, hstrobes₂]
      rfl

/-- What is logged of a whole script. -/
theorem log_dialogue (hv : b.via = .cleared) (hlog : b.log = []) (s : List (Routine × Byte)) :
    strobes (b.writes (dialogue s)).log = s.map (fun t => ⟨t.1.isData, t.2⟩)
      ∧ ∀ e ∈ (b.writes (dialogue s)).log, e.Proper ∧ e.isStore = true := by
  have hsetUp : (b.writes setUp).log = [.store .ddrb .cleared ⟨0, 0, 0xff, 0⟩,
      .store .ddra ⟨0, 0, 0xff, 0⟩ ⟨0, 0, 0xff, 0xe0⟩] := by
    show (b.log ++ [.store .ddrb b.via (b.via.set .ddrb 0xff)])
      ++ [.store .ddra (b.via.set .ddrb 0xff) ((b.via.set .ddrb 0xff).set .ddra 0xe0)] = _
    rw [hlog, hv]
    rfl
  have hsending : (b.writes setUp).via.Sending := by
    refine ⟨⟨rfl, ?_⟩, rfl⟩
    show b.via.porta &&& E = 0
    rw [hv]
    decide
  obtain ⟨l, hl, hstrobes, hall⟩ := log_flatMap_sends hsending s
  rw [dialogue, Board.writes_append, hl, hsetUp]
  refine ⟨?_, ?_⟩
  · rw [strobes_append, hstrobes]
    rfl
  · refine List.forall_mem_append.mpr ⟨List.forall_mem_cons.mpr ⟨?_, ?_⟩, hall⟩
    · exact ⟨Access.proper_low (by decide) (by decide), rfl⟩
    · exact List.forall_mem_singleton.mpr ⟨Access.proper_low (by decide) (by decide), rfl⟩

/-- Who does not ask does not know. -/
theorem not_readyBetween {log : List Access} (hstores : ∀ e ∈ log, e.isStore = true)
    (hstrobes : strobes log ≠ []) : ¬ReadyBetween log := by
  intro hready
  obtain ⟨s, hs⟩ := List.exists_mem_of_ne_nil _ hstrobes
  obtain ⟨e, he, hes⟩ := List.mem_filterMap.mp hs
  obtain ⟨pre, post, rfl⟩ := List.append_of_mem he
  obtain ⟨pre₁, q, mid, rfl, hq, -⟩ := hready pre e post rfl (Option.isSome_of_mem hes)
  have hstore := hstores q (by simp)
  cases q with
  | store r v v' => exact Bool.false_ne_true hq
  | read v b => exact Bool.false_ne_true hstore

end Dialogue

/-! ## Runs that perform a script -/

/-- A part of a script has been performed. -/
def Along (b : Board) (ws : List (Reg × Byte)) (c : Config Board) : Prop :=
  ∃ pre, pre <+: ws ∧ c.bus = b.writes pre

/-- **A run performs a script** on the board and comes to rest. -/
structure Performs (step : Machine Board → Option (Machine Board)) (m : Machine Board)
    (ws : List (Reg × Byte)) (pc : Word) : Prop where
  every : ∀ i, ∃ m', after step i m = some m' ∧ ∃ pre, pre <+: ws ∧ m'.bus = m.bus.writes pre
  rest : ∃ n, ∀ k, ∃ m', after step (n + k) m = some m' ∧ m'.pc = pc ∧ m'.bus = m.bus.writes ws

section Runs

variable {b : Board} {ws ws' : List (Reg × Byte)} {c : Config Board}

theorem Along.append (h : Along b ws c) (ws' : List (Reg × Byte)) : Along b (ws ++ ws') c := by
  obtain ⟨pre, hpre, hc⟩ := h
  exact ⟨pre, hpre.trans (List.prefix_append ws ws'), hc⟩

theorem Along.behind (h : Along (b.writes ws) ws' c) : Along b (ws ++ ws') c := by
  obtain ⟨pre, hpre, hc⟩ := h
  exact ⟨ws ++ pre, List.prefix_append_right_inj ws |>.mpr hpre, by rw [hc, Board.writes_append]⟩

/-- Nothing has been performed yet. -/
theorem along_of_eq (hc : c.bus = b) : Along b ws c := ⟨[], List.nil_prefix, hc⟩

/-- All of it has been performed. -/
theorem along_of_writes (hc : c.bus = b.writes ws) : Along b ws c := ⟨ws, List.prefix_rfl, hc⟩

/-- One script behind another one. -/
theorem leads_append {step : Config Board → Option (Config Board)} {n n' : ℕ}
    {c₁ c₂ : Config Board} (h : Leads step (Along b ws) n c c₁)
    (h' : Leads step (Along (b.writes ws) ws') n' c₁ c₂) :
    Leads step (Along b (ws ++ ws')) (n + n') c c₂ :=
  (h.mono fun _ hc => hc.append ws').trans (h'.mono fun _ hc => hc.behind)

variable {L : Type} [DecidableEq L] {p : Listing L} {B : Bus Board} {D : Discipline}

/-- **The processor performs what the listing performs.** -/
theorem performs_of_leads {bs : List Byte} (hload : Loaded B p.org bs) (hasm : p.assemble = some bs)
    {base : Byte} {page : Byte → Byte} {noted : List Word} {m : Machine Board}
    (hm : Models p D base page noted m c) {n : ℕ} {c' : Config Board}
    (hpath : Leads (Config.step p B D) (Along c.bus ws) n c c')
    (hrest : Config.step p B D c' = some c') (hbus : c'.bus = c.bus.writes ws) {i : ℕ}
    (hi : c'.line = i) : Performs (Machine.step B) m ws (p.addr i) where
  every i := by
    obtain ⟨t, ht, hcases⟩ := hpath.rest (fun _ => ([] : List Unit)) hrest rfl i
    obtain ⟨m', hm', hmodels⟩ := (Models.simulates hload hasm).after_lift hm ht
    have halong : Along c.bus ws t := by
      rcases hcases with ⟨hP, -⟩ | ⟨rfl, -⟩
      · exact hP
      · exact along_of_writes hbus
    obtain ⟨pre, hpre, ht⟩ := halong
    exact ⟨m', hm', pre, hpre, by rw [hmodels.bus, ht, hm.bus]⟩
  rest := by
    refine ⟨n, fun k => ?_⟩
    obtain ⟨m', hm', hmodels⟩ := (Models.simulates hload hasm).after_lift hm
      ((after_add_of hpath.after_eq k).trans (after_of_fixed hrest k))
    exact ⟨m', hm', by rw [hmodels.pc, hi], by rw [hmodels.bus, hbus, hm.bus]⟩

/-- A step that does not touch the board. -/
theorem Performs.of_step {step : Machine Board → Option (Machine Board)} {m m₁ : Machine Board}
    {pc : Word} (h : Performs step m₁ ws pc) (hm : step m = some m₁) (hbus : m₁.bus = m.bus) :
    Performs step m ws pc where
  every i := by
    cases i with
    | zero => exact ⟨m, rfl, [], List.nil_prefix, rfl⟩
    | succ i =>
      obtain ⟨m', hm', pre, hpre, hb⟩ := h.every i
      exact ⟨m', by rw [after_succ_of hm, hm'], pre, hpre, by rw [hb, hbus]⟩
  rest := by
    obtain ⟨n, hn⟩ := h.rest
    refine ⟨n + 1, fun k => ?_⟩
    obtain ⟨m', hm', hpc, hb⟩ := hn k
    exact ⟨m', by rw [Nat.add_right_comm, after_succ_of hm, hm'], hpc, by rw [hb, hbus]⟩

end Runs

/-! ### What is heard of them -/

/-- A byte as the LCD takes it in. -/
def strobeOf (t : Routine × Byte) : Strobe := ⟨t.1.isData, t.2⟩

/-- The log of a part is a part of the log. -/
theorem log_prefix {b : Board} {pre ws : List (Reg × Byte)} (h : pre <+: ws) :
    (b.writes pre).log <+: (b.writes ws).log := by
  obtain ⟨post, rfl⟩ := h
  rw [Board.writes_append]
  generalize b.writes pre = b'
  induction post generalizing b' with
  | nil => exact List.prefix_rfl
  | cons w post ih => exact (List.prefix_append _ _).trans (ih (b'.store w.1 w.2))

/-- **What the LCD hears of a run**: in every state, some of the bytes, in order and each of
them properly. Nobody has asked it, so that no strobe waited for it. In the end it has heard
all of them. -/
structure Heard (step : Machine Board → Option (Machine Board)) (m : Machine Board)
    (s : List (Routine × Byte)) : Prop where
  every : ∀ i, ∃ m', after step i m = some m' ∧ strobes m'.bus.log <+: s.map strobeOf
    ∧ (∀ e ∈ m'.bus.log, e.Proper) ∧ m'.bus.polls = m.bus.polls
    ∧ (ReadyBetween m'.bus.log → strobes m'.bus.log = [])
  all : ∃ n, ∀ k, ∃ m', after step (n + k) m = some m' ∧ strobes m'.bus.log = s.map strobeOf

/-- **A dialogue is heard.** -/
theorem Performs.heard {step : Machine Board → Option (Machine Board)} {m : Machine Board}
    {s : List (Routine × Byte)} {pc : Word} (h : Performs step m (dialogue s) pc)
    (hv : m.bus.via = .cleared) (hlog : m.bus.log = []) : Heard step m s := by
  obtain ⟨hstrobes, hall⟩ := log_dialogue hv hlog s
  refine ⟨fun i => ?_, ?_⟩
  · obtain ⟨m', hm', pre, hpre, hb⟩ := h.every i
    have hlog' : m'.bus.log <+: (m.bus.writes (dialogue s)).log := by
      rw [hb]
      exact log_prefix hpre
    refine ⟨m', hm', ?_, fun e he => (hall e (hlog'.mem he)).1, ?_, fun hready => ?_⟩
    · exact (hlog'.filterMap Access.strobe?).trans (by rw [← strobes, hstrobes]; exact List.prefix_rfl)
    · rw [hb, (m.bus.writes_frame pre).2]
    · by_contra hne
      exact not_readyBetween (fun e he => (hall e (hlog'.mem he)).2) hne hready
  · obtain ⟨n, hn⟩ := h.rest
    refine ⟨n, fun k => ?_⟩
    obtain ⟨m', hm', -, hb⟩ := hn k
    exact ⟨m', hm', by rw [hb]; exact hstrobes⟩

/-! ## The code of a script -/

/-- Some code is in a listing, from a line on. -/
def HasAt {L : Type} (p : Listing L) (i : ℕ) (code : List (Item L)) : Prop :=
  ∀ j it, code[j]? = some it → ∃ lbl, p.lines[i + j]? = some ⟨lbl, it⟩

/-- The code that performs a script. -/
def stores {L : Type} (ws : List (Reg × Byte)) : List (Item L) :=
  ws.flatMap fun w => [.instr (.ldaImm w.2), .instr (.staAbs (.addr w.1.addr))]

section Code

variable {L : Type} {p : Listing L} {i : ℕ} {it : Item L} {code code' : List (Item L)}

theorem HasAt.head (h : HasAt p i (it :: code)) : ∃ lbl, p.lines[i]? = some ⟨lbl, it⟩ :=
  h 0 it rfl

theorem HasAt.tail (h : HasAt p i (it :: code)) : HasAt p (i + 1) code := by
  intro j it' hj
  rw [Nat.add_assoc, Nat.add_comm 1]
  exact h (j + 1) it' hj

theorem HasAt.left (h : HasAt p i (code ++ code')) : HasAt p i code := by
  intro j it hj
  refine h j it ?_
  rw [List.getElem?_append_left (List.getElem?_eq_some_iff.mp hj).1, hj]

theorem HasAt.right (h : HasAt p i (code ++ code')) : HasAt p (i + code.length) code' := by
  intro j it hj
  rw [Nat.add_assoc]
  refine h (code.length + j) it ?_
  rw [List.getElem?_append_right (Nat.le_add_right _ _), Nat.add_sub_cancel_left, hj]

/-- The code of the lines from one on. -/
theorem hasAt_of_drop {lines : List (Line L)} (h : p.lines.drop i = lines) :
    HasAt p i (lines.map Line.item) := by
  intro j it hj
  rw [List.getElem?_map, Option.map_eq_some_iff] at hj
  obtain ⟨ln, hln, rfl⟩ := hj
  refine ⟨ln.label, ?_⟩
  rw [← List.getElem?_drop, h, hln]

variable [DecidableEq L] {D : Discipline} {rom : Word → Byte} {lcd : ℕ → Byte}
variable {a x y : Byte} {f : Flags} {st : List Frame} {b : Board}

/-- A store in a register of the VIA. -/
theorem step_store (hD : ∀ r : Reg, D.stores r.addr = true) {r : Reg}
    (h : ∃ lbl, p.lines[i]? = some ⟨lbl, .instr (.staAbs (.addr r.addr))⟩) :
    Config.step p (Board.bus rom lcd) D ⟨a, x, y, f, i, st, b⟩
      = some ⟨a, x, y, f, i + 1, st, b.store r a⟩ := by
  obtain ⟨lbl, h⟩ := h
  rw [← Board.write_addr b r a]
  exact Config.step_staAbs h (hD r)

variable (rom lcd st) in
/-- **Stores one after the other perform their script.** -/
theorem stores_leads (hD : ∀ r : Reg, D.stores r.addr = true) {ws : List (Reg × Byte)}
    (h : HasAt p i (stores ws)) :
    ∃ a' f', Leads (Config.step p (Board.bus rom lcd) D) (Along b ws) (2 * ws.length)
      ⟨a, x, y, f, i, st, b⟩ ⟨a', x, y, f', i + 2 * ws.length, st, b.writes ws⟩ := by
  induction ws generalizing i a f b with
  | nil => exact ⟨a, f, .refl _⟩
  | cons w ws ih =>
    obtain ⟨lbl, hlda⟩ := h.head
    have htail : HasAt p (i + 1 + 1) (stores ws) := h.tail.tail
    obtain ⟨a', f', hrest⟩ := ih (a := w.2) (f := f.result w.2) (b := b.store w.1 w.2) htail
    have hsteps : Leads (Config.step p (Board.bus rom lcd) D) (Along b [w]) 2
        ⟨a, x, y, f, i, st, b⟩ ⟨w.2, x, y, f.result w.2, i + 1 + 1, st, b.store w.1 w.2⟩ :=
      .cons (along_of_eq rfl) (Config.step_ldaImm hlda)
        (.single (along_of_eq rfl) (step_store hD h.tail.head))
    refine ⟨a', f', ?_⟩
    have hboth := leads_append hsteps hrest
    rw [List.length_cons, Nat.mul_succ, Nat.add_comm (2 * _) 2, ← Nat.add_assoc i 2]
    exact hboth

end Code

end Eater
