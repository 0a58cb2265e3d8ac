import Eater6502.Script

/-!
# The programs in `roms/complete`

What was built on the way to `prog.s`, from the listing to what the board does.
`rotate_leds_on_via.s` shows a pattern on port B. `LCD_simple_text.s` sends a text to the
LCD by stores one after the other, `lcd_w_ram.s` by calls of two subroutines. The two of
them are written for any bytes here (`inlined`, `calling`), and the listings are instances.

Each is assembled, the file goes into the ROM, and the board is switched on. Then both ways
to write it perform the same script (`inlined_works`, `calling_works`): calls and the stack
they need make no difference to the VIA. The image that is kept beside the listings is what
the assembler makes of the second one (`romBin_delivers`).
-/

namespace Eater

open Isa Cpu Asm Run

/-! ## Listings that can be assembled -/

section Assembling

variable {L : Type} [DecidableEq L]

/-- An item without a branch, all labels of which are among some others, and which has no
address in the zero page. -/
def sound (ls : List L) : Item L → Bool
  | .bytes _ => true
  | .instr (.beq _) | .instr (.bne _) => false
  | .instr i => (Vasm.addresses i).all fun a => match a with
    | .label l => decide (l ∈ ls)
    | .addr w => decide (0x100 ≤ w.toNat)

variable {p : Listing L}

/-- A label that is there has a value. -/
theorem isSome_symbol {l : L} (hl : l ∈ p.lines.filterMap Line.label) :
    ∃ w, p.symbol l = some w := by
  obtain ⟨ln, hln, hlabel⟩ := List.mem_filterMap.mp hl
  have hindex : (p.index l).isSome = true := by
    rw [Listing.index, List.findIdx?_isSome]
    exact List.any_eq_true.mpr ⟨ln, hln, beq_iff_eq.mpr hlabel⟩
  obtain ⟨i, hi⟩ := Option.isSome_iff_exists.mp hindex
  exact ⟨p.addr i, by rw [Listing.symbol, hi, Option.map_some]⟩

theorem isSome_operand {i : Instr (Asm.Operand L) L} {a : Asm.Operand L}
    (h : sound (p.lines.filterMap Line.label) (.instr i) = true) (ha : a ∈ Vasm.addresses i) :
    ∃ w, p.operand a = some w := by
  cases a with
  | addr w => exact ⟨w, rfl⟩
  | label l =>
    refine isSome_symbol ?_
    cases i <;> first
      | exact absurd ha List.not_mem_nil
      | exact of_decide_eq_true (List.all_eq_true.mp h _ ha)

/-- Such an item can be assembled. -/
theorem isSome_emit {it : Item L} (h : sound (p.lines.filterMap Line.label) it = true) (k : ℕ) :
    (p.emit k it).isSome = true := by
  cases it with
  | bytes => rfl
  | instr i =>
    rw [Listing.emit, Option.isSome_map]
    cases i with
    | ldaAbs a | ldaAbsX a | staAbs a | jsr a | jmpAbs a =>
      obtain ⟨w, hw⟩ := isSome_operand h List.mem_cons_self
      rw [Listing.resolve, Instr.resolve, hw]
      rfl
    | beq | bne => exact absurd h Bool.false_ne_true
    | _ => rfl

theorem emits_of_sound {lines : List (Line L)}
    (h : ∀ ln ∈ lines, sound (p.lines.filterMap Line.label) ln.item = true) (k : ℕ) :
    p.Emits k lines := by
  induction lines generalizing k with
  | nil => trivial
  | cons ln lines ih =>
    exact ⟨isSome_emit (h ln List.mem_cons_self) k,
      ih (fun ln' hln' => h ln' (List.mem_cons_of_mem ln hln')) (k + 1)⟩

/-- **A listing of such items can be assembled.** -/
theorem assembles_of_sound (hlow : 0x200 ≤ p.org.toNat)
    (hhigh : p.org.toNat + offset p.lines p.lines.length < 0x10000)
    (hlabels : (p.lines.filterMap Line.label).Nodup)
    (h : ∀ ln ∈ p.lines, sound (p.lines.filterMap Line.label) ln.item = true) :
    ∃ bs, Vasm.Assembles p bs ∧ bs.length = offset p.lines p.lines.length := by
  obtain ⟨bs, hbs, hlen⟩ := Listing.emitFrom_of (emits_of_sound h 0)
  refine ⟨bs, ⟨hlow, hhigh, fun ln hln i hi w hw => ?_, hlabels, hbs⟩, hlen⟩
  have hline := h ln hln
  rw [hi] at hline
  cases i <;> first
    | exact absurd hw List.not_mem_nil
    | exact of_decide_eq_true (List.all_eq_true.mp hline _ hw)

end Assembling

/-! ## From the listing to the board -/

/-- A file in the ROM. -/
def burn (file : List Byte) (w : Word) : Byte := file.getD (w - 0x8000).toNat 0

/-- **The board as the processor leaves reset**, with anything in the ROM. -/
def switchOn (rom : Word → Byte) (lcd : ℕ → Byte) (m : Machine Board) : Machine Board :=
  Machine.reset (Board.bus rom lcd)
    { m with bus := { m.bus with via := .cleared, polls := 0, log := [] }, written := [] }

/-- **The board sends some bytes** with some ROM, and comes to rest at an address, whatever
the LCD does and whatever was in the processor and in memory. -/
def Delivers (rom : Word → Byte) (s : List (Routine × Byte)) (pc : Word) : Prop :=
  ∀ lcd m, Performs (Machine.step (Board.bus rom lcd)) (switchOn rom lcd m) (dialogue s) pc
    ∧ Heard (Machine.step (Board.bus rom lcd)) (switchOn rom lcd m) s

/-- **A program works**: the assembler makes a file of its listing, and with that in the ROM
the board sends some bytes and comes to rest at a label. -/
def Works {L : Type} [DecidableEq L] (p : Listing L) (reset loop : L)
    (s : List (Routine × Byte)) : Prop :=
  ∀ ly : Vasm.Layouts L, (∀ l, Vasm.Above (ly.env l)) →
    ∃ env file pc, Vasm.vasm Vasm.defaults (Vasm.withVectors p reset) 3 ly = some (env, file)
      ∧ p.symbol loop = some pc ∧ Delivers (burn file) s pc

section Works

variable {L : Type} {p : Listing L} {D : Discipline} {m : Machine Board}

/-- A processor at a line, with nothing on the stack as far as it is concerned. -/
theorem models_at {i : ℕ} (hpc : m.pc = p.addr i) : Models p D m.sp m.page1 m.written m
    ⟨m.a, m.x, m.y, m.p, i, [], m.bus⟩ :=
  ⟨rfl, rfl, rfl, rfl, hpc, rfl, StackPage.empty D m⟩

variable [DecidableEq L] {bs : List Byte} {reset loop : L} {s : List (Routine × Byte)} {pc : Word}

/-- A listing in the ROM, switched on. -/
theorem switchOn_eq {file : List Byte} (h : Vasm.Assembles p bs) (horg : p.org = 0x8000)
    (hfit : bs.length ≤ 0x7ffc) (hfile : file = bs ++ (List.replicate
      (0xfffc - (p.org.toNat + bs.length)) 0 ++ [lo (p.addr 0), hi (p.addr 0), 0x00, 0x00]))
    (lcd : ℕ → Byte) : Loaded (Board.bus (burn file) lcd) p.org bs
      ∧ ∀ m, (switchOn (burn file) lcd m).pc = p.addr 0
        ∧ (switchOn (burn file) lcd m).bus
          = { m.bus with via := .cleared, polls := 0, log := [] } := by
  have hburnt : Vasm.Burnt (Board.bus (burn file) lcd) p.org file := by
    rw [horg]
    exact fun s _ hw => Board.read_rom s hw
  have hle : p.org.toNat + bs.length ≤ 0xfffc := by
    rw [horg]
    exact Nat.add_le_add_left hfit 0x8000
  obtain ⟨hload, hboot⟩ := hburnt.boots hfile h.low hle
  refine ⟨hload, fun m => ?_⟩
  unfold switchOn
  rw [hboot]
  exact ⟨rfl, rfl⟩

/-- The board sends what the code of the listing in its ROM performs. -/
theorem delivers_of {file : List Byte} (h : Vasm.Assembles p bs) (horg : p.org = 0x8000)
    (hfit : bs.length ≤ 0x7ffc) (hfile : file = bs ++ (List.replicate
      (0xfffc - (p.org.toNat + bs.length)) 0 ++ [lo (p.addr 0), hi (p.addr 0), 0x00, 0x00]))
    (hrun : ∀ rom lcd, Loaded (Board.bus rom lcd) p.org bs → ∀ m : Machine Board,
      m.pc = p.addr 0 → Performs (Machine.step (Board.bus rom lcd)) m (dialogue s) pc) :
    Delivers (burn file) s pc := by
  intro lcd m
  obtain ⟨hload, hon⟩ := switchOn_eq h horg hfit hfile lcd
  obtain ⟨hpc, hbus⟩ := hon m
  have hperforms := hrun _ lcd hload _ hpc
  exact ⟨hperforms, hperforms.heard (by rw [hbus]) (by rw [hbus])⟩

/-- A program works if its code does what it should. -/
theorem works_of (h : Vasm.Assembles p bs) (horg : p.org = 0x8000) (hfit : bs.length ≤ 0x7ffc)
    (hreset : p.symbol reset = some (p.addr 0)) (hloop : p.symbol loop = some pc)
    (hrun : ∀ rom lcd, Loaded (Board.bus rom lcd) p.org bs → ∀ m : Machine Board,
      m.pc = p.addr 0 → Performs (Machine.step (Board.bus rom lcd)) m (dialogue s) pc) :
    Works p reset loop s := by
  intro ly hly
  have hle : p.org.toNat + bs.length ≤ 0xfffc := by
    rw [horg]
    exact Nat.add_le_add_left hfit 0x8000
  obtain ⟨env, -, hvasm⟩ := Vasm.vasm_listing h hle hreset hly
  exact ⟨env, _, pc, hvasm, hloop, delivers_of h horg hfit rfl hrun⟩

end Works

/-! ## Stores one after the other -/

/-- Some items, with a label in front of the first one. -/
def labelled {L : Type} (l : L) : List (Item L) → List (Line L)
  | [] => []
  | it :: its => ⟨some l, it⟩ :: its.map fun it => ⟨none, it⟩

section Labelled

variable {L : Type} (l : L) (its : List (Item L))

theorem map_labelled : (labelled l its).map Line.item = its := by
  cases its with
  | nil => rfl
  | cons it its =>
    show it :: (its.map fun it => (⟨none, it⟩ : Line L)).map Line.item = it :: its
    rw [List.map_map]
    exact congrArg (it :: ·) (List.map_id its)

theorem length_labelled : (labelled l its).length = its.length := by
  rw [← List.length_map Line.item, map_labelled]

/-- The line that has the label. -/
theorem line_labelled (it : Item L) (pre post : List (Line L)) :
    (pre ++ (labelled l (it :: its) ++ post))[pre.length]? = some ⟨some l, it⟩ := by
  rw [List.getElem?_append_right (Nat.le_refl _), Nat.sub_self]
  rfl

theorem label_labelled {it : Item L} : (labelled l (it :: its)).filterMap Line.label = [l] := by
  show l :: (its.map fun it => (⟨none, it⟩ : Line L)).filterMap Line.label = [l]
  rw [List.filterMap_map]
  exact congrArg (l :: ·) (List.filterMap_eq_nil_iff.mpr fun _ _ => rfl)

end Labelled

/-- The labels of `LCD_simple_text.s`. -/
inductive TextLabel where
  | reset
  | loop
  deriving Repr, DecidableEq

/-- **`LCD_simple_text.s`**, for any bytes. -/
def inlined (s : List (Routine × Byte)) : Listing TextLabel where
  org := 0x8000
  lines := labelled .reset (stores (dialogue s))
    ++ labelled .loop [.instr (.jmpAbs (.label .loop))]

/-! ## Stores in subroutines -/

/-- The labels of `lcd_w_ram.s`. -/
inductive RamLabel where
  | reset
  | loop
  | lcdInstruction
  | printChar
  deriving Repr, DecidableEq

/-- The label of a routine. -/
def Routine.target : Routine → RamLabel
  | lcdInstruction => .lcdInstruction
  | printChar => .printChar

/-- What a routine of it does. It does not wait. -/
def Routine.code (r : Routine) : List (Item RamLabel) :=
  .instr (.staAbs (.addr PORTB))
    :: (stores [(.porta, r.rs), (.porta, r.rs ||| E), (.porta, r.rs)] ++ [.instr .rts])

/-- The calls that send some bytes. -/
def calls (s : List (Routine × Byte)) : List (Item RamLabel) :=
  s.flatMap fun t => [.instr (.ldaImm t.2), .instr (.jsr (.label t.1.target))]

/-- **`lcd_w_ram.s`**, for any bytes. -/
def calling (s : List (Routine × Byte)) : Listing RamLabel where
  org := 0x8000
  lines := labelled .reset (.instr (.ldxImm 0xff) :: .instr .txs :: (stores setUp ++ calls s))
    ++ labelled .loop [.instr (.jmpAbs (.label .loop))]
    ++ labelled .lcdInstruction (Routine.code .lcdInstruction)
    ++ labelled .printChar (Routine.code .printChar)

/-! ## The listings -/

/-- The bytes of a string, sent as characters. -/
def text (s : String) : List (Routine × Byte) :=
  s.toList.map fun c => (.printChar, BitVec.ofNat 8 c.toNat)

/-- A line without a label. -/
abbrev instr {L : Type} (i : Instr (Asm.Operand L) L) : Line L := ⟨none, .instr i⟩

/-- **The listing of `LCD_simple_text.s`**, line by line. -/
def lcdSimpleText : Listing TextLabel where
  org := 0x8000
  lines := [
    -- init VIA
    ⟨some .reset, .instr (.ldaImm 0b11111111)⟩,
    instr (.staAbs (.addr DDRB)),
    instr (.ldaImm 0b11100000),
    instr (.staAbs (.addr DDRA)),
    -- 1: Function Set
    instr (.ldaImm 0b00111000),
    instr (.staAbs (.addr PORTB)),
    instr (.ldaImm 0),
    instr (.staAbs (.addr PORTA)),
    instr (.ldaImm E),
    instr (.staAbs (.addr PORTA)),
    instr (.ldaImm 0),
    instr (.staAbs (.addr PORTA)),
    -- 2: Display On
    instr (.ldaImm 0b00001110),
    instr (.staAbs (.addr PORTB)),
    instr (.ldaImm 0),
    instr (.staAbs (.addr PORTA)),
    instr (.ldaImm E),
    instr (.staAbs (.addr PORTA)),
    instr (.ldaImm 0),
    instr (.staAbs (.addr PORTA)),
    -- 3: Entry Mod
    instr (.ldaImm 0b00000110),
    instr (.staAbs (.addr PORTB)),
    instr (.ldaImm 0),
    instr (.staAbs (.addr PORTA)),
    instr (.ldaImm E),
    instr (.staAbs (.addr PORTA)),
    instr (.ldaImm 0),
    instr (.staAbs (.addr PORTA)),
    -- 4: Write Data
    instr (.ldaImm 0x48),
    instr (.staAbs (.addr PORTB)),
    instr (.ldaImm RS),
    instr (.staAbs (.addr PORTA)),
    instr (.ldaImm (RS ||| E)),
    instr (.staAbs (.addr PORTA)),
    instr (.ldaImm RS),
    instr (.staAbs (.addr PORTA)),
    instr (.ldaImm 0x49),
    instr (.staAbs (.addr PORTB)),
    instr (.ldaImm RS),
    instr (.staAbs (.addr PORTA)),
    instr (.ldaImm (RS ||| E)),
    instr (.staAbs (.addr PORTA)),
    instr (.ldaImm RS),
    instr (.staAbs (.addr PORTA)),
    instr (.ldaImm 0x21),
    instr (.staAbs (.addr PORTB)),
    instr (.ldaImm RS),
    instr (.staAbs (.addr PORTA)),
    instr (.ldaImm (RS ||| E)),
    instr (.staAbs (.addr PORTA)),
    instr (.ldaImm RS),
    instr (.staAbs (.addr PORTA)),
    ⟨some .loop, .instr (.jmpAbs (.label .loop))⟩]

/-- The bytes that it sends. -/
def simpleText : List (Routine × Byte) :=
  [(.lcdInstruction, 0b00111000), (.lcdInstruction, 0b00001110), (.lcdInstruction, 0b00000110)]
    ++ text "HI!"

theorem lcdSimpleText_eq : lcdSimpleText = inlined simpleText := rfl

/-- **The listing of `lcd_w_ram.s`**, line by line. -/
def lcdWRam : Listing RamLabel where
  org := 0x8000
  lines := [
    -- set SP to known value
    ⟨some .reset, .instr (.ldxImm 0xff)⟩,
    instr .txs,
    -- init VIA
    instr (.ldaImm 0b11111111),
    instr (.staAbs (.addr DDRB)),
    instr (.ldaImm 0b11100000),
    instr (.staAbs (.addr DDRA)),
    -- 1: Function Set
    instr (.ldaImm 0b00111000),
    instr (.jsr (.label .lcdInstruction)),
    -- 2: Display On
    instr (.ldaImm 0b00001110),
    instr (.jsr (.label .lcdInstruction)),
    -- 3: Entry Mode
    instr (.ldaImm 0b00000110),
    instr (.jsr (.label .lcdInstruction)),
    -- 4: Clear Display
    instr (.ldaImm 0b00000001),
    instr (.jsr (.label .lcdInstruction)),
    -- 5: Write Data
    instr (.ldaImm 0x48),
    instr (.jsr (.label .printChar)),
    instr (.ldaImm 0x65),
    instr (.jsr (.label .printChar)),
    instr (.ldaImm 0x6c),
    instr (.jsr (.label .printChar)),
    instr (.ldaImm 0x6c),
    instr (.jsr (.label .printChar)),
    instr (.ldaImm 0x6f),
    instr (.jsr (.label .printChar)),
    instr (.ldaImm 0x2c),
    instr (.jsr (.label .printChar)),
    instr (.ldaImm 0x20),
    instr (.jsr (.label .printChar)),
    instr (.ldaImm 0x77),
    instr (.jsr (.label .printChar)),
    instr (.ldaImm 0x6f),
    instr (.jsr (.label .printChar)),
    instr (.ldaImm 0x72),
    instr (.jsr (.label .printChar)),
    instr (.ldaImm 0x6c),
    instr (.jsr (.label .printChar)),
    instr (.ldaImm 0x64),
    instr (.jsr (.label .printChar)),
    instr (.ldaImm 0x21),
    instr (.jsr (.label .printChar)),
    ⟨some .loop, .instr (.jmpAbs (.label .loop))⟩,
    ⟨some .lcdInstruction, .instr (.staAbs (.addr PORTB))⟩,
    instr (.ldaImm 0),
    instr (.staAbs (.addr PORTA)),
    instr (.ldaImm E),
    instr (.staAbs (.addr PORTA)),
    instr (.ldaImm 0),
    instr (.staAbs (.addr PORTA)),
    instr .rts,
    ⟨some .printChar, .instr (.staAbs (.addr PORTB))⟩,
    instr (.ldaImm RS),
    instr (.staAbs (.addr PORTA)),
    instr (.ldaImm (RS ||| E)),
    instr (.staAbs (.addr PORTA)),
    instr (.ldaImm RS),
    instr (.staAbs (.addr PORTA)),
    instr .rts]

/-- The bytes that it sends. -/
def helloText : List (Routine × Byte) :=
  [(.lcdInstruction, 0b00111000), (.lcdInstruction, 0b00001110), (.lcdInstruction, 0b00000110),
    (.lcdInstruction, 0b00000001)] ++ text "Hello, world!"

theorem lcdWRam_eq : lcdWRam = calling helloText := rfl

/-! ## Both of them work -/

section Sizes

variable {L : Type}

theorem offset_length (lines : List (Line L)) :
    offset lines lines.length = ((lines.map Line.item).map Item.size).sum := by
  rw [offset, List.take_length, List.map_map]
  rfl

theorem length_stores (ws : List (Reg × Byte)) :
    (stores ws : List (Item L)).length = 2 * ws.length := by
  induction ws with
  | nil => rfl
  | cons w ws ih =>
    show (stores ws : List (Item L)).length + 2 = 2 * (ws.length + 1)
    rw [ih]
    omega

theorem size_stores (ws : List (Reg × Byte)) :
    ((stores ws : List (Item L)).map Item.size).sum = 5 * ws.length := by
  induction ws with
  | nil => rfl
  | cons w ws ih =>
    show 2 + (3 + ((stores ws : List (Item L)).map Item.size).sum) = 5 * (ws.length + 1)
    rw [ih]
    omega

theorem size_calls (s : List (Routine × Byte)) :
    ((calls s).map Item.size).sum = 5 * s.length := by
  induction s with
  | nil => rfl
  | cons t s ih =>
    show 2 + (3 + ((calls s).map Item.size).sum) = 5 * (s.length + 1)
    rw [ih]
    omega

theorem length_calls (s : List (Routine × Byte)) : (calls s).length = 2 * s.length := by
  induction s with
  | nil => rfl
  | cons t s ih =>
    show (calls s).length + 2 = 2 * (s.length + 1)
    rw [ih]
    omega

theorem length_dialogue (s : List (Routine × Byte)) :
    (dialogue s).length = 2 + 4 * s.length := by
  induction s with
  | nil => rfl
  | cons t s ih =>
    rw [dialogue, List.flatMap_cons, List.length_append, List.length_append]
    rw [dialogue, List.length_append] at ih
    show 2 + (4 + _) = 2 + 4 * (s.length + 1)
    change 2 + _ = _ at ih
    omega

variable [DecidableEq L]

theorem sound_stores (ls : List L) (ws : List (Reg × Byte)) :
    ∀ it ∈ stores ws, sound ls it = true := by
  intro it hit
  obtain ⟨⟨r, v⟩, -, hit⟩ := List.mem_flatMap.mp hit
  rcases List.mem_cons.mp hit with rfl | hit
  · rfl
  · rw [List.mem_singleton.mp hit]
    cases r <;> rfl

end Sizes

section Inlined

variable {s : List (Routine × Byte)}

theorem items_inlined (s : List (Routine × Byte)) : (inlined s).lines.map Line.item
    = stores (dialogue s) ++ [.instr (.jmpAbs (.label .loop))] := by
  show (labelled _ _ ++ labelled _ _).map Line.item = _
  rw [List.map_append, map_labelled, map_labelled]

theorem labels_inlined (s : List (Routine × Byte)) :
    (inlined s).lines.filterMap Line.label = [.reset, .loop] := by
  show (labelled _ _ ++ labelled _ _).filterMap Line.label = _
  rw [List.filterMap_append, label_labelled]
  exact congrArg (· ++ [TextLabel.loop]) (label_labelled _ _)

theorem assembles_inlined (hfit : s.length ≤ 1637) :
    ∃ bs, Vasm.Assembles (inlined s) bs ∧ bs.length ≤ 0x7ffc := by
  have hsize : offset (inlined s).lines (inlined s).lines.length = 13 + 20 * s.length := by
    rw [offset_length, items_inlined, List.map_append, List.sum_append, size_stores,
      length_dialogue]
    show 5 * (2 + 4 * s.length) + 3 = _
    omega
  have horg : (inlined s).org.toNat = 0x8000 := rfl
  obtain ⟨bs, h, hlen⟩ := assembles_of_sound (p := inlined s) (by rw [horg]; decide)
    (by rw [horg, hsize]; omega) (by rw [labels_inlined]; decide) (by
      intro ln hln
      rw [labels_inlined]
      have hit := List.mem_map_of_mem (f := Line.item) hln
      rw [items_inlined] at hit
      rcases List.mem_append.mp hit with hit | hit
      · exact sound_stores _ _ _ hit
      · rw [List.mem_singleton.mp hit]
        decide)
  exact ⟨bs, h, by rw [hlen, hsize]; omega⟩

theorem loop_inlined (s : List (Routine × Byte)) : (inlined s).lines[2 * (dialogue s).length]?
    = some ⟨some .loop, .instr (.jmpAbs (.label .loop))⟩ := by
  have hline := line_labelled TextLabel.loop [] (.instr (.jmpAbs (.label .loop)))
    (labelled .reset (stores (dialogue s))) []
  rw [List.append_nil, length_labelled, length_stores] at hline
  exact hline

/-- The code of it, run from its first line. -/
theorem performs_inlined {bs : List Byte} (h : Vasm.Assembles (inlined s) bs) {rom : Word → Byte}
    {lcd : ℕ → Byte} (hload : Loaded (Board.bus rom lcd) (inlined s).org bs) {m : Machine Board}
    (hpc : m.pc = (inlined s).addr 0) : Performs (Machine.step (Board.bus rom lcd)) m (dialogue s)
      ((inlined s).addr (2 * (dialogue s).length)) := by
  have hcode : HasAt (inlined s) 0 (stores (dialogue s) ++ [.instr (.jmpAbs (.label .loop))]) := by
    rw [← items_inlined]
    exact hasAt_of_drop List.drop_zero
  obtain ⟨a, f, hpath⟩ := stores_leads rom lcd [] (D := discipline) (x := m.x)
    (y := m.y) (a := m.a) (f := m.p) (b := m.bus) (fun r => by cases r <;> rfl)
    hcode.left
  rw [Nat.zero_add] at hpath
  have hindex : (inlined s).index .loop = some (2 * (dialogue s).length) :=
    Vasm.index_of_label h.labels (loop_inlined s) rfl
  exact performs_of_leads hload h.assemble (models_at hpc) hpath
    (Config.step_jmpAbs (loop_inlined s) hindex) rfl rfl

/-- **Stores one after the other**: the program performs its script. -/
theorem inlined_works (s : List (Routine × Byte)) (hfit : s.length ≤ 1637) :
    Works (inlined s) .reset .loop s := by
  obtain ⟨bs, h, hlen⟩ := assembles_inlined hfit
  refine works_of h rfl hlen rfl (h.symbol_of_label (loop_inlined s) rfl) fun rom lcd hload m hpc => ?_
  exact performs_inlined h hload hpc

/-- `LCD_simple_text.s`. -/
theorem lcdSimpleText_works : Works lcdSimpleText .reset .loop simpleText := by
  rw [lcdSimpleText_eq]
  exact inlined_works simpleText (by decide)

end Inlined

section Calling

variable {s : List (Routine × Byte)}

/-- The code in front of `loop`. -/
def introduction (s : List (Routine × Byte)) : List (Item RamLabel) :=
  .instr (.ldxImm 0xff) :: .instr .txs :: (stores setUp ++ calls s)

theorem length_introduction (s : List (Routine × Byte)) :
    (introduction s).length = 6 + 2 * s.length := by
  show (stores setUp ++ calls s).length + 1 + 1 = _
  rw [List.length_append, length_calls, length_stores]
  show 2 * 2 + 2 * s.length + 1 + 1 = _
  omega

theorem items_calling (s : List (Routine × Byte)) : (calling s).lines.map Line.item
    = introduction s ++ (.instr (.jmpAbs (.label .loop))
      :: (Routine.code .lcdInstruction ++ Routine.code .printChar)) := by
  show (labelled _ _ ++ labelled _ _ ++ labelled _ _ ++ labelled _ _).map Line.item = _
  rw [List.map_append, List.map_append, List.map_append, map_labelled, map_labelled,
    map_labelled, map_labelled, List.append_assoc, List.append_assoc]
  rfl

theorem labels_calling (s : List (Routine × Byte)) :
    (calling s).lines.filterMap Line.label = [.reset, .loop, .lcdInstruction, .printChar] := by
  show (labelled _ _ ++ labelled _ _ ++ labelled _ _ ++ labelled _ _).filterMap Line.label = _
  rw [List.filterMap_append, List.filterMap_append, List.filterMap_append, label_labelled]
  rfl

theorem assembles_calling (hfit : s.length ≤ 6542) :
    ∃ bs, Vasm.Assembles (calling s) bs ∧ bs.length ≤ 0x7ffc := by
  have hsize : offset (calling s).lines (calling s).lines.length = 54 + 5 * s.length := by
    rw [offset_length, items_calling, List.map_append, List.sum_append]
    show 2 + (1 + ((stores setUp ++ calls s).map Item.size).sum) + 41 = _
    rw [List.map_append, List.sum_append, size_stores, size_calls]
    show 2 + (1 + (5 * 2 + 5 * s.length)) + 41 = _
    omega
  have horg : (calling s).org.toNat = 0x8000 := rfl
  obtain ⟨bs, h, hlen⟩ := assembles_of_sound (p := calling s) (by rw [horg]; decide)
    (by rw [horg, hsize]; omega) (by rw [labels_calling]; decide) (by
      intro ln hln
      rw [labels_calling]
      have hit := List.mem_map_of_mem (f := Line.item) hln
      rw [items_calling] at hit
      rcases List.mem_append.mp hit with hit | hit
      · rcases List.mem_cons.mp hit with hit | hit
        · rw [hit]; rfl
        rcases List.mem_cons.mp hit with hit | hit
        · rw [hit]; rfl
        rcases List.mem_append.mp hit with hit | hit
        · exact sound_stores _ _ _ hit
        · obtain ⟨⟨r, v⟩, -, hit⟩ := List.mem_flatMap.mp hit
          rcases List.mem_cons.mp hit with hit | hit
          · rw [hit]; rfl
          · rw [List.mem_singleton.mp hit]
            cases r <;> rfl
      · have hrest : ∀ it ∈ (.instr (.jmpAbs (.label .loop)) : Item RamLabel)
            :: (Routine.code .lcdInstruction ++ Routine.code .printChar),
            sound [RamLabel.reset, .loop, .lcdInstruction, .printChar] it = true := by
          decide
        exact hrest _ hit)
  exact ⟨bs, h, by rw [hlen, hsize]; omega⟩

theorem hasAt_calling (s : List (Routine × Byte)) : HasAt (calling s) 0 (introduction s
    ++ (.instr (.jmpAbs (.label .loop))
      :: (Routine.code .lcdInstruction ++ Routine.code .printChar))) := by
  rw [← items_calling]
  exact hasAt_of_drop List.drop_zero

theorem loop_calling (s : List (Routine × Byte)) : (calling s).lines[6 + 2 * s.length]?
    = some ⟨some .loop, .instr (.jmpAbs (.label .loop))⟩ := by
  have hline := line_labelled RamLabel.loop [] (.instr (.jmpAbs (.label .loop)))
    (labelled .reset (introduction s))
    (labelled .lcdInstruction (Routine.code .lcdInstruction)
      ++ labelled .printChar (Routine.code .printChar))
  rw [← List.append_assoc, ← List.append_assoc, length_labelled, length_introduction] at hline
  exact hline

/-- A routine is where its label is. -/
theorem routine_calling {bs : List Byte} (h : Vasm.Assembles (calling s) bs) (r : Routine) :
    ∃ j, (calling s).index r.target = some j ∧ HasAt (calling s) j r.code := by
  have hcode := (hasAt_calling s).right.tail
  rw [Nat.zero_add, length_introduction] at hcode
  cases r with
  | lcdInstruction =>
    have hline := line_labelled RamLabel.lcdInstruction
      (Routine.code .lcdInstruction).tail (.instr (.staAbs (.addr PORTB))) (labelled .reset (introduction s)
      ++ labelled .loop [.instr (.jmpAbs (.label .loop))])
      (labelled .printChar (Routine.code .printChar))
    rw [← List.append_assoc, List.length_append, length_labelled, length_introduction] at hline
    exact ⟨_, Vasm.index_of_label h.labels hline rfl, hcode.left⟩
  | printChar =>
    have hline := line_labelled RamLabel.printChar
      (Routine.code .printChar).tail (.instr (.staAbs (.addr PORTB))) (labelled .reset (introduction s)
      ++ labelled .loop [.instr (.jmpAbs (.label .loop))]
      ++ labelled .lcdInstruction (Routine.code .lcdInstruction)) []
    rw [List.append_nil, List.length_append, List.length_append, length_labelled,
      length_introduction] at hline
    exact ⟨_, Vasm.index_of_label h.labels hline rfl, hcode.right⟩

variable {rom : Word → Byte} {lcd : ℕ → Byte} {a x y : Byte} {f : Flags} {i : ℕ} {b : Board}

theorem stores_via (r : Reg) : discipline.stores r.addr = true := by
  cases r <;> rfl

variable (rom lcd) in
/-- **A call sends its byte**, and comes back. -/
theorem call_performs {bs : List Byte} (h : Vasm.Assembles (calling s) bs) {t : Routine × Byte}
    (hcode : HasAt (calling s) i [.instr (.ldaImm t.2), .instr (.jsr (.label t.1.target))]) :
    ∃ a' f', Leads (Config.step (calling s) (Board.bus rom lcd) discipline)
      (Along b (sends t.1 t.2)) 10 ⟨a, x, y, f, i, [], b⟩
      ⟨a', x, y, f', i + 2, [], b.writes (sends t.1 t.2)⟩ := by
  obtain ⟨j, hj, hroutine⟩ := routine_calling h t.1
  obtain ⟨_, hlda⟩ := hcode.head
  obtain ⟨_, hjsr⟩ := hcode.tail.head
  obtain ⟨a', f', hrest⟩ := stores_leads rom lcd [.call (i + 1)] (a := t.2) (x := x) (y := y)
    (f := f.result t.2) (b := b.store .portb t.2) stores_via
    hroutine.tail.left
  obtain ⟨_, hrts⟩ := hroutine.tail.right.head
  have hcall : Leads (Config.step (calling s) (Board.bus rom lcd) discipline)
      (Along b [(.portb, t.2)]) 3 ⟨a, x, y, f, i, [], b⟩
      ⟨t.2, x, y, f.result t.2, j + 1, [.call (i + 1)], b.store .portb t.2⟩ := by
    refine .cons (along_of_eq rfl) (Config.step_ldaImm hlda) ?_
    refine .cons (along_of_eq rfl) (Config.step_jsr hjsr hj (show 2 ≤ 5 by decide)) ?_
    exact .single (along_of_eq rfl) (step_store stores_via hroutine.head)
  exact ⟨_, _, (leads_append hcall hrest).trans
    (.single (along_of_writes rfl) (Config.step_rts hrts))⟩

variable (rom lcd) in
/-- **Call by call** all bytes are sent. -/
theorem calls_perform {bs : List Byte} (h : Vasm.Assembles (calling s) bs)
    {s' : List (Routine × Byte)} (hcode : HasAt (calling s) i (calls s')) :
    ∃ a' f', Leads (Config.step (calling s) (Board.bus rom lcd) discipline)
      (Along b (s'.flatMap fun t => sends t.1 t.2)) (10 * s'.length) ⟨a, x, y, f, i, [], b⟩
      ⟨a', x, y, f', i + 2 * s'.length, [], b.writes (s'.flatMap fun t => sends t.1 t.2)⟩ := by
  induction s' generalizing i a f b with
  | nil => exact ⟨a, f, .refl _⟩
  | cons t s' ih =>
    obtain ⟨a₁, f₁, h₁⟩ := call_performs rom lcd (a := a) (x := x) (y := y)
      (f := f) (b := b) h (t := t) (HasAt.left hcode)
    obtain ⟨a₂, f₂, h₂⟩ := ih (a := a₁) (f := f₁) (b := b.writes (sends t.1 t.2)) hcode.tail.tail
    have hpath := leads_append h₁ h₂
    rw [List.length_cons, Nat.mul_succ, Nat.mul_succ, Nat.add_comm (10 * _), Nat.add_comm (2 * _),
      ← Nat.add_assoc, List.flatMap_cons, Board.writes_append]
    exact ⟨a₂, f₂, hpath⟩

/-- The stack pointer is set up, by the processor alone. -/
theorem step_setUp {bs : List Byte} (h : Vasm.Assembles (calling s) bs) {B : Bus Board}
    (hload : Loaded B (calling s).org bs) {m : Machine Board} (hpc : m.pc = (calling s).addr 0) :
    ∃ m₁ m₂, m.step B = some m₁ ∧ m₁.step B = some m₂ ∧ m₁.bus = m.bus ∧ m₂.bus = m₁.bus
      ∧ m₂.pc = (calling s).addr 2 := by
  obtain ⟨i₁, hr₁, hf₁⟩ := fetchInstr_addr hload h.assemble
    (show (calling s).lines[0]? = some ⟨some .reset, .instr (.ldxImm 0xff)⟩ from rfl) hpc
  obtain rfl := Option.some_inj.mp hr₁
  obtain ⟨i₂, hr₂, hf₂⟩ := fetchInstr_addr hload h.assemble
    (m := { m.setX 0xff with pc := (calling s).addr 1 })
    (show (calling s).lines[1]? = some ⟨none, .instr .txs⟩ from rfl) rfl
  obtain rfl := Option.some_inj.mp hr₂
  refine ⟨{ m.setX 0xff with pc := (calling s).addr 1 },
    { m.setX 0xff with pc := (calling s).addr 2, sp := 0xff }, ?_, ?_, rfl, rfl, rfl⟩
  · rw [Machine.step, hf₁]
    rfl
  · rw [Machine.step, hf₂]
    rfl

/-- The code of it, run from its first line. -/
theorem performs_calling {bs : List Byte} (h : Vasm.Assembles (calling s) bs)
    (hload : Loaded (Board.bus rom lcd) (calling s).org bs) {m : Machine Board}
    (hpc : m.pc = (calling s).addr 0) : Performs (Machine.step (Board.bus rom lcd)) m (dialogue s)
      ((calling s).addr (6 + 2 * s.length)) := by
  obtain ⟨m₁, m₂, hm₁, hm₂, hbus₁, hbus₂, hpc₂⟩ := step_setUp h hload hpc
  have hcode : HasAt (calling s) 2 (stores setUp ++ calls s) := (hasAt_calling s).tail.tail.left
  obtain ⟨a₁, f₁, h₁⟩ := stores_leads rom lcd [] (D := discipline) (x := m₂.x)
    (y := m₂.y) (a := m₂.a) (f := m₂.p) (b := m₂.bus) stores_via hcode.left
  obtain ⟨a₂, f₂, h₂⟩ := calls_perform rom lcd (a := a₁) (x := m₂.x)
    (y := m₂.y) (f := f₁) (b := m₂.bus.writes setUp) h hcode.right
  have hpath := leads_append h₁ h₂
  rw [← Board.writes_append] at hpath
  have hindex : (calling s).index .loop = some (6 + 2 * s.length) :=
    Vasm.index_of_label h.labels (loop_calling s) rfl
  have hperforms := performs_of_leads hload h.assemble (models_at hpc₂) hpath
    (Config.step_jmpAbs (loop_calling s) hindex) rfl rfl
  exact (hperforms.of_step hm₂ hbus₂).of_step hm₁ hbus₁

/-- **Calls of subroutines**: the program performs its script. -/
theorem calling_works (s : List (Routine × Byte)) (hfit : s.length ≤ 6542) :
    Works (calling s) .reset .loop s := by
  obtain ⟨bs, h, hlen⟩ := assembles_calling hfit
  refine works_of h rfl hlen rfl (h.symbol_of_label (loop_calling s) rfl)
    fun rom lcd hload m hpc => ?_
  exact performs_calling h hload hpc

/-- `lcd_w_ram.s`. -/
theorem lcdWRam_works : Works lcdWRam .reset .loop helloText := by
  rw [lcdWRam_eq]
  exact calling_works helloText (by decide)

end Calling

/-! ## The image that is kept -/

/-- The code in `rom.bin`. -/
def romCode : List Byte := [
    0xa2, 0xff, 0x9a, 0xa9, 0xff, 0x8d, 0x02, 0x60, 0xa9, 0xe0, 0x8d, 0x03, 0x60, 0xa9,
    0x38, 0x20, 0x65, 0x80, 0xa9, 0x0e, 0x20, 0x65, 0x80, 0xa9, 0x06, 0x20, 0x65, 0x80,
    0xa9, 0x01, 0x20, 0x65, 0x80, 0xa9, 0x48, 0x20, 0x78, 0x80, 0xa9, 0x65, 0x20, 0x78,
    0x80, 0xa9, 0x6c, 0x20, 0x78, 0x80, 0xa9, 0x6c, 0x20, 0x78, 0x80, 0xa9, 0x6f, 0x20,
    0x78, 0x80, 0xa9, 0x2c, 0x20, 0x78, 0x80, 0xa9, 0x20, 0x20, 0x78, 0x80, 0xa9, 0x77,
    0x20, 0x78, 0x80, 0xa9, 0x6f, 0x20, 0x78, 0x80, 0xa9, 0x72, 0x20, 0x78, 0x80, 0xa9,
    0x6c, 0x20, 0x78, 0x80, 0xa9, 0x64, 0x20, 0x78, 0x80, 0xa9, 0x21, 0x20, 0x78, 0x80,
    0x4c, 0x62, 0x80, 0x8d, 0x00, 0x60, 0xa9, 0x00, 0x8d, 0x01, 0x60, 0xa9, 0x80, 0x8d,
    0x01, 0x60, 0xa9, 0x00, 0x8d, 0x01, 0x60, 0x60, 0x8d, 0x00, 0x60, 0xa9, 0x20, 0x8d,
    0x01, 0x60, 0xa9, 0xa0, 0x8d, 0x01, 0x60, 0xa9, 0x20, 0x8d, 0x01, 0x60, 0x60]

/-- **The file `rom.bin`.** -/
def romBin : List Byte :=
  romCode ++ (List.replicate (0x7ffc - romCode.length) 0 ++ [0x00, 0x80, 0x00, 0x00])

theorem assemble_lcdWRam : lcdWRam.assemble = some romCode := by decide +kernel

theorem assembles_lcdWRam : Vasm.Assembles lcdWRam romCode := by
  obtain ⟨bs, h, -⟩ := assembles_calling (s := helloText) (by decide)
  rw [← lcdWRam_eq] at h
  obtain rfl := Option.some_inj.mp (h.assemble.symm.trans assemble_lcdWRam)
  exact h

/-- **`rom.bin` is what the assembler makes of `lcd_w_ram.s`**, and with it in the ROM the
board says hello to the LCD, which it does not ask. -/
theorem romBin_delivers :
    (∀ ly : Vasm.Layouts RamLabel, (∀ l, Vasm.Above (ly.env l)) →
      ∃ env, Vasm.vasm Vasm.defaults (Vasm.withVectors lcdWRam .reset) 3 ly = some (env, romBin))
    ∧ Delivers (burn romBin) helloText 0x8062 := by
  have h := assembles_lcdWRam
  have hlen : romCode.length = 139 := by decide +kernel
  have horg : lcdWRam.org.toNat = 0x8000 := rfl
  have hgap : 0xfffc - (lcdWRam.org.toNat + romCode.length) = 0x7ffc - romCode.length := by
    rw [horg, hlen]
  have haddr : lcdWRam.addr 0 = 0x8000 := rfl
  refine ⟨fun ly hly => ?_, ?_⟩
  · obtain ⟨env, -, hvasm⟩ := Vasm.vasm_listing h (by rw [horg, hlen]; decide)
      (show lcdWRam.symbol .reset = some (lcdWRam.addr 0) from rfl) hly
    rw [hgap, haddr] at hvasm
    exact ⟨env, hvasm⟩
  · have hloop : lcdWRam.addr (6 + 2 * helloText.length) = 0x8062 := by decide +kernel
    rw [← hloop]
    refine delivers_of h rfl (by rw [hlen]; decide) (by rw [hgap, haddr]; rfl)
      fun rom lcd hload m hpc => ?_
    rw [lcdWRam_eq] at h hload hpc ⊢
    exact performs_calling h hload hpc

/-! ## A pattern on port B -/

/-- **The listing of `rotate_leds_on_via.s`**, line by line. -/
def rotateLeds : Listing TextLabel where
  org := 0x8000
  lines := [
    -- set data direction reg DDRB to output
    ⟨some .reset, .instr (.ldaImm 0xff)⟩,
    instr (.staAbs (.addr 0x6002)),
    -- write 8-bits of data to ORB on VIA
    ⟨some .loop, .instr (.ldaImm 0x55)⟩,
    instr (.staAbs (.addr 0x6000)),
    instr (.jmpAbs (.label .loop))]

theorem assembles_rotateLeds : ∃ bs, Vasm.Assembles rotateLeds bs ∧ bs.length ≤ 0x7ffc := by
  have hsize : offset rotateLeds.lines rotateLeds.lines.length = 13 := rfl
  have horg : rotateLeds.org.toNat = 0x8000 := rfl
  obtain ⟨bs, h, hlen⟩ := assembles_of_sound (p := rotateLeds) (by rw [horg]; decide)
    (by rw [horg, hsize]; decide) (by decide) (by decide)
  exact ⟨bs, h, by rw [hlen, hsize]; decide⟩

section RotateLeds

variable {rom : Word → Byte} {lcd : ℕ → Byte} {a x y : Byte} {f : Flags} {st : List Frame}
variable {b : Board}

variable (rom lcd st) in
/-- The direction of port B is set. -/
theorem rotateLeds_boot :
    Leads (Config.step rotateLeds (Board.bus rom lcd) discipline) (fun _ => True) 2
      ⟨a, x, y, f, 0, st, b⟩ ⟨0xff, x, y, f.result 0xff, 2, st, b.store .ddrb 0xff⟩ :=
  .cons trivial (Config.step_ldaImm rfl) (.single trivial (step_store stores_via ⟨_, rfl⟩))

variable (rom lcd st) in
/-- The pattern is written. -/
theorem rotateLeds_write {P : Config Board → Prop} (h : ∀ c, c.bus = b → P c) :
    Leads (Config.step rotateLeds (Board.bus rom lcd) discipline) P 2 ⟨a, x, y, f, 2, st, b⟩
      ⟨0x55, x, y, f.result 0x55, 4, st, b.store .portb 0x55⟩ :=
  .cons (h _ rfl) (Config.step_ldaImm rfl)
    (.single (h _ rfl) (step_store stores_via ⟨_, rfl⟩))

variable (rom lcd st) in
/-- And again. -/
theorem rotateLeds_jump {P : Config Board → Prop} (h : ∀ c, c.bus = b → P c) :
    Leads (Config.step rotateLeds (Board.bus rom lcd) discipline) P 1 ⟨a, x, y, f, 4, st, b⟩
      ⟨a, x, y, f, 2, st, b⟩ :=
  .single (h _ rfl) (Config.step_jmpAbs rfl rfl)

variable (rom lcd st) in
/-- **Round by round** the pattern is written again. -/
theorem rotateLeds_rounds (n : ℕ) :
    ∃ a' f', Leads (Config.step rotateLeds (Board.bus rom lcd) discipline) (fun _ => True) (3 * n)
      ⟨a, x, y, f, 2, st, b⟩
      ⟨a', x, y, f', 2, st, b.writes (List.replicate n (.portb, 0x55))⟩ := by
  induction n generalizing a f b with
  | zero => exact ⟨a, f, .refl _⟩
  | succ n ih =>
    obtain ⟨a', f', hrest⟩ := ih (a := 0x55) (f := f.result 0x55) (b := b.store .portb 0x55)
    have hround := (rotateLeds_write rom lcd st (a := a) (x := x) (y := y) (f := f)
      (b := b) fun _ _ => trivial).trans (rotateLeds_jump rom lcd st fun _ _ => trivial)
    rw [Nat.mul_succ, Nat.add_comm]
    exact ⟨a', f', hround.trans hrest⟩

/-- The pattern is on the pins. -/
def Shows (c : Config Board) : Prop := c.bus.via.ddrb = 0xff ∧ c.bus.via.portb = 0x55

variable (rom lcd) in
/-- **The pattern stays** once it is there. -/
theorem rotateLeds_stays {c : Config Board} (hline : c.line = 4) (h : Shows c) (i : ℕ) :
    ∃ c', after (Config.step rotateLeds (Board.bus rom lcd) discipline) i c = some c'
      ∧ Shows c' := by
  have hcut : ∀ c, c.line = 4 ∧ Shows c → ∃ n c',
      Leads (Config.step rotateLeds (Board.bus rom lcd) discipline) Shows (n + 1) c c'
        ∧ c'.line = 4 ∧ Shows c' := by
    rintro ⟨a, x, y, f, line, st, b⟩ ⟨rfl, hb⟩
    have hshows : ∀ c : Config Board, c.bus = b → Shows c := fun c hc => by
      rw [Shows, hc]
      exact hb
    exact ⟨2, _, (rotateLeds_jump rom lcd st hshows).trans (rotateLeds_write rom lcd st hshows),
      rfl, hb.1, rfl⟩
  exact cutpoints hcut ⟨hline, h⟩ i

/-- The code of it, run from its first line. -/
theorem runs_rotateLeds {bs : List Byte} (h : Vasm.Assembles rotateLeds bs)
    (hload : Loaded (Board.bus rom lcd) rotateLeds.org bs) {m : Machine Board}
    (hpc : m.pc = rotateLeds.addr 0) :
    (∀ n, ∃ m', after (Machine.step (Board.bus rom lcd)) (2 + 3 * n) m = some m'
        ∧ m'.pc = rotateLeds.addr 2
        ∧ m'.bus = m.bus.writes ((.ddrb, 0xff) :: List.replicate n (.portb, 0x55)))
      ∧ ∀ n lines, ∃ m', after (Machine.step (Board.bus rom lcd)) (4 + n) m = some m'
        ∧ m'.bus.via.pinsB lines = 0x55 := by
  have hsim : Simulates (Machine.step (Board.bus rom lcd))
      (Config.step rotateLeds (Board.bus rom lcd) discipline)
      (Models rotateLeds discipline m.sp m.page1 m.written) := Models.simulates hload h.assemble
  have hboot := rotateLeds_boot rom lcd [] (a := m.a) (x := m.x) (y := m.y) (f := m.p) (b := m.bus)
  refine ⟨fun n => ?_, fun n lines => ?_⟩
  · obtain ⟨a, f, hrounds⟩ := rotateLeds_rounds rom lcd [] (a := 0xff) (x := m.x)
      (y := m.y) (f := m.p.result 0xff) (b := m.bus.store .ddrb 0xff) n
    obtain ⟨m', hm', hmodels⟩ := hsim.after_lift (models_at hpc) (hboot.trans hrounds).after_eq
    exact ⟨m', hm', hmodels.pc, hmodels.bus⟩
  · have hfirst := hboot.trans (rotateLeds_write rom lcd [] fun _ _ => trivial)
    obtain ⟨c, hc, hddrb, hportb⟩ := rotateLeds_stays rom lcd
      (c := ⟨0x55, m.x, m.y, (m.p.result 0xff).result 0x55, 4, [],
        (m.bus.store .ddrb 0xff).store .portb 0x55⟩) rfl ⟨rfl, rfl⟩ n
    obtain ⟨m', hm', hmodels⟩ := hsim.after_lift (models_at hpc)
      ((after_add_of hfirst.after_eq n).trans hc)
    refine ⟨m', hm', ?_⟩
    rw [hmodels.bus, Via.pinsB, hddrb, hportb]
    show 0x55 &&& 0xff ||| lines &&& 0#8 = (0x55 : Byte)
    rw [BitVec.and_zero]
    rfl

end RotateLeds

/-- **The pattern does not rotate.** The program sets the direction of port B, and writes the
pattern again in every three instructions, for ever. From the first time on, it is on the
pins. -/
theorem rotateLeds_shows {ly : Vasm.Layouts TextLabel} (hly : ∀ l, Vasm.Above (ly.env l)) :
    ∃ env file pc, Vasm.vasm Vasm.defaults (Vasm.withVectors rotateLeds .reset) 3 ly
        = some (env, file) ∧ rotateLeds.symbol .loop = some pc ∧ ∀ lcd m,
      (∀ n, ∃ m', after (Machine.step (Board.bus (burn file) lcd)) (2 + 3 * n)
          (switchOn (burn file) lcd m) = some m' ∧ m'.pc = pc
        ∧ m'.bus = (switchOn (burn file) lcd m).bus.writes
          ((.ddrb, 0xff) :: List.replicate n (.portb, 0x55)))
      ∧ ∀ n lines, ∃ m', after (Machine.step (Board.bus (burn file) lcd)) (4 + n)
          (switchOn (burn file) lcd m) = some m' ∧ m'.bus.via.pinsB lines = 0x55 := by
  obtain ⟨bs, h, hfit⟩ := assembles_rotateLeds
  obtain ⟨env, -, hvasm⟩ := Vasm.vasm_listing h (Nat.add_le_add_left hfit 0x8000)
    (show rotateLeds.symbol .reset = some (rotateLeds.addr 0) from rfl) hly
  refine ⟨env, _, rotateLeds.addr 2, hvasm, rfl, fun lcd m => ?_⟩
  obtain ⟨hload, hon⟩ := switchOn_eq h rfl hfit rfl lcd
  exact runs_rotateLeds h hload (hon m).1

/-- From labels that are all at the origin. -/
theorem rotateLeds_built : ∃ env file,
    Vasm.vasm Vasm.defaults (Vasm.withVectors rotateLeds .reset) 3 ⟨fun _ => 0x8000, fun _ => []⟩
      = some (env, file) := by
  have hly : ∀ l, Vasm.Above ((⟨fun _ => 0x8000, fun _ => []⟩ : Vasm.Layouts TextLabel).env l) :=
    fun _ => (by decide : Vasm.Above 0x8000)
  obtain ⟨env, file, -, hvasm, -⟩ := rotateLeds_shows hly
  exact ⟨env, file, hvasm⟩

end Eater
