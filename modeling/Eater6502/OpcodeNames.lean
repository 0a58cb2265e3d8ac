import Eater6502.Debugger
import Eater6502.VasmOperand

/-!
# The names of the opcodes

The debugger shows, with every byte that is read, what instruction this byte would begin. Its
table of names and the table of the assembler were written down independently of each other.
They agree but for two names: what the assembler writes for a 6502 is shown by the mnemonic
that the listing has, if this is not `blt` or `bge`, and only bytes that are no documented
opcode are shown as unknown (`opcodes_named`).
-/

namespace Vasm

open Isa

variable {L : Type}

/-- The name of a mnemonic in capitals. -/
def Mnemonic.capitals (m : Mnemonic) : List Char := m.name.toList.map Char.toUpper

/-- **An opcode is shown as a mnemonic**, of which two have another name in the debugger. -/
structure Mnemonic.Shows (m : Mnemonic) (oc : Byte) : Prop where
  name : m.name ≠ "blt" → m.name ≠ "bge" → Debugger.getOpcodeName oc = m.capitals
  blt : m.name = "blt" → Debugger.getOpcodeName oc = "BCC".toList
  bge : m.name = "bge" → Debugger.getOpcodeName oc = "BCS".toList

instance (m : Mnemonic) (oc : Byte) : Decidable (m.Shows oc) :=
  decidable_of_iff ((m.name ≠ "blt" → m.name ≠ "bge" → Debugger.getOpcodeName oc = m.capitals)
      ∧ (m.name = "blt" → Debugger.getOpcodeName oc = "BCC".toList)
      ∧ (m.name = "bge" → Debugger.getOpcodeName oc = "BCS".toList))
    ⟨fun ⟨h, h', h''⟩ => ⟨h, h', h''⟩, fun h => ⟨h.name, h.blt, h.bge⟩⟩

/-- **The two tables agree.** The opcode 0 is that of BRK. -/
theorem rows_named : ∀ m ∈ mnemonics, m.availableOn M6502 = true →
    ((m.opcode = 0 → ∀ t ∈ m.operandType, t ≠ .absx ∧ t ≠ .absy) → m.Shows m.opcode)
    ∧ (m.zpOpcode ≠ 0 → m.Shows m.zpOpcode) := by
  decide +kernel

/-- No mnemonic is that of an unknown opcode. -/
theorem capitals_known : ∀ m ∈ mnemonics, m.availableOn M6502 = true →
    m.capitals ≠ "???".toList := by
  decide +kernel

/-- So what is shown is not unknown. -/
theorem Mnemonic.Shows.known {m : Mnemonic} {oc : Byte} (h : m.Shows oc)
    (hm : m.capitals ≠ "???".toList) : Debugger.getOpcodeName oc ≠ "???".toList := by
  by_cases hblt : m.name = "blt"
  · rw [h.blt hblt]
    decide
  · by_cases hbge : m.name = "bge"
    · rw [h.bge hbge]
      decide
    · rw [h.name hblt hbge]
      exact hm

/-- The debugger knows the documented opcodes, and no others. -/
theorem unknown_iff (b : Byte) : Debugger.getOpcodeName b = "???".toList ↔ mode b = none := by
  have hall : ∀ b : Byte, Debugger.OPCODE_NAMES.getD b.toNat "" = "???" ↔ mode b = none := by
    decide +kernel
  rw [← hall b]
  exact String.toList_inj

section Written

variable {o : Options} {env : L → Taddr} {pc : Taddr}

/-- **What the debugger shows of an assembled instruction.** The first byte of an instruction
that is assembled for a 6502 without an error is shown as the mnemonic in the listing, where
`blt` and `bge` are shown as BCC and BCS, and is a documented opcode. -/
theorem opcodes_named (hcpu : o.cpuType = M6502) {ip : Instruction L} (hip : ip.Parsed)
    (hclean : Clean (evalInstruction o env pc ip).complaints) (hfar : ¬ip.Relaxed o env pc) :
    ∃ oc rest, (evalInstruction o env pc ip).data = oc :: rest
      ∧ (mnemonic ip.code).Shows oc ∧ mode oc ≠ none := by
  obtain ⟨oc, rest, hdata, hoc⟩ := opcode_of_clean hcpu hip hclean hfar
  obtain ⟨hopcode, hzp⟩ := rows_named _ (mnemonic_mem hip.available) hip.available
  have hshows : (mnemonic ip.code).Shows oc := by
    rcases hoc with ⟨rfl, hform⟩ | ⟨rfl, hnone⟩
    · exact hzp hform
    · exact hopcode hnone
  have hcapitals := capitals_known _ (mnemonic_mem hip.available) hip.available
  exact ⟨oc, rest, hdata, hshows, fun hmode => hshows.known hcapitals ((unknown_iff oc).mpr hmode)⟩

/-- The two forms of `lda` with an index have one name. -/
theorem ldaIndexed_named : Debugger.getOpcodeName 0xb5 = "LDA".toList := by
  obtain ⟨oc, rest, hdata, hshows, -⟩ :=
    opcodes_named rfl ldaIndexed_parsed ldaIndexed_clean ldaIndexed_stays
  have hname : (mnemonic ldaIndexed.code).name = "lda" := by decide +kernel
  rw [ldaIndexed_eq] at hdata
  rw [(List.cons.inj hdata).1, hshows.name (by rw [hname]; decide) (by rw [hname]; decide)]
  decide +kernel

end Written

end Vasm
