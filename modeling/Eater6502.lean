import Eater6502.EndToEnd
import Eater6502.Safety
import Eater6502.Subroutine
import Eater6502.Numeral
import Eater6502.DebuggerInput
import Eater6502.DebuggerTarget
import Eater6502.VasmRom
import Eater6502.Roms
import Eater6502.VasmBranch
import Eater6502.OpcodeNames
import Eater6502.VasmGrammar
