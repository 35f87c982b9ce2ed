/-
# Power-on configuration

What a reset puts into the registers, where it starts, and whether the
undocumented opcodes are allowed.

Key definitions: `Config`, `Config.nestest`, `Config.documentedOnly`.
-/
import Cpu6502.Address

namespace Cpu6502

/-- What a reset starts from. -/
structure Config where
  /-- Where execution starts; `none` means at the RESET vector. -/
  resetPc : Option Address := none
  resetSp : UInt8 := 0xFD
  resetStatus : UInt8 := 0x24
  /-- The value the cycle counter starts from. -/
  resetCycles : UInt64 := 0
  undocumentedOpcodes : Bool := true
  deriving DecidableEq

namespace Config

/-- Where the automated run of the nestest program starts. -/
def nestestEntry : Address := 0xC000

/-- The configuration the nestest log was recorded with. -/
def nestest : Config := { resetPc := some nestestEntry, resetCycles := 7 }

/-- Undocumented opcodes are refused. -/
def documentedOnly : Config := { undocumentedOpcodes := false }

end Config
end Cpu6502
