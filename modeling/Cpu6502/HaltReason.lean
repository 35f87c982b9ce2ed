/-
# Why a processor halts

Two things stop the processor: a byte at PC that is no opcode it may execute,
and a write to protected memory. Neither can be resumed.

Key definitions: `HaltReason`, `HaltReason.pc`, `HaltReason.message`.
-/
import Cpu6502.Hex

namespace Cpu6502

/-- What stopped the processor. -/
inductive HaltReason
  /-- The byte at the address is no opcode, or one that is not allowed. -/
  | illegalOpcode (opcode : UInt8) (address : Address)
  /-- The instruction or interrupt entry that began at `pc` tried to store
  `value` at a protected address. -/
  | protectedWrite (address : Address) (value : UInt8) (pc : Address)
  deriving DecidableEq, Repr

namespace HaltReason

/-- PC at the start of the step that failed. -/
def pc : HaltReason → Address
  | illegalOpcode _ address => address
  | protectedWrite _ _ pc => pc

/-- The text that tells a user why. -/
def message : HaltReason → String
  | illegalOpcode opcode address =>
    "illegal opcode $" ++ Hex.byte opcode ++ " at " ++ Address.text address
  | protectedWrite address value pc =>
    "write of $" ++ Hex.byte value ++ " to read-only " ++ Address.text address ++
      " (instruction at " ++ Address.text pc ++ ")"

end HaltReason
end Cpu6502
