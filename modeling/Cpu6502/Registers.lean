/-
# The register file

The registers of the 6502, with two pieces of bookkeeping: the last result,
from which an instruction derives N and Z, and the running count of cycles.
Writing A, X or Y notes the written byte as the last result; writing SP, PC
or P does not.

Key definitions: `Registers`, `Registers.powerOn`, `Registers.status`,
`Registers.assign`.
-/
import Cpu6502.Config
import Cpu6502.Flag

namespace Cpu6502

/-- The registers and the bookkeeping of instructions. -/
structure Registers where
  a : UInt8
  x : UInt8
  y : UInt8
  sp : UInt8
  pc : Address
  /-- The status byte as stored; programs see `Registers.status`. -/
  p : UInt8
  lastResult : UInt8
  totalCycles : UInt64
  deriving DecidableEq

namespace Registers

/-- The registers right after power-on, before PC is loaded. -/
def powerOn (config : Config) : Registers where
  a := 0
  x := 0
  y := 0
  sp := config.resetSp
  pc := 0
  p := config.resetStatus ||| Flag.unused
  lastResult := 0
  totalCycles := config.resetCycles

/-- The status byte as programs see it: the unused bit reads as one. -/
def status (r : Registers) : UInt8 := r.p ||| Flag.unused

/-- Writes A. -/
def setA (r : Registers) (v : UInt8) : Registers := { r with a := v, lastResult := v }

/-- Writes X. -/
def setX (r : Registers) (v : UInt8) : Registers := { r with x := v, lastResult := v }

/-- Writes Y. -/
def setY (r : Registers) (v : UInt8) : Registers := { r with y := v, lastResult := v }

/-- Writes the stack pointer. -/
def setSp (r : Registers) (v : UInt8) : Registers := { r with sp := v }

/-- Writes the program counter. -/
def setPc (r : Registers) (v : Address) : Registers := { r with pc := v }

/-- Notes a result that goes to no register. -/
def setLastResult (r : Registers) (v : UInt8) : Registers := { r with lastResult := v }

/-- A program's load of P: the break bit is kept. -/
def setStatus (r : Registers) (v : UInt8) : Registers := { r with p := Status.restore r.p v }

/-- Moves PC forward, wrapping after the last address. -/
def advancePc (r : Registers) (delta : UInt16) : Registers := { r with pc := r.pc + delta }

/-- Counts cycles; the counter wraps after `2 ^ 64 - 1`. -/
def addCycles (r : Registers) (n : Nat) : Registers :=
  { r with totalCycles := r.totalCycles + UInt64.ofNat n }

/-- Sets the flags of a mask. -/
def setFlags (r : Registers) (mask : UInt8) : Registers := { r with p := Status.set r.p mask }

/-- Clears the flags of a mask. -/
def clearFlags (r : Registers) (mask : UInt8) : Registers := { r with p := Status.clear r.p mask }

/-- Gives the flags of a mask one value. -/
def assign (r : Registers) (mask : UInt8) (on : Bool) : Registers :=
  { r with p := Status.assign r.p mask on }

/-- Some flag of the mask is set. -/
def isSet (r : Registers) (mask : UInt8) : Bool := Status.isSet r.p mask

/-- The copy of P that a push stores. -/
def pushedStatus (r : Registers) (byProgram : Bool) : UInt8 := Status.pushed r.p byProgram

end Registers
end Cpu6502
