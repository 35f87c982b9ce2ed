/-
# Effects on the registers

An effect is the register file in the middle of an instruction, with the
carry and the overflow produced so far. They reach the status byte at the
end (`Effect.settle`), and only where the instruction is listed as changing
the flag: N and Z come from the last result, C and V from what was produced.
An instruction that must set C or V and has produced none cannot be settled.

A later part of an instruction sees the carry of an earlier part
(`Effect.carryIn`), not the one in the status byte.

Key definitions: `Effect`, `Effect.settle`, `Effect.add`, `Effect.compare`.
-/
import Cpu6502.Arithmetic
import Cpu6502.Registers

namespace Cpu6502

/-- Registers with a carry and an overflow not yet in the status byte. -/
structure Effect where
  regs : Registers
  carry : Option Bool := none
  overflow : Option Bool := none
  deriving DecidableEq

namespace Effect

/-- Changes the registers and produces neither carry nor overflow. -/
def update (e : Effect) (f : Registers → Registers) : Effect := { e with regs := f e.regs }

/-- The carry as the next part of the instruction sees it. -/
def carryIn (e : Effect) : Bool := e.carry.getD (e.regs.isSet Flag.carry)

/-- Puts a sum into A. -/
def takeSum (e : Effect) (s : Sum) : Effect where
  regs := e.regs.setA s.value
  carry := some s.carry
  overflow := some s.overflow

/-- Adds a byte and the carry to A. -/
def add (v : UInt8) (e : Effect) : Effect := e.takeSum (addWithCarry e.regs.a v e.carryIn)

/-- Subtracts a byte, and the missing carry, from A. -/
def subtract (v : UInt8) (e : Effect) : Effect :=
  e.takeSum (subtractWithBorrow e.regs.a v e.carryIn)

/-- Compares a register with a byte: the result is the difference, the carry
says that the register is at least as large. -/
def compare (register : Registers → UInt8) (v : UInt8) (e : Effect) : Effect where
  regs := e.regs.setLastResult (register e.regs - v)
  carry := some (decide (v ≤ register e.regs))
  overflow := e.overflow

/-- Tests bits: N and V are copied from the byte, the result is its common
part with A. -/
def testBits (v : UInt8) (e : Effect) : Effect :=
  e.update fun r =>
    ((r.setLastResult (r.a &&& v)).assign Flag.negative (Status.isSet v Flag.negative)).assign
      Flag.overflow (Status.isSet v Flag.overflow)

/-- Derives N and Z from the last result, where `flags` has them. -/
def deriveResultFlags (flags : UInt8) (r : Registers) : Registers :=
  let r := if Status.isSet flags Flag.negative
    then r.assign Flag.negative (Status.isSet r.lastResult 0x80) else r
  if Status.isSet flags Flag.zero then r.assign Flag.zero (r.lastResult == 0) else r

/-- Stores a produced flag, where `flags` has it; `none` when it is wanted
but was not produced. -/
def storeFlag (flags mask : UInt8) (produced : Option Bool) (r : Registers) : Option Registers :=
  if Status.isSet flags mask then produced.map (r.assign mask) else some r

/-- The registers once the flags of the mask are written. -/
def settle (flags : UInt8) (e : Effect) : Option Registers :=
  (storeFlag flags Flag.carry e.carry (deriveResultFlags flags e.regs)).bind
    (storeFlag flags Flag.overflow e.overflow)

end Effect
end Cpu6502
