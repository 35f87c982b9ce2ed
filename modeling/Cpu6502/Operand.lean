/-
# Addressing modes and operands

An addressing mode says how the bytes after an opcode name the operand and
so how long the instruction is. An operand is what a mode yields once those
bytes are read: nothing, the accumulator, a byte, an address or a branch
distance. `Access` says what the instruction then does at the address.

Key definitions: `Mode`, `Access`, `Operand`.
-/
import Cpu6502.Address

namespace Cpu6502

/-- The thirteen addressing modes. -/
inductive Mode
  | implied
  | accumulator
  | immediate
  | zeroPage
  | zeroPageX
  | zeroPageY
  | absolute
  | absoluteX
  | absoluteY
  | relative
  /-- `($nnnn)`, of `JMP` only. -/
  | indirect
  /-- `($nn,X)` -/
  | indexedIndirect
  /-- `($nn),Y` -/
  | indirectIndexed
  deriving DecidableEq, Repr

namespace Mode

/-- The length of an instruction, opcode included. -/
def length : Mode → UInt8
  | implied | accumulator => 1
  | immediate | zeroPage | zeroPageX | zeroPageY | relative | indexedIndirect
  | indirectIndexed => 2
  | absolute | absoluteX | absoluteY | indirect => 3

/-- The modes that index a 16-bit address and so can reach another page. -/
def canCrossPage : Mode → Bool
  | absoluteX | absoluteY | indirectIndexed => true
  | _ => false

end Mode

/-- What an instruction does at its effective address. -/
inductive Access
  | read
  | write
  | readModifyWrite
  /-- The operand is no place in memory, or a place that is jumped to. -/
  | none
  deriving DecidableEq, Repr

/-- The extra cycle of indexing. A read needs it only when the page changed;
a write always waits for the right page. -/
def Access.indexingCycles (access : Access) (mode : Mode) (crossed : Bool) : UInt8 :=
  if mode.canCrossPage then
    match access with
    | .read => if crossed then 1 else 0
    | .write | .readModifyWrite => 1
    | .none => 0
  else 0

/-- What an instruction works on. -/
inductive Operand
  | implied
  | accumulator
  | immediate (value : UInt8)
  | address (a : Address)
  /-- A branch distance, in two's complement. -/
  | relative (distance : UInt8)
  deriving DecidableEq, Repr

/-- The address an operand names, if it names one. -/
def Operand.address? : Operand → Option Address
  | .address a => some a
  | _ => none

end Cpu6502
