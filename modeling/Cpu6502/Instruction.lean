/-
# One instruction

Fetch the opcode at PC, take the operand, carry out the instruction and count
its cycles. The machine is left as it is, and the reason is told, when the
byte at PC is no opcode that may be executed.

Key definitions: `Cycles`, `Opcode.execute`, `Opcode.past`, `Machine.instruction`.
Key theorems: `Opcode.execute_eq`.
-/
import Cpu6502.HaltReason
import Cpu6502.InstructionSet
import Cpu6502.Opcode

namespace Cpu6502

/-- The cycles of one instruction, by cause. -/
structure Cycles where
  base : UInt8 := 0
  indexing : UInt8 := 0
  branch : UInt8 := 0
  deriving DecidableEq, Repr

/-- All cycles of the instruction. -/
def Cycles.total (c : Cycles) : Nat := c.base.toNat + c.indexing.toNat + c.branch.toNat

/-- The cycles of an interrupt entry. -/
def interruptCycles : Nat := 7

namespace Opcode

/-- Carries out the instruction at PC, which has this opcode. -/
def execute (op : Opcode) (m : Machine) : Option (Machine × Cycles) := do
  let taken := op.mode.take (m.advancePc 1)
  let done ← op.mnemonic.execute taken.1.operand taken.2
  return (done.1, ⟨op.cycles, op.access.indexingCycles op.mode taken.1.crossed, done.2⟩)

/-- The machine with PC past the instruction. -/
def past (op : Opcode) (m : Machine) : Machine := m.advancePc op.length.toUInt16

/-- An instruction executes on the machine whose PC is past it, and costs its
base cycles, those of indexing and those of a branch. -/
theorem execute_eq (op : Opcode) (m : Machine) :
    op.execute m = (op.mnemonic.execute (op.mode.resolve m).operand (op.past m)).map fun done =>
      (done.1,
        ⟨op.cycles, op.access.indexingCycles op.mode (op.mode.resolve m).crossed, done.2⟩) := by
  simp only [execute, Mode.take_pastOpcode, Option.map_eq_bind]
  rfl

/-- The opcode of a byte, unless it is undocumented and those are not allowed. -/
def allowed? (undocumented : Bool) (byte : UInt8) : Option Opcode :=
  (decode? byte).filter fun op => op.documented || undocumented

end Opcode

/-- Executes the instruction at PC. -/
def Machine.instruction (undocumented : Bool) (m : Machine) :
    Except HaltReason (Machine × Cycles) :=
  let byte := m.bus.read m.regs.pc
  match (Opcode.allowed? undocumented byte).bind (·.execute m) with
  | some done => .ok done
  | none => .error (.illegalOpcode byte m.regs.pc)

end Cpu6502
