/-
# The ways instructions work

Every instruction works in one of a dozen ways: it takes an operand byte into
the registers, stores a byte, replaces a byte in place, branches, pushes, and
so on. An `Action` names the way and holds what is particular to one
instruction. `Action.run` says what each way does to a machine whose PC
already points at the next instruction.

An action that cannot use its operand (a store without an address, a branch
without a distance) has no outcome.

Key definitions: `Action`, `Outcome`, `Action.run`.
-/
import Cpu6502.EffectiveAddress
import Cpu6502.Effect
import Cpu6502.Interrupt

namespace Cpu6502

/-- A way of working, with what is particular to one instruction. -/
inductive Action
  /-- Takes the operand byte into the registers. -/
  | take (f : UInt8 → Effect → Effect)
  /-- Stores a byte at the operand address. -/
  | store (value : Registers → UInt8)
  /-- Replaces a byte in place, in memory or in the accumulator, and then
  takes the new byte into the registers. -/
  | modify (change : Change) (next : UInt8 → Effect → Effect)
  /-- Changes registers only. -/
  | internal (f : Registers → Registers)
  /-- Pushes a byte made from the registers. -/
  | push (value : Registers → UInt8)
  /-- Pops a byte into the registers. -/
  | pull (f : Registers → UInt8 → Registers)
  /-- Branches when the flag has the expected value. -/
  | branch (flag : UInt8) (expected : Bool)
  | jump
  | callSubroutine
  | returnFromSubroutine
  | returnFromInterrupt
  | softwareInterrupt

/-- What an action leaves behind: the registers with their pending flags, the
bus, and the extra cycles of a branch. -/
structure Outcome where
  effect : Effect
  bus : Bus
  branchCycles : UInt8 := 0

namespace Outcome

/-- The outcome of an action that produces no carry and no overflow. -/
def ofMachine (m : Machine) : Outcome := ⟨⟨m.regs, none, none⟩, m.bus, 0⟩

end Outcome

/-- The cost of a branch on top of its base cycles: one cycle when it is
taken, one more when it leaves the page of the next instruction. -/
def branchCycles (taken crossed : Bool) : UInt8 :=
  if taken then (if crossed then 2 else 1) else 0

/-- The byte an operand stands for: itself, the accumulator, or the byte in
memory. -/
def Operand.byte? (operand : Operand) (m : Machine) : Option UInt8 :=
  match operand with
  | .immediate v => some v
  | .address a => some (m.bus.read a)
  | .accumulator => some m.regs.a
  | .implied | .relative _ => none

namespace Action

/-- The byte that takes the place of the one an operand names, the registers that
note it and the bus that holds it. The new byte becomes the last result wherever
it goes. -/
def replacement? (change : Change) (operand : Operand) (m : Machine) :
    Option (UInt8 × Effect × Bus) :=
  match operand with
  | .accumulator =>
    let new := change (m.regs.isSet Flag.carry) m.regs.a
    some (new.value, ⟨m.regs.setA new.value, new.carry, none⟩, m.bus)
  | .address a =>
    let new := change (m.regs.isSet Flag.carry) (m.bus.read a)
    some (new.value, ⟨m.regs.setLastResult new.value, new.carry, none⟩, m.bus.write a new.value)
  | _ => none

/-- Replaces the byte an operand names, and hands the new one on. -/
def replace (change : Change) (next : UInt8 → Effect → Effect) (operand : Operand) (m : Machine) :
    Option Outcome :=
  (replacement? change operand m).map fun new => ⟨next new.1 new.2.1, new.2.2, 0⟩

theorem replace_accumulator (change : Change) (next : UInt8 → Effect → Effect) (m : Machine) :
    replace change next .accumulator m =
      let new := change (m.regs.isSet Flag.carry) m.regs.a
      some ⟨next new.value ⟨m.regs.setA new.value, new.carry, none⟩, m.bus, 0⟩ := rfl

theorem replace_address (change : Change) (next : UInt8 → Effect → Effect) (a : Address)
    (m : Machine) : replace change next (.address a) m =
      let new := change (m.regs.isSet Flag.carry) (m.bus.read a)
      some ⟨next new.value ⟨m.regs.setLastResult new.value, new.carry, none⟩,
        m.bus.write a new.value, 0⟩ := rfl

/-- Moves PC by a distance if the flag has the expected value. -/
def branchBy (distance flag : UInt8) (expected : Bool) (m : Machine) : Outcome :=
  if m.regs.isSet flag = expected then
    let target := Address.offsetSigned m.regs.pc distance
    { effect := ⟨m.regs.setPc target.1, none, none⟩
      bus := m.bus
      branchCycles := branchCycles true target.2 }
  else .ofMachine m

/-- Pushes the address of the last byte of the instruction and goes to the
target. -/
def call (target : Address) (m : Machine) : Machine :=
  let saved := m.pushWord (m.regs.pc - 1)
  { saved with regs := saved.regs.setPc target }

/-- Goes to the address after the popped one. -/
def leaveSubroutine (m : Machine) : Machine :=
  let popped := m.popWord
  { popped.2 with regs := popped.2.regs.setPc (popped.1 + 1) }

/-- Pops the status byte and then PC. -/
def leaveInterrupt (m : Machine) : Machine :=
  let status := m.pop
  let m := { status.2 with regs := status.2.regs.setStatus status.1 }
  let popped := m.popWord
  { popped.2 with regs := popped.2.regs.setPc popped.1 }

/-- Carries out an action on a machine whose PC is past the instruction. -/
def run (action : Action) (operand : Operand) (m : Machine) : Option Outcome :=
  match action with
  | take f => (operand.byte? m).map fun v => ⟨f v ⟨m.regs, none, none⟩, m.bus, 0⟩
  | store value =>
    operand.address?.map fun a => .ofMachine { m with bus := m.bus.write a (value m.regs) }
  | modify change next => replace change next operand m
  | internal f => some (.ofMachine { m with regs := f m.regs })
  | push value => some (.ofMachine (m.push (value m.regs)))
  | pull f =>
    let popped := m.pop
    some (.ofMachine { popped.2 with regs := f popped.2.regs popped.1 })
  | branch flag expected =>
    match operand with
    | .relative distance => some (branchBy distance flag expected m)
    | _ => none
  | jump => operand.address?.map fun a => .ofMachine { m with regs := m.regs.setPc a }
  | callSubroutine => operand.address?.map fun a => .ofMachine (call a m)
  | returnFromSubroutine => some (.ofMachine (leaveSubroutine m))
  | returnFromInterrupt => some (.ofMachine (leaveInterrupt m))
  | softwareInterrupt => some (.ofMachine (Interrupt.brk.enter m))

end Action
end Cpu6502
