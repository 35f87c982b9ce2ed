/-
# What an instruction acts on

A machine is the register file and the bus; instructions and interrupt
entries turn one machine into another. The stack lives in page one and grows
downwards: SP is the low byte of the next free place and wraps within the
page, so no push or pop ever leaves it. A word is pushed high byte first, and
so lies in memory low byte first.

Key definitions: `Machine`, `Machine.push`, `Machine.pop`,
`Machine.pushWord`, `Machine.popWord`.
-/
import Cpu6502.Bus
import Cpu6502.Registers

namespace Cpu6502

/-- Registers and bus. -/
structure Machine where
  regs : Registers
  bus : Bus

namespace Machine

/-- The first address of the stack page. -/
def stackBase : Address := 0x0100

/-- The address SP stands for. -/
def stackAddress (sp : UInt8) : Address := stackBase + sp.toUInt16

/-- Stores a byte at the free place and moves SP down. -/
def push (m : Machine) (v : UInt8) : Machine where
  regs := m.regs.setSp (m.regs.sp - 1)
  bus := m.bus.write (stackAddress m.regs.sp) v

/-- Moves SP up and reads the byte there. -/
def pop (m : Machine) : UInt8 × Machine :=
  (m.bus.read (stackAddress (m.regs.sp + 1)), { m with regs := m.regs.setSp (m.regs.sp + 1) })

/-- Pushes the high byte, then the low byte. -/
def pushWord (m : Machine) (w : UInt16) : Machine := (m.push (Address.high w)).push (Address.low w)

/-- Pops the low byte, then the high byte. -/
def popWord (m : Machine) : UInt16 × Machine :=
  let lo := m.pop
  let hi := lo.2.pop
  (Address.ofBytes lo.1 hi.1, hi.2)

end Machine
end Cpu6502
