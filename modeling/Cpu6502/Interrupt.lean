/-
# Interrupts

An NMI, an IRQ and the instruction BRK enter their handler in the same way:
push PC and the status byte, disable further IRQs, and take PC from a vector
at the top of memory. Only BRK's copy of the status byte has the break bit.

The host raises interrupts on two lines. An NMI is an edge: it is remembered
once and used up when it is served. An IRQ is a level, heeded while the
interrupt-disable flag is clear. An NMI goes first.

Key definitions: `Interrupt`, `Interrupt.vector`, `Interrupt.enter`,
`InterruptLines`, `InterruptLines.next`.
-/
import Cpu6502.Machine

namespace Cpu6502

/-- The three ways into a handler. -/
inductive Interrupt
  | nmi
  | irq
  /-- The instruction BRK. -/
  | brk
  deriving DecidableEq, Repr

namespace Interrupt

/-- Holds the address of the NMI handler. -/
def nmiVector : Address := 0xFFFA

/-- Holds the address where execution starts. -/
def resetVector : Address := 0xFFFC

/-- Holds the address of the handler that IRQ and BRK share. -/
def irqVector : Address := 0xFFFE

/-- Where the address of the handler is found. -/
def vector : Interrupt → Address
  | nmi => nmiVector
  | irq | brk => irqVector

/-- The pushed status byte has the break bit set. -/
def setsBreak : Interrupt → Bool
  | brk => true
  | _ => false

/-- Goes to the handler. The vector is read after the pushes. -/
def enter (kind : Interrupt) (m : Machine) : Machine :=
  let saved := (m.pushWord m.regs.pc).push (m.regs.pushedStatus kind.setsBreak)
  { saved with
    regs := (saved.regs.assign Flag.irqDisable true).setPc (saved.bus.readWord kind.vector) }

end Interrupt

/-- What the host asks for. -/
structure InterruptLines where
  nmiPending : Bool := false
  irqAsserted : Bool := false
  deriving DecidableEq

namespace InterruptLines

/-- The interrupt to serve now, given the interrupt-disable flag. -/
def next (lines : InterruptLines) (masked : Bool) : Option Interrupt :=
  if lines.nmiPending then some .nmi
  else if lines.irqAsserted && !masked then some .irq
  else none

/-- The lines once `next` is being served: an NMI is used up, a level stays. -/
def acknowledge (lines : InterruptLines) : InterruptLines := { lines with nmiPending := false }

end InterruptLines
end Cpu6502
