/-
# The processor

A processor is its registers together with what drives them: the
configuration, the phase it is in, the reason of a halt, the interrupt lines and
the cycles of the last step. It starts in the phase `reset`, is `fetching`
between steps, and stays `halted` until it is reset.

Key definitions: `Phase`, `Processor`, `Processor.powerOn`.
-/
import Cpu6502.HaltReason
import Cpu6502.Interrupt

namespace Cpu6502

/-- Where a processor stands between calls of its host. -/
inductive Phase
  /-- Powered on; the first step performs the reset. -/
  | reset
  /-- Between instructions. -/
  | fetching
  /-- An instruction or interrupt entry is under way. -/
  | executing
  /-- Stopped for good. -/
  | halted
  deriving DecidableEq

/-- Registers and what drives them. -/
structure Processor where
  regs : Registers
  config : Config
  phase : Phase
  /-- Why the processor halted, if it did. -/
  haltReason : Option HaltReason
  lines : InterruptLines
  /-- The cycles of the last step, if it succeeded. -/
  lastCycles : Nat
  deriving DecidableEq

namespace Processor

/-- A processor that was just switched on. -/
def powerOn (config : Config) : Processor where
  regs := .powerOn config
  config := config
  phase := .reset
  haltReason := none
  lines := {}
  lastCycles := 0

/-- The processor does nothing until it is reset. -/
def isHalted (cpu : Processor) : Bool := cpu.phase == .halted

theorem isHalted_iff {cpu : Processor} : cpu.isHalted = true ↔ cpu.phase = .halted := beq_iff_eq

theorem isHalted_eq_false_iff {cpu : Processor} : cpu.isHalted = false ↔ cpu.phase ≠ .halted :=
  beq_eq_false_iff_ne

/-- Changes the registers from outside. -/
def updateRegs (cpu : Processor) (f : Registers → Registers) : Processor :=
  { cpu with regs := f cpu.regs }

/-- Asks for a non-maskable interrupt. -/
def triggerNmi (cpu : Processor) : Processor :=
  { cpu with lines := { cpu.lines with nmiPending := true } }

/-- Drives the level of the interrupt request line. -/
def setIrqLine (cpu : Processor) (asserted : Bool) : Processor :=
  { cpu with lines := { cpu.lines with irqAsserted := asserted } }

end Processor
end Cpu6502
