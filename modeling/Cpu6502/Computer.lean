/-
# The computer: a processor on a bus

A step executes one instruction or serves one interrupt. Its writes are
staged on the bus; when it succeeds they are committed, and when it fails
(an illegal opcode, a write to protected memory) they are dropped, registers
and interrupt lines are put back as they were, and the processor halts with
the reason. So a failed step leaves no trace but the halt, and an NMI it had
used up is pending again.

Key definitions: `Computer.reset`, `Computer.step`, `Computer.run`.
-/
import Cpu6502.Instruction
import Cpu6502.Processor

namespace Cpu6502

/-- A processor and the bus it works on. -/
structure Computer where
  cpu : Processor
  bus : Bus

namespace Computer

/-- Power-on registers, PC from the configuration or the RESET vector, no
interrupt pending. Memory is not touched. -/
def reset (c : Computer) : Computer :=
  let target := c.cpu.config.resetPc.getD (c.bus.readWord Interrupt.resetVector)
  { c with cpu := { Processor.powerOn c.cpu.config with
      regs := (Registers.powerOn c.cpu.config).setPc target
      phase := .fetching } }

/-- What the processor does next: serve an interrupt or execute the
instruction at PC. The result is the machine it leads to and the cycles, or
the reason why the instruction cannot be executed. -/
def work (cpu : Processor) (m : Machine) : Except HaltReason (Machine × Nat) :=
  match cpu.lines.next (m.regs.isSet Flag.irqDisable) with
  | some kind => .ok (kind.enter m, interruptCycles)
  | none => (m.instruction cpu.config.undocumentedOpcodes).map fun done =>
      (done.1, done.2.total)

/-- Ends a step that succeeded: keeps its writes and counts its cycles. -/
def complete (c : Computer) (m : Machine) (cycles : Nat) : Computer where
  cpu := { c.cpu with
    regs := m.regs.addCycles cycles
    phase := .fetching
    lines := c.cpu.lines.acknowledge
    lastCycles := cycles }
  bus := m.bus.commit

/-- Ends a step that failed: drops its writes and halts. Registers and lines
are those of before the step. -/
def abort (c : Computer) (bus : Bus) (reason : HaltReason) : Computer where
  cpu := { c.cpu with phase := .halted, haltReason := some reason, lastCycles := 0 }
  bus := bus.rollback

/-- Opens a step: from here on writes are staged. -/
def openStep (c : Computer) : Computer where
  cpu := { c.cpu with phase := .executing }
  bus := c.bus.begin

/-- Ends a step whose work came to this. A rejected write makes it a failure. -/
def conclude (c : Computer) : Except HaltReason (Machine × Nat) → Except HaltReason Bool × Computer
  | .error reason => (.error reason, c.abort c.bus reason)
  | .ok (m, cycles) =>
    match m.bus.fault with
    | some fault =>
      let reason := .protectedWrite fault.address fault.value c.cpu.regs.pc
      (.error reason, c.abort m.bus reason)
    | none => (.ok true, c.complete m cycles)

/-- One instruction or interrupt entry, all of it or nothing. -/
def advance (c : Computer) : Except HaltReason Bool × Computer :=
  let c := c.openStep
  c.conclude (work c.cpu ⟨c.cpu.regs, c.bus⟩)

/-- Executes one instruction or serves one interrupt; a processor that was
just powered on is reset first. The answer is `false`, and nothing happens,
on a halted processor. -/
def step (c : Computer) : Except HaltReason Bool × Computer :=
  match c.cpu.phase with
  | .halted => (.ok false, c)
  | .reset => c.reset.advance
  | .fetching | .executing => c.advance

/-- Steps until `limit` more steps are done or a step does nothing or fails,
having done `count` steps before. -/
def runFrom (count : Nat) : Nat → Computer → Except HaltReason Nat × Computer
  | 0, c => (.ok count, c)
  | limit + 1, c =>
    match c.step with
    | (.error reason, c') => (.error reason, c')
    | (.ok false, c') => (.ok count, c')
    | (.ok true, c') => runFrom (count + 1) limit c'

/-- Makes up to `limit` steps and tells how many were made. -/
def run (limit : Nat) (c : Computer) : Except HaltReason Nat × Computer := runFrom 0 limit c

end Computer
end Cpu6502
