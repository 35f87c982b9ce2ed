/-
# What a reset forgets

A reset makes every part of the processor anew but its configuration, so two
processors that are configured alike are one after a reset, whatever became of
them before (`Computer.reset_cpu_eq`). The bus is not reset. Its memory and its
mapping are meant to stay; a fault that an earlier write has left behind stays
as well, but no step can see it: a step that does anything opens a transaction
first, and buses that differ in the fault only are then one
(`Computer.Twin.advance_eq`). Nothing else asks for the fault, so from the reset
on every session is answered alike (`Computer.reset_forgets`).

Key definitions: `Bus.SameContents`.
Key theorems: `Bus.SameContents.begin_eq`, `Computer.Twin.advance_eq`,
`Computer.step_sameContents`, `Computer.reset_forgets`.
-/
import Cpu6502.Proofs.Session

namespace Cpu6502

/-! ### Buses that differ in the fault -/

/-- The buses differ at most in the fault that an earlier write has left. -/
structure Bus.SameContents (b d : Bus) : Prop where
  memory : b.memory = d.memory
  mapping : b.mapping = d.mapping
  inTransaction : b.inTransaction = d.inTransaction
  journal : b.journal = d.journal

namespace Bus.SameContents

variable {b d : Bus}

theorem refl (b : Bus) : b.SameContents b := ⟨rfl, rfl, rfl, rfl⟩

theorem locate_eq (h : b.SameContents d) (a : Address) : b.locate a = d.locate a := by
  rw [locate, locate, h.mapping]

/-- Opening a transaction drops the fault. -/
theorem begin_eq (h : b.SameContents d) : b.begin = d.begin := by
  rw [begin, begin, h.memory, h.mapping]

theorem put (h : b.SameContents d) (slot : UInt16) (v : UInt8) :
    (b.put slot v).SameContents (d.put slot v) := by
  cases hd : d.inTransaction with
  | false =>
    rw [put_stored _ _ hd, put_stored _ _ (h.inTransaction.trans hd)]
    exact { h with memory := congrArg (·.set slot v) h.memory }
  | true =>
    rw [put_staged _ _ hd, put_staged _ _ (h.inTransaction.trans hd)]
    exact { h with journal := congrArg ((slot, v) :: ·) h.journal }

/-- Programs do not see the fault. -/
theorem alike : Bus.Alike SameContents where
  read {b d} h a := by
    rw [read, read, visible, visible, h.inTransaction, h.journal, h.memory, h.locate_eq]
  write {b d} h a v := by
    unfold write
    rw [h.locate_eq]
    cases (d.locate a).readOnly with
    | true => exact { h with }
    | false => exact h.put (d.locate a).slot v

end Bus.SameContents

/-! ### Steps and sessions -/

namespace Computer

variable {c d : Computer}

/-- **A reset keeps the configuration only.** -/
theorem reset_cpu_eq (hconfig : c.cpu.config = d.cpu.config) (hbus : c.bus.SameContents d.bus) :
    c.reset.cpu = d.reset.cpu := by
  simp only [reset, hconfig, Bus.readWord_alike Bus.SameContents.alike hbus]

/-- Once the step is opened, nothing is left of the difference. -/
theorem Twin.advance_eq (h : c.Twin Bus.SameContents d) : c.advance = d.advance := by
  have hopen : c.openStep = d.openStep := by
    rw [openStep, openStep, h.cpu, h.bus.begin_eq]
  unfold advance
  rw [hopen]

theorem step_sameContents (h : c.Twin Bus.SameContents d) :
    c.step.1 = d.step.1 ∧ c.step.2.Twin Bus.SameContents d.step.2 := by
  have hsame {e f : Computer} (hef : e.Twin Bus.SameContents f) :
      e.advance.1 = f.advance.1 ∧ e.advance.2.Twin Bus.SameContents f.advance.2 := by
    rw [hef.advance_eq]
    exact ⟨rfl, rfl, .refl _⟩
  unfold step
  rw [h.cpu]
  cases d.cpu.phase with
  | halted => exact ⟨rfl, h⟩
  | reset => exact hsame (reset_alike Bus.SameContents.alike h)
  | fetching | executing => exact hsame h

/-- **A reset erases all history.** Two processors that are configured alike, on
buses with the same memory and mapping, are the same after a reset, and the
buses are as before; the next step leads both to the same computer. Every
session that follows, in which the host leaves it to programs to change the bus,
is answered alike and leads to the same processor and the same memory. A
processor that was just powered on makes its first step as if it were reset
before, whatever its registers and interrupt lines. -/
theorem reset_forgets (hconfig : c.cpu.config = d.cpu.config)
    (hbus : c.bus.SameContents d.bus) :
    c.reset.cpu = d.reset.cpu ∧ c.reset.bus = c.bus ∧ d.reset.bus = d.bus ∧
      c.reset.step = d.reset.step ∧
      (∀ requests : List Request, (∀ request ∈ requests, request.sparesBus = true) →
        (c.reset.session requests).1 = (d.reset.session requests).1 ∧
        (c.reset.session requests).2.cpu = (d.reset.session requests).2.cpu ∧
        (c.reset.session requests).2.bus.SameContents (d.reset.session requests).2.bus) ∧
      ∀ e : Computer, e.cpu.phase = .reset → e.step = e.reset.step := by
  have htwin : c.reset.Twin Bus.SameContents d.reset := ⟨reset_cpu_eq hconfig hbus, hbus⟩
  refine ⟨htwin.cpu, rfl, rfl, htwin.advance_eq, fun requests hr => ?_,
    fun e he => step_of_phase_reset he⟩
  obtain ⟨hreplies, hlast⟩ := session_alike Bus.SameContents.alike step_sameContents htwin hr
  exact ⟨hreplies, hlast.cpu, hlast.bus⟩

/-- `INX` and `BRK` at `$0200`, where the reset leads. -/
def fresh : Computer where
  cpu := .powerOn { resetPc := some 0x0200 }
  bus := (Bus.withMapping (Nrom.ofSize 16384).toMapping).load 0x0200 [0xE8, 0x00]

/-- The same after a life: halted, with both interrupts pending, and a fault left
on the bus. -/
def worn : Computer where
  cpu :=
    { regs := { fresh.cpu.regs with a := 0x42, x := 0x07, sp := 0x10, p := 0xFF, pc := 0x9000 }
      config := fresh.cpu.config
      phase := .halted
      haltReason := some (.illegalOpcode 0x02 0x9000)
      lines := { nmiPending := true, irqAsserted := true }
      lastCycles := 7 }
  bus := { fresh.bus with fault := some ⟨0x8000, 0x55⟩ }

theorem reset_forgets_worn : worn.step.1 = .ok false ∧ worn.reset.cpu = fresh.reset.cpu ∧
    worn.reset.step = fresh.reset.step ∧
    (worn.reset.session [.run 1, .triggerNmi, .set (.a 0x10), .run 3]).1 =
      (fresh.reset.session [.run 1, .triggerNmi, .set (.a 0x10), .run 3]).1 ∧
    fresh.step = fresh.reset.step := by
  obtain ⟨hcpu, -, -, hstep, hsession, hfirst⟩ :=
    reset_forgets (c := worn) (d := fresh) rfl ⟨rfl, rfl, rfl, rfl⟩
  exact ⟨rfl, hcpu, hstep, (hsession _ (by decide)).1, hfirst fresh rfl⟩

end Computer
end Cpu6502
