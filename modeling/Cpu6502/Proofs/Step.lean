/-
# What a step can do

A step of a computer that is not halted opens a transaction on the bus and
does its work there: an interrupt entry or an instruction. It ends in one of
three ways (`Computer.Stepped`): the work is committed, the work cannot be
done, or a write of it was rejected. The last two are rolled back and halt
the processor, and then all that is left of the step is the halt
(`Computer.step_error_atomic`).

A step that finds the processor in the phase `reset` resets it first;
`Computer.started` is the computer the step proper begins with.

Key definitions: `Computer.started`, `Computer.opened`, `Computer.Stepped`,
`Bus.Over`.
Key theorems: `Computer.step_stepped`, `Bus.Over.work`,
`Computer.step_error_atomic`.
-/
import Cpu6502.Proofs.Alike

namespace Cpu6502

/-! ### A bus in a transaction -/

/-- Writes to the bus are being staged over this memory and mapping. -/
structure Bus.Over (memory : Memory) (mapping : Mapping) (bus : Bus) : Prop where
  staging : bus.inTransaction = true
  memory : bus.memory = memory
  mapping : bus.mapping = mapping

theorem Bus.over_begin (bus : Bus) : bus.begin.Over bus.memory bus.mapping := ⟨rfl, rfl, rfl⟩

/-- While writes are staged they do not reach the memory. -/
theorem Bus.Over.write {memory : Memory} {mapping : Mapping} {bus : Bus}
    (h : bus.Over memory mapping) (a : Address) (v : UInt8) : (bus.write a v).Over memory mapping := by
  obtain ⟨hs, hm, hp⟩ := h
  unfold Bus.write
  split
  · exact ⟨hs, hm, hp⟩
  · rw [Bus.put_staged _ _ hs]
    exact ⟨hs, hm, hp⟩

theorem Bus.Over.work {memory : Memory} {mapping : Mapping} {cpu : Processor} {m n : Machine}
    {cycles : Nat} (hm : m.bus.Over memory mapping) (h : Computer.work cpu m = .ok (n, cycles)) :
    n.bus.Over memory mapping :=
  Computer.work_keeps (P := Bus.Over memory mapping) (fun _ a v hb => hb.write a v) hm h

/-- Every address is its own slot; one of them is protected. -/
def Mapping.guarding (protectedAddress : Address) : Mapping where
  name := "guarding"
  map a := ⟨a, a == protectedAddress⟩

namespace Computer

/-! ### The ways a step ends -/

/-- The computer that the step proper begins with. -/
def started (c : Computer) : Computer :=
  match c.cpu.phase with
  | .reset => c.reset
  | _ => c

/-- The machine that the work of a step begins with: its writes are staged. -/
def opened (c : Computer) : Machine := ⟨c.cpu.regs, c.bus.begin⟩

/-- What a step answers and where it leads. -/
inductive Stepped (c : Computer) : Except HaltReason Bool → Computer → Prop
  /-- A halted processor does nothing. -/
  | idle (hp : c.cpu.isHalted = true) : Stepped c (.ok false) c
  /-- The work is done and no write of it was rejected. -/
  | done (m : Machine) (cycles : Nat) (hp : c.cpu.isHalted = false)
      (hw : work c.started.cpu c.started.opened = .ok (m, cycles)) (hf : m.bus.fault = none) :
      Stepped c (.ok true) (c.started.complete m cycles)
  /-- The work cannot be done. -/
  | refused (reason : HaltReason) (hp : c.cpu.isHalted = false)
      (hw : work c.started.cpu c.started.opened = .error reason) :
      Stepped c (.error reason) (c.started.abort c.started.opened.bus reason)
  /-- A write of the work was rejected. -/
  | rejected (m : Machine) (cycles : Nat) (fault : ProtectionFault) (hp : c.cpu.isHalted = false)
      (hw : work c.started.cpu c.started.opened = .ok (m, cycles)) (hf : m.bus.fault = some fault) :
      Stepped c (.error (.protectedWrite fault.address fault.value c.started.cpu.regs.pc))
        (c.started.abort m.bus (.protectedWrite fault.address fault.value c.started.cpu.regs.pc))

/-- A reset, explicit or implied, does not touch the bus. -/
theorem started_bus (c : Computer) : c.started.bus = c.bus := by
  unfold started
  split <;> rfl

theorem started_config (c : Computer) : c.started.cpu.config = c.cpu.config := by
  unfold started
  split <;> rfl

/-- The step proper, on a computer that is started. -/
theorem advance_stepped {c : Computer} (hp : c.cpu.isHalted = false) :
    c.Stepped c.started.advance.1 c.started.advance.2 := by
  have hadvance : c.started.advance =
      c.started.openStep.conclude (work c.started.cpu c.started.opened) := rfl
  rw [hadvance]
  cases hw : work c.started.cpu c.started.opened with
  | error reason => exact .refused reason hp hw
  | ok done =>
    obtain ⟨m, cycles⟩ := done
    cases hf : m.bus.fault with
    | none =>
      simp only [conclude, hf]
      exact .done m cycles hp hw hf
    | some fault =>
      simp only [conclude, hf]
      exact .rejected m cycles fault hp hw hf

theorem step_eq_advance {c : Computer} (hp : c.cpu.isHalted = false) :
    c.step = c.started.advance := by
  cases hphase : c.cpu.phase with
  | halted => exact absurd hphase (Processor.isHalted_eq_false_iff.mp hp)
  | reset | fetching | executing => simp only [step, started, hphase]

theorem step_of_isHalted {c : Computer} (h : c.cpu.isHalted = true) : c.step = (.ok false, c) := by
  simp only [step, Processor.isHalted_iff.mp h]

/-- Every step ends in one of these ways. -/
theorem step_stepped (c : Computer) : c.Stepped c.step.1 c.step.2 := by
  cases hp : c.cpu.isHalted with
  | false =>
    rw [step_eq_advance hp]
    exact advance_stepped hp
  | true =>
    rw [step_of_isHalted hp]
    exact .idle hp

theorem stepped_of_eq {c c' : Computer} {answer : Except HaltReason Bool}
    (h : c.step = (answer, c')) : c.Stepped answer c' := by
  have hs := step_stepped c
  rw [h] at hs
  exact hs

theorem started_phase (c : Computer) : c.started.cpu.phase ≠ .reset := by
  unfold started
  split
  · exact Phase.noConfusion
  · assumption

theorem started_of_phase {c : Computer} (h : c.cpu.phase ≠ .reset) : c.started = c := by
  unfold started
  split
  · contradiction
  · rfl

theorem started_of_isHalted {c : Computer} (h : c.cpu.isHalted = true) : c.started = c :=
  started_of_phase (by simp [Processor.isHalted_iff.mp h])

theorem started_isHalted {c : Computer} (h : c.cpu.isHalted = false) :
    c.started.cpu.isHalted = false := by
  unfold started
  split
  · rfl
  · exact h

/-- The first step of a processor that was just powered on resets it. -/
theorem step_of_phase_reset {c : Computer} (h : c.cpu.phase = .reset) : c.step = c.reset.step := by
  simp only [step, h]
  rfl

/-- A step resets a processor that was just powered on, and then it is the same
step. -/
theorem step_started (c : Computer) : c.started.step = c.step := by
  cases hp : c.cpu.phase with
  | reset => rw [step_of_phase_reset hp, started, hp]
  | _ => rw [started_of_phase (by simp [hp])]

theorem step_phase (c : Computer) : c.step.2.cpu.phase ≠ .reset := by
  have hstep := step_stepped c
  generalize c.step.1 = answer at hstep
  generalize c.step.2 = c' at hstep ⊢
  cases hstep with
  | idle hp => simp [Processor.isHalted_iff.mp hp]
  | done | refused | rejected => exact Phase.noConfusion

theorem step_config (c : Computer) : c.step.2.cpu.config = c.cpu.config := by
  have hstep := step_stepped c
  generalize c.step.1 = answer at hstep
  generalize c.step.2 = c' at hstep ⊢
  cases hstep with
  | idle => rfl
  | done | refused | rejected => exact started_config c

/-- Work without a rejected write makes a step. -/
theorem step_of_work {c : Computer} (hh : c.cpu.isHalted = false) {m : Machine} {cycles : Nat}
    (hw : work c.started.cpu c.started.opened = .ok (m, cycles)) (hf : m.bus.fault = none) :
    c.step = (.ok true, c.started.complete m cycles) := by
  suffices c.step.1 = .ok true ∧ c.step.2 = c.started.complete m cycles from
    Prod.ext this.1 this.2
  have hstep := step_stepped c
  generalize c.step.1 = answer at hstep ⊢
  generalize c.step.2 = c' at hstep ⊢
  cases hstep with
  | idle hp => cases hh.symm.trans hp
  | done m' cycles' _ hw' hf' =>
    cases hw.symm.trans hw'
    exact ⟨rfl, rfl⟩
  | refused reason _ hw' => cases hw.symm.trans hw'
  | rejected m' cycles' fault _ hw' hf' =>
    cases hw.symm.trans hw'
    cases hf.symm.trans hf'

/-! ### Failed steps -/

/-- **A failed step leaves no trace but the halt.** Registers and interrupt
lines are those the step began with, memory and mapping are untouched, and
nothing stays staged or latched on the bus. -/
theorem step_error_atomic {c c' : Computer} {reason : HaltReason}
    (h : c.step = (.error reason, c')) :
    c'.cpu.regs = c.started.cpu.regs ∧ c'.cpu.lines = c.started.cpu.lines ∧
      c'.cpu.config = c.cpu.config ∧ c'.cpu.lastCycles = 0 ∧
      c'.cpu.phase = .halted ∧ c'.cpu.haltReason = some reason ∧
      (∀ slot, c'.bus.memory.get slot = c.bus.memory.get slot) ∧ c'.bus.mapping = c.bus.mapping ∧
      c'.bus.inTransaction = false ∧ c'.bus.journal = [] ∧ c'.bus.fault = none := by
  have hover : c.started.opened.bus.Over c.bus.memory c.bus.mapping :=
    started_bus c ▸ c.started.bus.over_begin
  -- however it failed, what was rolled back lies over the memory of before
  have hbus : ∃ bus : Bus, bus.Over c.bus.memory c.bus.mapping ∧
      c' = c.started.abort bus reason := by
    cases stepped_of_eq h with
    | refused _ _ hw => exact ⟨_, hover, rfl⟩
    | rejected m cycles fault _ hw hf => exact ⟨m.bus, hover.work hw, rfl⟩
  obtain ⟨bus, hb, rfl⟩ := hbus
  refine ⟨rfl, rfl, started_config c, rfl, rfl, rfl, fun slot => ?_, hb.mapping, rfl, rfl, rfl⟩
  simp only [abort, Bus.rollback, hb.memory]

/-- An NMI is pending, and the last of the three bytes that its entry pushes
falls on a protected address. -/
def nmiOnGuard : Computer where
  cpu := { Processor.powerOn {} with
    regs := { Registers.powerOn { resetSp := 0x00 } with pc := 0x0200 }
    phase := .fetching
    lines := { nmiPending := true }
    lastCycles := 4 }
  bus := { Bus.withMapping (.guarding 0x01FE) with fault := some ⟨0x01FE, 0x00⟩ }

theorem step_error_atomic_nmi :
    nmiOnGuard.step.1 = .error (.protectedWrite 0x01FE 0x24 0x0200) ∧
      nmiOnGuard.step.2.cpu.lines.nmiPending = true ∧
      nmiOnGuard.step.2.cpu.regs = nmiOnGuard.cpu.regs ∧
      (∀ slot, nmiOnGuard.step.2.bus.memory.get slot = 0) ∧
      nmiOnGuard.step.2.bus.fault = none := by
  have hfails : nmiOnGuard.step.1 = .error (.protectedWrite 0x01FE 0x24 0x0200) := rfl
  have hstep : nmiOnGuard.step =
      (.error (.protectedWrite 0x01FE 0x24 0x0200), nmiOnGuard.step.2) := Prod.ext hfails rfl
  obtain ⟨hregs, hlines, -, -, -, -, hmemory, -, -, -, hfault⟩ := step_error_atomic hstep
  refine ⟨hfails, by rw [hlines]; rfl, hregs, fun slot => ?_, hfault⟩
  rw [hmemory]
  exact Memory.get_zeroed slot

end Computer
end Cpu6502
