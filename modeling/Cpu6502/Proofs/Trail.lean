/-
# Instructions in a row

A processor that is not halted, on a bus at rest, with no interrupt to serve, is
ready: its next step executes the instruction at PC
(`Computer.Ready`). A documented instruction whose writes are accepted is
performed (`Computer.Ready.performs`), and unless it may change the
interrupt-disable flag the computer is ready again
(`Computer.Performs.ready`). So a program is followed from one instruction to
the next; what it did is a trail, a list of labels, one for each step
(`Computer.Trail`), and a run makes as many steps as the trail has labels.

What the step does is what the instruction does to the machine that the step
finds: `Computer.Performs.regs` for the registers, `Computer.Performs.read` and
`Computer.Performs.changesAt` for the memory.

Key definitions: `Computer.Ready`, `Computer.Performs`, `Computer.Trail`.
Key theorems: `Computer.Ready.performs`, `Computer.Performs.ready`,
`Computer.Trail.append`, `Computer.Trail.split`, `Computer.Trail.run`.
-/
import Cpu6502.Proofs.AffectedFlags
import Cpu6502.Proofs.Footprint

namespace Cpu6502
namespace Computer

/-- The next step executes an instruction. -/
structure Ready (c : Computer) : Prop where
  running : c.cpu.isHalted = false
  atRest : c.bus.AtRest
  undisturbed : c.started.cpu.lines.next (c.started.cpu.regs.isSet Flag.irqDisable) = none

/-- The step of `c` succeeds in executing this instruction, and leads to `c'`. -/
structure Performs (c : Computer) (op : Opcode) (c' : Computer) : Prop where
  atRest : c.bus.AtRest
  undisturbed : c.started.cpu.lines.next (c.started.cpu.regs.isSet Flag.irqDisable) = none
  decoded : Opcode.decode? (c.found.bus.read c.found.regs.pc) = some op
  step : c.step = (.ok true, c')

/-- The step of `c` succeeds in executing an instruction with this mnemonic. -/
def Does (c : Computer) (mnemonic : Mnemonic) (c' : Computer) : Prop :=
  ∃ op, c.Performs op c' ∧ op.mnemonic = mnemonic

/-! ### One instruction -/

/-- **A documented instruction is performed** if its writes are accepted. -/
theorem Ready.performs {c : Computer} (hr : c.Ready) {op : Opcode}
    (hop : Opcode.decode? (c.found.bus.read c.found.regs.pc) = some op)
    (hd : op.documented = true)
    (ha : ∀ w ∈ op.writes c.found, (c.bus.locate w.address).readOnly = false) :
    ∃ c', c.Performs op c' := by
  obtain ⟨hrefuses, hissued⟩ := issued_of_documented hr.undisturbed hop hd
  have hok : c.step.1 = .ok true :=
    step_ok_of_accepted hr.running hr.atRest hrefuses (hissued ▸ ha)
  exact ⟨c.step.2, hr.atRest, hr.undisturbed, hop, Prod.ext hok rfl⟩

namespace Performs

variable {c c' : Computer} {op : Opcode}

theorem of_step (hok : c.step.1 = .ok true) (hs : c.bus.AtRest)
    (hi : c.started.cpu.lines.next (c.started.cpu.regs.isSet Flag.irqDisable) = none)
    (hop : Opcode.decode? (c.found.bus.read c.found.regs.pc) = some op) :
    c.Performs op c.step.2 :=
  ⟨hs, hi, hop, Prod.ext hok rfl⟩

theorem execute (h : c.Performs op c') : ∃ n cycles, op.execute c.found = some (n, cycles) ∧
    c'.cpu.regs = n.regs.addCycles cycles.total := by
  obtain ⟨op', n, cycles, hop, he, hregs, -⟩ :=
    step_ok_instruction h.atRest h.undisturbed h.step
  cases h.decoded.symm.trans hop
  exact ⟨n, cycles, he, hregs⟩

theorem regs (h : c.Performs op c') {n : Machine} {cycles : Cycles}
    (he : op.execute c.found = some (n, cycles)) :
    c'.cpu.regs = n.regs.addCycles cycles.total := by
  obtain ⟨n', cycles', he', hregs⟩ := h.execute
  cases he.symm.trans he'
  exact hregs

theorem started (h : c.Performs op c') : c'.started = c' := by
  refine started_of_phase fun hp => c.step_phase ?_
  rw [h.step]
  exact hp

theorem found (h : c.Performs op c') : c'.found = ⟨c'.cpu.regs, c'.bus⟩ := by
  rw [Computer.found, h.started]

theorem found_regs (h : c.Performs op c') {n : Machine} {cycles : Cycles}
    (he : op.execute c.found = some (n, cycles)) :
    c'.found.regs = n.regs.addCycles cycles.total := by
  rw [h.found]
  exact h.regs he

theorem changesAt (h : c.Performs op c') : c.bus.ChangesAt (op.footprint c.found) c'.bus := by
  rw [← op.writes_footprint, ← step_ok_writes h.atRest h.undisturbed h.step h.decoded]
  exact step_ok_changesAt h.atRest h.step

theorem atRest_after (h : c.Performs op c') : c'.bus.AtRest :=
  (step_ok_memory h.atRest h.step).2.2.1

theorem accepted (h : c.Performs op c') :
    ∀ w ∈ op.writes c.found, (c.bus.locate w.address).readOnly = false := by
  have hnone := (step_ok_issued h.atRest h.step).1
  rw [step_ok_writes h.atRest h.undisturbed h.step h.decoded] at hnone
  intro w hw
  simpa using List.find?_eq_none.mp hnone w hw

/-- Writes that lead apart from each other are all read back. -/
theorem read (h : c.Performs op c')
    (hd : ((op.writes c.found).map fun w => (c.bus.locate w.address).slot).Nodup) :
    ∀ w ∈ op.writes c.found, c'.bus.read w.address = w.value := by
  intro w hw
  rw [(step_ok_issued h.atRest h.step).2,
    step_ok_writes h.atRest h.undisturbed h.step h.decoded]
  exact Bus.read_writeAll h.accepted hd w hw

theorem flag (h : c.Performs op c') {bit : UInt8} (hmem : bit ∈ Flag.all) (hu : bit ≠ Flag.unused)
    (hoff : Status.isSet op.affectedFlags bit = false) :
    c'.cpu.regs.isSet bit = c.found.regs.isSet bit := by
  obtain ⟨n, cycles, he, hregs⟩ := h.execute
  rw [hregs]
  exact (Opcode.execute_changesWithin he).outside bit hmem hu hoff

/-- **A computer stays ready** as long as I stays as it is. -/
theorem ready (h : c.Performs op c')
    (hoff : Status.isSet op.affectedFlags Flag.irqDisable = false) : c'.Ready := by
  have hcpu : c'.cpu.isHalted = false ∧ c'.cpu.lines = c.started.cpu.lines := by
    obtain ⟨op', n, cycles, -, -, hcpu, -⟩ := step_ok_execute h.atRest h.undisturbed h.step
    rw [hcpu]
    exact ⟨rfl, InterruptLines.acknowledge_of_next h.undisturbed⟩
  refine ⟨hcpu.1, h.atRest_after, ?_⟩
  have hkept : c'.cpu.regs.isSet Flag.irqDisable = c.started.cpu.regs.isSet Flag.irqDisable :=
    h.flag (by decide) (by decide) hoff
  rw [h.started, hcpu.2, hkept]
  exact h.undisturbed

end Performs

/-! ### Trails -/

/-- A row of steps, each known by its label to do what `R` says. -/
inductive Trail {α : Type} (R : α → Computer → Computer → Prop) :
    List α → Computer → Computer → Prop
  | nil (c : Computer) : Trail R [] c c
  | cons {label : α} {labels : List α} {c d e : Computer} (first : R label c d)
      (rest : Trail R labels d e) : Trail R (label :: labels) c e

namespace Trail

variable {α : Type} {R : α → Computer → Computer → Prop} {labels labels' : List α}
  {c d e : Computer}

theorem append (h : Trail R labels c d) (h' : Trail R labels' d e) :
    Trail R (labels ++ labels') c e := by
  induction h with
  | nil c => exact h'
  | cons first rest ih => exact .cons first (ih h')

theorem split (h : Trail R (labels ++ labels') c e) :
    ∃ d, Trail R labels c d ∧ Trail R labels' d e := by
  induction labels generalizing c with
  | nil => exact ⟨c, .nil c, h⟩
  | cons label labels ih =>
    cases h with
    | cons first rest =>
      obtain ⟨d, hd, hd'⟩ := ih rest
      exact ⟨d, .cons first hd, hd'⟩

theorem runFrom (hR : ∀ {label c d}, R label c d → c.step = (.ok true, d))
    (h : Trail R labels c d) (count : Nat) :
    Computer.runFrom count labels.length c = (.ok (count + labels.length), d) := by
  induction h generalizing count with
  | nil c => rfl
  | cons first rest ih =>
    rw [List.length_cons, runFrom_succ, hR first]
    exact (ih (count + 1)).trans (by rw [Nat.add_assoc, Nat.add_comm 1])

theorem run (hR : ∀ {label c d}, R label c d → c.step = (.ok true, d))
    (h : Trail R labels c d) : c.run labels.length = (.ok labels.length, d) := by
  have hrun := h.runFrom hR 0
  rwa [Nat.zero_add] at hrun

theorem started (hR : ∀ {label c d}, R label c d → c.step = (.ok true, d))
    (h : Trail R labels c d) (hne : labels ≠ []) : d.started = d := by
  cases h with
  | nil c => exact absurd rfl hne
  | @cons label labels c _ d first rest =>
    have hrun := (Trail.cons first rest).runFrom hR 0
    have hphase := runFrom_phase 0 labels.length c
    rw [List.length_cons] at hrun
    rw [hrun] at hphase
    exact started_of_phase hphase

end Trail
end Computer
end Cpu6502
