/-
# Refusing the undocumented opcodes

A processor may be configured to refuse the undocumented opcodes. The option is
consulted when an opcode is decoded, and nowhere else: a reset, an interrupt
entry, a halt do not depend on it, and a documented opcode is executed alike
whether it is on or off (`Machine.instruction_of_documented`). So a computer and
the same computer refusing undocumented opcodes (`Computer.documentedOnly`) do
the same at every request, up to the step that fetches such an opcode
(`Computer.fetchesUndocumented`). There the first executes it, and the second
halts and keeps what both had before that step (`Computer.documented_lockstep`).

Key definitions: `Computer.documentedOnly`, `Computer.fetchesUndocumented`.
Key theorems: `Computer.work_documentedOnly`, `Computer.step_documentedOnly`,
`Computer.session_documentedOnly`, `Computer.documented_lockstep`.
-/
import Cpu6502.Proofs.Arbitration
import Cpu6502.Proofs.Totality

namespace Cpu6502

/-! ### Decoding -/

/-- The opcode at PC is an undocumented one. -/
def Machine.atUndocumented (m : Machine) : Bool :=
  (Opcode.decode? (m.bus.read m.regs.pc)).any fun op => !op.documented

namespace Machine

variable {m : Machine}

theorem instruction_of_documented (h : m.atUndocumented = false) :
    m.instruction false = m.instruction true := by
  have hallowed : Opcode.allowed? false (m.bus.read m.regs.pc) =
      Opcode.allowed? true (m.bus.read m.regs.pc) := by
    unfold Opcode.allowed?
    cases hop : Opcode.decode? (m.bus.read m.regs.pc) with
    | none => rfl
    | some op =>
      have hdocumented : (!op.documented) = false := (Option.any_eq_false _ _).mp h op hop
      rw [Bool.not_eq_false'] at hdocumented
      simp only [Option.filter_some, hdocumented, Bool.true_or]
  simp only [instruction, hallowed]

theorem instruction_of_undocumented (h : m.atUndocumented = true) :
    m.instruction false = .error (.illegalOpcode (m.bus.read m.regs.pc) m.regs.pc) ∧
      ∃ n cycles, m.instruction true = .ok (n, cycles) := by
  obtain ⟨op, hop, hundocumented⟩ := (Option.any_eq_true _ _).mp h
  rw [Bool.not_eq_true'] at hundocumented
  constructor
  · exact instruction_of_refused
      (Opcode.allowed?_eq_none_iff.mpr (.inr ⟨op, hop, hundocumented, rfl⟩))
  · have hallowed : Opcode.allowed? true (m.bus.read m.regs.pc) = some op := by
      simp only [Opcode.allowed?, hop, Option.filter_some, Bool.or_true, ↓reduceIte]
    obtain ⟨n, cycles, -, hok⟩ := instruction_of_allowed hallowed
    exact ⟨n, cycles, hok⟩

end Machine

/-! ### The same computer, refusing -/

/-- The same processor, configured to refuse undocumented opcodes. -/
def Processor.documentedOnly (cpu : Processor) : Processor :=
  { cpu with config := { cpu.config with undocumentedOpcodes := false } }

namespace Computer

/-- The same computer, configured to refuse undocumented opcodes. -/
def documentedOnly (c : Computer) : Computer := { c with cpu := c.cpu.documentedOnly }

/-- The next step takes no interrupt and fetches an undocumented opcode. -/
def fetchesUndocumented (c : Computer) : Bool :=
  !c.cpu.isHalted &&
    (c.started.cpu.lines.next (c.started.cpu.regs.isSet Flag.irqDisable)).isNone &&
    c.started.opened.atUndocumented

variable {c : Computer}

theorem started_documentedOnly : c.documentedOnly.started = c.started.documentedOnly := by
  have hphase : c.documentedOnly.cpu.phase = c.cpu.phase := rfl
  unfold started
  rw [hphase]
  cases c.cpu.phase <;> rfl

/-! ### Steps -/

/-- An interrupt entry does not look at the option, and neither does an
instruction whose opcode is not undocumented. -/
theorem work_documentedOnly {cpu : Processor} {m : Machine}
    (h : cpu.lines.next (m.regs.isSet Flag.irqDisable) = none → m.atUndocumented = false) :
    work cpu.documentedOnly m = work cpu m := by
  have hlines : cpu.documentedOnly.lines = cpu.lines := rfl
  have hoption : cpu.documentedOnly.config.undocumentedOpcodes = false := rfl
  unfold work
  rw [hlines, hoption]
  cases hnext : cpu.lines.next (m.regs.isSet Flag.irqDisable) with
  | some kind => rfl
  | none =>
    have hsame := Machine.instruction_of_documented (h hnext)
    cases hon : cpu.config.undocumentedOpcodes with
    | false => rfl
    | true => simp only [hsame]

theorem advance_documentedOnly
    (h : c.cpu.lines.next (c.cpu.regs.isSet Flag.irqDisable) = none →
      c.opened.atUndocumented = false) :
    c.documentedOnly.advance = (c.advance.1, c.advance.2.documentedOnly) := by
  have hnext : c.openStep.cpu.lines.next (c.opened.regs.isSet Flag.irqDisable) = none →
      c.opened.atUndocumented = false := h
  have hwork : work c.documentedOnly.openStep.cpu
        ⟨c.documentedOnly.openStep.cpu.regs, c.documentedOnly.openStep.bus⟩ =
      work c.openStep.cpu ⟨c.openStep.cpu.regs, c.openStep.bus⟩ :=
    work_documentedOnly hnext
  simp only [advance, hwork]
  cases work c.openStep.cpu ⟨c.openStep.cpu.regs, c.openStep.bus⟩ with
  | error reason => rfl
  | ok done =>
    obtain ⟨m, cycles⟩ := done
    cases hfault : m.bus.fault with
    | none => simp only [conclude, hfault]; rfl
    | some fault => simp only [conclude, hfault]; rfl

theorem step_documentedOnly (h : c.fetchesUndocumented = false) :
    c.documentedOnly.step = (c.step.1, c.step.2.documentedOnly) := by
  cases hp : c.cpu.isHalted with
  | true =>
    have hp' : c.documentedOnly.cpu.isHalted = true := hp
    rw [step_of_isHalted hp, step_of_isHalted hp']
  | false =>
    have hp' : c.documentedOnly.cpu.isHalted = false := hp
    rw [step_eq_advance hp, step_eq_advance hp', started_documentedOnly]
    refine advance_documentedOnly fun hnext => ?_
    simpa [fetchesUndocumented, hp, hnext] using h

/-! ### The step at which they part -/

theorem fetchesUndocumented_iff : c.fetchesUndocumented = true ↔ c.cpu.isHalted = false ∧
    c.started.cpu.lines.next (c.started.cpu.regs.isSet Flag.irqDisable) = none ∧
      c.started.opened.atUndocumented = true := by
  simp [fetchesUndocumented, and_assoc]

/-- The opcode that the next step finds at PC, as the reason of a halt. -/
def refusal (c : Computer) : HaltReason :=
  .illegalOpcode (c.started.opened.bus.read c.started.cpu.regs.pc) c.started.cpu.regs.pc

/-- A computer that refuses the opcode halts as if the step had not begun. -/
theorem step_of_refused (h : c.fetchesUndocumented = true) : c.documentedOnly.step =
    (.error c.refusal, c.started.documentedOnly.abort c.started.opened.bus c.refusal) := by
  obtain ⟨hrunning, hnext, hundocumented⟩ := fetchesUndocumented_iff.mp h
  have hwork : work c.documentedOnly.started.cpu c.documentedOnly.started.opened =
      .error c.refusal := by
    have hinstruction := (Machine.instruction_of_undocumented hundocumented).1
    have hlines : c.started.documentedOnly.cpu.lines.next
        (c.started.documentedOnly.opened.regs.isSet Flag.irqDisable) = none := hnext
    rw [started_documentedOnly, work, hlines]
    exact congrArg (Except.map fun done => (done.1, done.2.total)) hinstruction
  have hstep := step_stepped c.documentedOnly
  generalize c.documentedOnly.step = result at hstep ⊢
  obtain ⟨answer, after⟩ := result
  simp only at hstep
  cases hstep with
  | idle hp => cases hrunning.symm.trans hp
  | done m cycles _ hw hf => cases hwork.symm.trans hw
  | refused reason _ hw =>
    cases hwork.symm.trans hw
    rw [started_documentedOnly]
    rfl
  | rejected m cycles fault _ hw hf => cases hwork.symm.trans hw

/-- A computer that allows the opcode executes it: only a rejected write can
stop it there. -/
theorem step_of_allowed (h : c.fetchesUndocumented = true)
    (hon : c.cpu.config.undocumentedOpcodes = true) (opcode : UInt8) (address : Address) :
    c.step.1 ≠ .error (.illegalOpcode opcode address) := by
  obtain ⟨hrunning, hnext, hundocumented⟩ := fetchesUndocumented_iff.mp h
  obtain ⟨n, cycles, hinstruction⟩ := (Machine.instruction_of_undocumented hundocumented).2
  have hwork : work c.started.cpu c.started.opened = .ok (n, cycles.total) := by
    have hlines : c.started.cpu.lines.next (c.started.opened.regs.isSet Flag.irqDisable) = none :=
      hnext
    have hoption : c.started.cpu.config.undocumentedOpcodes = true := by rw [started_config, hon]
    simp only [work, hlines, hoption, hinstruction]
    rfl
  intro hfailed
  have hstep := step_stepped c
  rw [hfailed] at hstep
  generalize c.step.2 = after at hstep
  cases hstep with
  | refused _ _ hw => cases hwork.symm.trans hw

/-! ### Runs -/

theorem answer_documentedOnly {request : Request} (hr : request.isRun = false)
    (h : request = .step → c.fetchesUndocumented = false) :
    c.documentedOnly.answer request =
      ((c.answer request).1, (c.answer request).2.documentedOnly) := by
  cases request with
  | run limit => cases hr
  | step => simp only [answer, step_documentedOnly (h rfl)]
  | reset | triggerNmi | setIrqLine asserted | set setter | traceLine | disassemble pc | access op
  | arrange arrangement => rfl

theorem session_documentedOnly {requests : List Request}
    (hr : ∀ request ∈ requests, request.isRun = false)
    (h : ∀ history ∈ beforeSteps requests, (c.after history).fetchesUndocumented = false) :
    c.documentedOnly.session requests =
      ((c.session requests).1, (c.session requests).2.documentedOnly) := by
  induction requests generalizing c with
  | nil => rfl
  | cons request requests ih =>
    obtain ⟨hrequest, hrequests⟩ := List.forall_mem_cons.mp hr
    have hfirst : request = .step → c.fetchesUndocumented = false := by
      rintro rfl
      exact h [] (mem_beforeSteps.mpr ⟨requests, rfl⟩)
    -- What happens after the first request is a history that begins with it.
    have hrest (history : List Request) (hh : history ∈ beforeSteps requests) :
        ((c.answer request).2.after history).fetchesUndocumented = false := by
      obtain ⟨rest, rfl⟩ := mem_beforeSteps.mp hh
      exact h (request :: history) (mem_beforeSteps.mpr ⟨rest, rfl⟩)
    simp only [session, answer_documentedOnly hrequest hfirst, ih hrequests hrest]

theorem after_documentedOnly {requests : List Request}
    (hr : ∀ request ∈ requests, request.isRun = false)
    (h : ∀ history ∈ beforeSteps requests, (c.after history).fetchesUndocumented = false) :
    c.documentedOnly.after requests = (c.after requests).documentedOnly :=
  congrArg Prod.snd (session_documentedOnly hr h)

theorem config_after (c : Computer) (requests : List Request) :
    (c.after requests).cpu.config = c.cpu.config :=
  after_keeps (P := fun d => d.cpu.config = c.cpu.config)
    (fun {d request} hd _ => (d.answer_config request).trans hd) rfl fun _ _ => trivial

/-- **Refusing the undocumented opcodes only removes behaviour.** A computer
that allows them and the same computer refusing them, requested alike, answer alike
and are the same but for the option after every request, as long as no step has
fetched an undocumented opcode. When a step does, the first computer executes it.
The second halts with the opcode and its address, and has the registers and the
memory that both had before the step, a reset that the step implies included. -/
theorem documented_lockstep {c : Computer} {requests : List Request}
    (hon : c.cpu.config.undocumentedOpcodes = true)
    (hr : ∀ request ∈ requests, request.isRun = false)
    (h : ∀ history ∈ beforeSteps requests, (c.after history).fetchesUndocumented = false) :
    c.documentedOnly.session requests =
      ((c.session requests).1, (c.after requests).documentedOnly) ∧
    (∀ history ∈ beforeSteps requests,
      (c.documentedOnly.after history).step.1 = (c.after history).step.1) ∧
    ((c.after requests).fetchesUndocumented = true →
      (∀ opcode address, (c.after requests).step.1 ≠ .error (.illegalOpcode opcode address)) ∧
      (c.documentedOnly.after requests).step.1 = .error (c.after requests).refusal ∧
      (c.documentedOnly.after requests).step.2.cpu.phase = .halted ∧
      (c.documentedOnly.after requests).step.2.cpu.haltReason = some (c.after requests).refusal ∧
      (c.documentedOnly.after requests).step.2.cpu.regs = (c.after requests).started.cpu.regs ∧
      ∀ slot, (c.documentedOnly.after requests).step.2.bus.memory.get slot =
        (c.after requests).bus.memory.get slot) := by
  refine ⟨session_documentedOnly hr h, fun history hh => ?_, fun hfetches => ?_⟩
  -- Up to this step no earlier one has fetched an undocumented opcode either.
  · have hearlier (earlier : List Request) (he : earlier ∈ beforeSteps history) :
        (c.after earlier).fetchesUndocumented = false := by
      obtain ⟨rest, rfl⟩ := mem_beforeSteps.mp hh
      exact h earlier (beforeSteps_subset_append history _ he)
    have hhistory : ∀ request ∈ history, request.isRun = false := by
      obtain ⟨rest, rfl⟩ := mem_beforeSteps.mp hh
      exact (List.forall_mem_append.mp hr).1
    rw [after_documentedOnly hhistory hearlier, step_documentedOnly (h history hh)]
  · have hallowed : (c.after requests).cpu.config.undocumentedOpcodes = true := by
      rw [config_after, hon]
    refine ⟨step_of_allowed hfetches hallowed, ?_⟩
    rw [after_documentedOnly hr h, step_of_refused hfetches]
    refine ⟨rfl, rfl, rfl, rfl, fun slot => ?_⟩
    exact congrArg (·.memory.get slot) (started_bus (c.after requests))

/-- `LDA #$05` and the undocumented `SLO $10`. -/
def mixedOpcodes : Computer where
  cpu := .powerOn { resetPc := some 0x0200 }
  bus := (Bus.withMapping .flat).load 0x0200 [0xA9, 0x05, 0x07, 0x10, 0xEA]

/-- An NMI is served between the two. Its handler is at `$0000`, where there is
a BRK. -/
def mixedRequests : List Request :=
  [.triggerNmi, .step, .triggerNmi, .step, .setIrqLine true, .step, .set (.pc 0x0202)]

theorem documented_lockstep_slo :
    (mixedOpcodes.documentedOnly.after mixedRequests).step.1 =
        .error (.illegalOpcode 0x07 0x0202) ∧
      (mixedOpcodes.documentedOnly.after mixedRequests).step.2.cpu.regs =
        (mixedOpcodes.after mixedRequests).cpu.regs ∧
      (mixedOpcodes.after mixedRequests).step.1 ≠ .error (.illegalOpcode 0x07 0x0202) := by
  have hspared : ∀ history ∈ beforeSteps mixedRequests,
      (mixedOpcodes.after history).fetchesUndocumented = false := by decide +kernel
  have hfetches : (mixedOpcodes.after mixedRequests).fetchesUndocumented = true := by decide +kernel
  obtain ⟨-, -, hparts⟩ := documented_lockstep (c := mixedOpcodes) rfl (by decide) hspared
  obtain ⟨hallowed, hanswer, -, -, hregs, -⟩ := hparts hfetches
  have hrefusal : (mixedOpcodes.after mixedRequests).refusal = .illegalOpcode 0x07 0x0202 := by
    decide +kernel
  have hstarted : (mixedOpcodes.after mixedRequests).started = mixedOpcodes.after mixedRequests :=
    started_of_phase (by decide +kernel)
  rw [hrefusal] at hanswer
  rw [hstarted] at hregs
  exact ⟨hanswer, hregs, hallowed _ _⟩

end Computer
end Cpu6502
