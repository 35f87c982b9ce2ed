/-
# Interrupts over whole runs

A host requests what it likes between two steps: it triggers NMIs, drives the IRQ
line, writes registers, flags and memory. What a step then does is told by these
requests, and by the interrupt-disable flag at that moment: it serves an NMI
if one was triggered since the step before, else an IRQ if the line is
asserted and the flag is clear, else it executes the instruction at PC
(`Computer.arbitration`). So an edge is served once, however often it was
triggered, and as many NMIs are served as steps follow a trigger.

The state keeps of a history just what this needs (`Computer.Recalls`): one
request keeps it so (`Computer.Recalls.answer`), and with it a whole run. Only
steps that are requested one by one are counted; a request to run
(`Request.isRun`) makes any number of them.

Key definitions: `triggered`, `lineAfter`,
`Service`, `Computer.Serves`, `beforeSteps`, `Computer.Unfailing`.
Key theorems: `Computer.step_serves`, `Computer.Recalls.answer`,
`Computer.recalls_after`, `Computer.arbitration`.
-/
import Cpu6502.Proofs.Flags
import Cpu6502.Proofs.Session
import Mathlib.Data.List.DropRight

namespace Cpu6502

/-! ### Requests and the interrupt lines -/

namespace Request

/-- The request asks for an NMI. -/
def isTrigger : Request → Bool
  | triggerNmi => true
  | _ => false

/-- The request makes any number of steps. -/
def isRun : Request → Bool
  | run _ => true
  | _ => false

/-- No trigger of an NMI outlives the request: a step serves it, a reset drops
it. -/
def spendsEdge : Request → Bool
  | step | run _ | reset => true
  | _ => false

/-- The level of the IRQ line after the request. -/
def drive (asserted : Bool) : Request → Bool
  | setIrqLine on => on
  | reset => false
  | _ => asserted

/-- The request leaves registers and phase alone. -/
def sparesRegs : Request → Bool
  | step | run _ | reset | set _ => false
  | _ => true

end Request

/-- An NMI was triggered since the last step or reset. -/
def triggered (history : List Request) : Bool :=
  (history.rtakeWhile (!·.spendsEdge)).any (·.isTrigger)

/-- The level of the IRQ line, `asserted` at first, after these requests. -/
def lineAfter (asserted : Bool) (history : List Request) : Bool :=
  history.foldl Request.drive asserted

/-- The histories of a run that end before a step, the shortest first. -/
def beforeSteps : List Request → List (List Request)
  | [] => []
  | .step :: requests => [] :: (beforeSteps requests).map (.step :: ·)
  | request :: requests => (beforeSteps requests).map (request :: ·)

theorem triggered_append (history : List Request) (request : Request) :
    triggered (history ++ [request]) =
      (!request.spendsEdge && (request.isTrigger || triggered history)) := by
  cases h : request.spendsEdge with
  | true => simp [triggered, h]
  | false => simp [triggered, h, Bool.or_comm]

theorem lineAfter_append (asserted : Bool) (history : List Request) (request : Request) :
    lineAfter asserted (history ++ [request]) = request.drive (lineAfter asserted history) := by
  simp [lineAfter]

theorem mem_beforeSteps {requests history : List Request} :
    history ∈ beforeSteps requests ↔ ∃ rest, requests = history ++ .step :: rest := by
  induction requests generalizing history with
  | nil => simp [beforeSteps]
  | cons request requests ih =>
    cases history with
    | nil => cases request <;> simp [beforeSteps]
    | cons first history =>
      have hcons : first :: history ∈ beforeSteps (request :: requests) ↔
          request = first ∧ history ∈ beforeSteps requests := by
        cases request <;> simp [beforeSteps, and_comm]
      rw [hcons, ih]
      simp

theorem beforeSteps_subset_append (first second : List Request) :
    beforeSteps first ⊆ beforeSteps (first ++ second) := by
  intro history hmem
  obtain ⟨rest, rfl⟩ := mem_beforeSteps.mp hmem
  exact mem_beforeSteps.mpr ⟨rest ++ second, by simp⟩

/-! ### Services -/

/-- What a step can do. -/
inductive Service
  | nmi
  | irq
  | instruction
  deriving DecidableEq, Repr

namespace Service

/-- An edge goes first, then a level that is not masked. -/
def arbitrate (edge level masked : Bool) : Service :=
  if edge then .nmi else if level && !masked then .irq else .instruction

/-- The service done: an interrupt entry, or the instruction at PC. -/
def perform (config : Config) (m : Machine) : Service → Except HaltReason (Machine × Nat)
  | nmi => .ok (Interrupt.nmi.enter m, interruptCycles)
  | irq => .ok (Interrupt.irq.enter m, interruptCycles)
  | instruction => (m.instruction config.undocumentedOpcodes).map fun done => (done.1, done.2.total)

theorem arbitrate_eq_nmi_iff {edge level masked : Bool} :
    arbitrate edge level masked = .nmi ↔ edge = true := by
  cases edge <;> cases level <;> cases masked <;> decide

theorem arbitrate_eq_irq_iff {edge level masked : Bool} :
    arbitrate edge level masked = .irq ↔ edge = false ∧ level = true ∧ masked = false := by
  cases edge <;> cases level <;> cases masked <;> decide

end Service

/-- What the next step does, by the state. -/
def Processor.service (cpu : Processor) : Service :=
  .arbitrate cpu.lines.nmiPending cpu.lines.irqAsserted (cpu.regs.isSet Flag.irqDisable)

namespace Computer

theorem work_eq_perform (c : Computer) :
    work c.cpu c.opened = c.cpu.service.perform c.cpu.config c.opened := by
  have hregs : c.opened.regs = c.cpu.regs := rfl
  unfold work Processor.service InterruptLines.next Service.arbitrate
  rw [hregs]
  cases c.cpu.lines.nmiPending with
  | true => rfl
  | false => cases c.cpu.lines.irqAsserted && !c.cpu.regs.isSet Flag.irqDisable <;> rfl

/-- The step from `c` to `c'` does this service, and nothing else. -/
def Serves (c : Computer) (service : Service) (c' : Computer) : Prop :=
  ∃ m cycles, service.perform c.cpu.config c.opened = .ok (m, cycles) ∧ m.bus.fault = none ∧
    c' = c.complete m cycles

theorem step_serves {c : Computer} (hp : c.cpu.phase = .fetching)
    (hok : ∀ reason, c.step.1 ≠ .error reason) :
    c.step.1 = .ok true ∧ c.Serves c.cpu.service c.step.2 := by
  have hstarted : c.started = c := started_of_phase (by rw [hp]; exact Phase.noConfusion)
  have hstep := step_stepped c
  generalize c.step.1 = answer at hstep hok ⊢
  generalize c.step.2 = c' at hstep ⊢
  cases hstep with
  | idle h => cases hp.symm.trans (Processor.isHalted_iff.mp h)
  | done m cycles _ hw hf =>
    rw [hstarted] at hw ⊢
    exact ⟨rfl, m, cycles, c.work_eq_perform.symm.trans hw, hf, rfl⟩
  | refused reason _ hw => exact absurd rfl (hok reason)
  | rejected m cycles fault _ hw hf => exact absurd rfl (hok _)

/-- A service uses up an edge and leaves the level. -/
theorem Serves.lines {c c' : Computer} {service : Service} (h : c.Serves service c') :
    c'.cpu.phase = .fetching ∧ c'.cpu.lines.nmiPending = false ∧
      c'.cpu.lines.irqAsserted = c.cpu.lines.irqAsserted := by
  obtain ⟨m, cycles, -, -, rfl⟩ := h
  exact ⟨rfl, rfl, rfl⟩

theorem enter_isSet (kind : Interrupt) (m : Machine) :
    (kind.enter m).regs.isSet Flag.irqDisable = true :=
  Status.isSet_assign_self _ true (by decide) (by decide)

/-- An interrupt entry disables further IRQs. -/
theorem Serves.masks {c c' : Computer} {service : Service} (h : c.Serves service c')
    (hs : service ≠ .instruction) : c'.cpu.regs.isSet Flag.irqDisable = true := by
  obtain ⟨m, cycles, hm, -, rfl⟩ := h
  have hcount : (c.complete m cycles).cpu.regs.isSet Flag.irqDisable =
      m.regs.isSet Flag.irqDisable := rfl
  rw [hcount]
  cases service with
  | nmi =>
    cases hm
    exact enter_isSet .nmi c.opened
  | irq =>
    cases hm
    exact enter_isSet .irq c.opened
  | instruction => contradiction

/-! ### Runs -/

/-- No step of the run fails. -/
def Unfailing (c : Computer) (requests : List Request) : Prop :=
  ∀ history ∈ beforeSteps requests, ∀ reason, (c.after history).step.1 ≠ .error reason

theorem unfailing_of_isOk {c : Computer} {requests : List Request}
    (h : (beforeSteps requests).all (fun history => (c.after history).step.1.isOk) = true) :
    c.Unfailing requests := by
  intro history hh reason he
  have hok := List.all_eq_true.mp h history hh
  rw [he] at hok
  cases hok

/-- What the steps of the run do, in order. -/
def services (c : Computer) (requests : List Request) : List Service :=
  (beforeSteps requests).map fun history => (c.after history).cpu.service

/-- Of a history the computer knows whether an edge is due and the level of
the line. -/
structure Recalls (c : Computer) (asserted : Bool) (history : List Request) : Prop where
  phase : c.cpu.phase = .fetching
  edge : c.cpu.lines.nmiPending = triggered history
  level : c.cpu.lines.irqAsserted = lineAfter asserted history

/-- One request keeps it so. -/
theorem Recalls.answer {c : Computer} {asserted : Bool} {history : List Request}
    (h : c.Recalls asserted history) {request : Request} (hr : request.isRun = false)
    (hok : request = .step → ∀ reason, c.step.1 ≠ .error reason) :
    (c.answer request).2.Recalls asserted (history ++ [request]) := by
  obtain ⟨hphase, hedge, hlevel⟩ := h
  cases request with
  | run limit => cases hr
  | step =>
    obtain ⟨hp, hn, hi⟩ := (step_serves hphase (hok rfl)).2.lines
    refine ⟨hp, ?_, ?_⟩
    · rw [triggered_append]
      exact hn
    · rw [lineAfter_append]
      exact hi.trans hlevel
  | reset =>
    refine ⟨rfl, ?_, ?_⟩
    · rw [triggered_append]
      rfl
    · rw [lineAfter_append]
      rfl
  | triggerNmi =>
    refine ⟨hphase, ?_, ?_⟩
    · rw [triggered_append]
      rfl
    · rw [lineAfter_append]
      exact hlevel
  | setIrqLine on =>
    refine ⟨hphase, ?_, ?_⟩
    · rw [triggered_append]
      exact hedge
    · rw [lineAfter_append]
      rfl
  | set setter | traceLine | disassemble pc | access op | arrange arrangement =>
    refine ⟨hphase, ?_, ?_⟩
    · rw [triggered_append]
      exact hedge
    · rw [lineAfter_append]
      exact hlevel

theorem Unfailing.of_append {c : Computer} {first second : List Request}
    (h : c.Unfailing (first ++ second)) : c.Unfailing first :=
  fun history hmem => h history (beforeSteps_subset_append first second hmem)

section
variable {c : Computer} (hp : c.cpu.phase = .fetching) (hn : c.cpu.lines.nmiPending = false)
  {requests : List Request} (hr : ∀ request ∈ requests, request.isRun = false)
  (hok : c.Unfailing requests)
include hp hn hr hok

/-- And so does a whole run. -/
theorem recalls_after : (c.after requests).Recalls c.cpu.lines.irqAsserted requests := by
  induction requests using List.reverseRecOn with
  | nil => exact ⟨hp, hn, rfl⟩
  | append_singleton history request ih =>
    obtain ⟨hhistory, hrequest⟩ := List.forall_mem_append.mp hr
    rw [after_append]
    refine (ih hhistory hok.of_append).answer (hrequest request (List.mem_singleton_self _)) ?_
    rintro rfl
    exact hok history (mem_beforeSteps.mpr ⟨[], rfl⟩)

theorem service_after {history : List Request} (hh : history ∈ beforeSteps requests) :
    (c.after history).cpu.service = .arbitrate (triggered history)
        (lineAfter c.cpu.lines.irqAsserted history)
        ((c.after history).cpu.regs.isSet Flag.irqDisable) ∧
      (c.after history).Serves (c.after history).cpu.service (c.after (history ++ [.step])) := by
  obtain ⟨rest, rfl⟩ := mem_beforeSteps.mp hh
  obtain ⟨hphase, hedge, hlevel⟩ :=
    recalls_after hp hn (List.forall_mem_append.mp hr).1 hok.of_append
  refine ⟨?_, ?_⟩
  · rw [Processor.service, hedge, hlevel]
  · rw [after_append]
    exact (step_serves hphase (hok history hh)).2

theorem count_services :
    (c.services requests).count .nmi = (beforeSteps requests).countP triggered := by
  rw [services, List.count_eq_countP, List.countP_map]
  refine List.countP_congr fun history hh => ?_
  rw [Function.comp_apply, (service_after hp hn hr hok hh).1, beq_iff_eq]
  exact Service.arbitrate_eq_nmi_iff

end

/-- Requests that spare the registers leave the flags. -/
theorem regs_after {c : Computer} {requests : List Request}
    (h : ∀ request ∈ requests, request.sparesRegs = true) :
    (c.after requests).cpu.regs = c.cpu.regs := by
  refine after_keeps (P := fun d => d.cpu.regs = c.cpu.regs) (fun {d request} hd hr => ?_) rfl h
  cases request with
  | step | run limit | reset | set setter => cases hr
  | _ => exact hd

theorem phase_after {c : Computer} {requests : List Request}
    (h : ∀ request ∈ requests, request.spendsEdge = false) :
    (c.after requests).cpu.phase = c.cpu.phase := by
  refine after_keeps (P := fun d => d.cpu.phase = c.cpu.phase) (fun {d request} hd hr => ?_) rfl h
  cases request with
  | step | run limit | reset => cases hr
  | _ => exact hd

theorem isHalted_after {c : Computer} (hc : c.cpu.isHalted = true) {requests : List Request}
    (h : ∀ request ∈ requests, request.isReset = false) :
    (c.after requests).cpu.isHalted = true :=
  after_keeps (P := fun d => d.cpu.isHalted = true) (fun hd hr => (answer_of_isHalted hd hr).1) hc h

/-- After an interrupt entry, while no register is written, no IRQ is served. -/
theorem service_ne_irq {c c' : Computer} {service : Service} (h : c.Serves service c')
    (hs : service ≠ .instruction) {between : List Request}
    (hb : ∀ request ∈ between, request.sparesRegs = true) :
    (c'.after between).cpu.service ≠ .irq := by
  intro hirq
  have hclear := (Service.arbitrate_eq_irq_iff.mp hirq).2.2
  rw [regs_after hb, h.masks hs] at hclear
  cases hclear

/-- **Interrupts over whole runs.** Between two steps a host may request what it
likes. Each step of a run without failures serves an NMI if one was triggered
since the step or reset before, else an IRQ if the line is asserted and the
interrupt-disable flag is clear, else it executes the instruction at PC. What
was requested before a reset, explicit or implied by the first step, plays no
part, and a halted processor serves nothing. -/
theorem arbitration :
    (∀ (c : Computer) (requests : List Request), c.cpu.phase = .fetching →
      c.cpu.lines.nmiPending = false → (∀ request ∈ requests, request.isRun = false) →
      c.Unfailing requests →
      (∀ history ∈ beforeSteps requests,
        (c.after history).cpu.service = .arbitrate (triggered history)
          (lineAfter c.cpu.lines.irqAsserted history)
          ((c.after history).cpu.regs.isSet Flag.irqDisable) ∧
        (c.after history).Serves (c.after history).cpu.service (c.after (history ++ [.step]))) ∧
      (c.services requests).count .nmi = (beforeSteps requests).countP triggered ∧
      (∀ history ∈ beforeSteps requests,
        ((c.after history).cpu.service = .irq →
          (c.after history).cpu.regs.isSet Flag.irqDisable = false) ∧
        ((c.after history).cpu.service ≠ .instruction →
          (c.after (history ++ [.step])).cpu.regs.isSet Flag.irqDisable = true ∧
          (c.after (history ++ [.step])).cpu.lines.irqAsserted =
            (c.after history).cpu.lines.irqAsserted)) ∧
      ∀ history between, history ++ .step :: between ∈ beforeSteps requests →
        (∀ request ∈ between, request.sparesRegs = true) →
        (c.after history).cpu.service ≠ .instruction →
        (c.after (history ++ .step :: between)).cpu.service ≠ .irq) ∧
    (∀ (c : Computer) (dropped requests : List Request),
      (∀ request ∈ requests, request.isRun = false) →
      (c.after (dropped ++ [.reset])).Unfailing requests → ∀ history ∈ beforeSteps requests,
        (c.after (dropped ++ .reset :: history)).cpu.service = .arbitrate (triggered history)
          (lineAfter false history)
          ((c.after (dropped ++ .reset :: history)).cpu.regs.isSet Flag.irqDisable)) ∧
    (∀ (c : Computer) (dropped : List Request), c.cpu.phase = .reset →
      (∀ request ∈ dropped, request.spendsEdge = false) →
        (c.after dropped).step = (c.after (dropped ++ [.reset])).step ∧
        (c.after (dropped ++ [.reset])).cpu.service = .instruction) ∧
    ∀ (c : Computer) (requests : List Request), c.cpu.isHalted = true →
      (∀ request ∈ requests, request.isReset = false) → ∀ history ∈ beforeSteps requests,
        (c.after history).step = (.ok false, c.after history) := by
  refine ⟨fun c requests hp hn hr hok => ⟨fun history => service_after hp hn hr hok,
    count_services hp hn hr hok, fun history hh => ⟨fun hirq => ?_, fun hs => ?_⟩,
    fun history between hh hbetween hs => ?_⟩, fun c dropped requests hr hok history hh => ?_,
    fun c dropped hp hdropped => ⟨?_, ?_⟩, fun c requests hc hr history hh => ?_⟩
  · exact (Service.arbitrate_eq_irq_iff.mp hirq).2.2
  · obtain ⟨-, hserves⟩ := service_after hp hn hr hok hh
    exact ⟨hserves.masks hs, hserves.lines.2.2⟩
  · obtain ⟨rest, rfl⟩ := mem_beforeSteps.mp hh
    have hfirst : history ∈ beforeSteps (history ++ .step :: between ++ .step :: rest) :=
      mem_beforeSteps.mpr ⟨between ++ .step :: rest, by simp⟩
    rw [List.append_cons, after_append]
    exact service_ne_irq (service_after hp hn hr hok hfirst).2 hs hbetween
  · rw [List.append_cons, after_append]
    rw [after_append] at hok ⊢
    exact (service_after rfl rfl hr hok hh).1
  · rw [after_append]
    exact step_of_phase_reset ((phase_after hdropped).trans hp)
  · rw [after_append]
    rfl
  · obtain ⟨rest, rfl⟩ := mem_beforeSteps.mp hh
    exact step_of_isHalted (isHalted_after hc (List.forall_mem_append.mp hr).1)

/-- A processor that heeds IRQs, and a `NOP` where the vectors of RESET and IRQ
lead. -/
def idling : Computer where
  cpu := { Processor.powerOn {} with
    regs := { Registers.powerOn {} with pc := 0x8000, p := 0x20 }
    phase := .fetching }
  bus := (((Bus.withMapping .flat).load 0xFFFA [0x00, 0x90, 0x00, 0x80, 0x00, 0xA0]).poke 0x8000
    0xEA).poke 0xA000 0xEA

/-- An NMI triggered twice while an IRQ is asserted; its handler is told to
heed IRQs. -/
def doubleTrigger : List Request :=
  [.triggerNmi, .setIrqLine true, .triggerNmi, .step,
    .set (.flags Flag.irqDisable false), .arrange (.poke 0x0010 0xAA), .step, .step]

/-- The same processor, just powered on. -/
def poweredOn : Computer := { idling with cpu := .powerOn {} }

theorem arbitration_doubleTrigger :
    idling.services doubleTrigger = [.nmi, .irq, .instruction] ∧
      (idling.services doubleTrigger).count .nmi = (beforeSteps doubleTrigger).countP triggered ∧
      (idling.after (doubleTrigger.take 6 ++ [.step])).cpu.service ≠ .irq ∧
      (idling.after [.triggerNmi, .setIrqLine true, .reset]).cpu.service = .instruction ∧
      (poweredOn.after [.triggerNmi]).step = (poweredOn.after [.triggerNmi, .reset]).step ∧
      nmiOnGuard.step.2.step = (.ok false, nmiOnGuard.step.2) := by
  obtain ⟨hrun, hreset, himplied, hhalted⟩ := arbitration
  have hok : idling.Unfailing doubleTrigger := unfailing_of_isOk (by decide +kernel)
  obtain ⟨-, hcount, -, hsuccessive⟩ := hrun idling doubleTrigger rfl rfl (by decide) hok
  have hirq : (idling.after (doubleTrigger.take 6)).cpu.service = .irq := by decide +kernel
  have hlast := hsuccessive (doubleTrigger.take 6) [] (mem_beforeSteps.mpr ⟨[], rfl⟩) (by simp)
    (by rw [hirq]; decide)
  have hdropped : (idling.after ([.triggerNmi, .setIrqLine true] ++ [.reset])).Unfailing [.step] :=
    unfailing_of_isOk (by decide +kernel)
  have hservice := hreset idling [.triggerNmi, .setIrqLine true] [.step] (by decide) hdropped []
    (mem_beforeSteps.mpr ⟨[], rfl⟩)
  refine ⟨by decide +kernel, hcount, hlast, hservice.trans rfl, ?_, ?_⟩
  · exact (himplied poweredOn [.triggerNmi] rfl (by decide)).1
  · exact hhalted nmiOnGuard.step.2 [.step] rfl (by decide) [] (mem_beforeSteps.mpr ⟨[], rfl⟩)

end Computer

end Cpu6502
