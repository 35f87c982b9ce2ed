/-
# The life of a processor

A host has one processor and as many buses as it likes, and sends each of its
requests to the processor on one of the buses (`Bench.answer`). What it may rely
on between two requests is `Bench.Settled`: nothing is under way, on the
processor or on any bus, and the processor is halted exactly by the last failure
that was reported since the last reset. One request keeps it so
(`Bench.Settled.answer`), and so does every session (`Bench.Settled.session`).

The phase of a processor and the reason of its halt are written apart, on every
way a step can end and by a reset, and so are the two parts of a transaction; that
they go together is what each of these ways has to keep (`Processor.Rests`,
`Bus.AtRest`). Since they do, a step that succeeds has no earlier reason to clear.

Key definitions: `Processor.Rests`, `Bench`, `Bench.answer`, `Bench.session`,
`Bench.reported`, `Bench.Settled`.
Key theorems: `Computer.step_haltReason`, `Computer.answer_rests`,
`Computer.answer_atRest`, `Bench.Settled.answer`, `Bench.life_cycle`.
-/
import Cpu6502.Proofs.Banks
import Mathlib.Logic.Function.Basic

namespace Cpu6502

/-! ### What is reported -/

/-- The failure that an answer tells of. -/
def failureIn {α : Type} : Except HaltReason α → Option HaltReason
  | .error reason => some reason
  | .ok _ => none

/-- The failure that a reply tells of. -/
def Reply.failure? : Reply → Option HaltReason
  | stepped answer => failureIn answer
  | ran answer => failureIn answer
  | _ => none

/-- A processor that was just powered on leaves that phase. -/
def Request.starts (request : Request) : Bool := request.resets .reset

/-! ### A processor between requests -/

/-- No step of the processor is under way. -/
structure Processor.Rests (cpu : Processor) : Prop where
  notExecuting : cpu.phase ≠ .executing
  /-- It is halted exactly if there is a reason for that. -/
  halted : cpu.phase = .halted ↔ cpu.haltReason.isSome = true
  /-- Nothing was executed since power-on, or the last step failed. -/
  lastCycles : cpu.phase = .reset ∨ cpu.phase = .halted → cpu.lastCycles = 0

namespace Processor

theorem rests_powerOn (config : Config) : (powerOn config).Rests :=
  ⟨Phase.noConfusion, iff_of_false Phase.noConfusion Bool.false_ne_true, fun _ => rfl⟩

theorem Rests.haltReason_eq_none {cpu : Processor} (h : cpu.Rests) (hp : cpu.isHalted = false) :
    cpu.haltReason = none :=
  Option.not_isSome_iff_eq_none.mp (mt h.halted.mpr (isHalted_eq_false_iff.mp hp))

end Processor

namespace Computer

theorem rests_reset (c : Computer) : c.reset.cpu.Rests :=
  ⟨Phase.noConfusion, iff_of_false Phase.noConfusion Bool.false_ne_true, fun _ => rfl⟩

theorem rests_abort (c : Computer) (bus : Bus) (reason : HaltReason) :
    (c.abort bus reason).cpu.Rests :=
  ⟨Phase.noConfusion, iff_of_true rfl rfl, fun _ => rfl⟩

/-- To end a step well leaves the reason of a halt alone, so there must be none. -/
theorem rests_complete {c : Computer} (h : c.cpu.haltReason = none) (m : Machine) (cycles : Nat) :
    (c.complete m cycles).cpu.Rests where
  notExecuting := Phase.noConfusion
  halted := iff_of_false Phase.noConfusion (by simp [complete, h])
  lastCycles := by rintro (hp | hp) <;> cases hp

variable {c : Computer}

/-- The step proper of a processor that is not halted begins without a reason
for a halt. -/
theorem started_haltReason (h : c.cpu.Rests) (hp : c.cpu.isHalted = false) :
    c.started.cpu.haltReason = none := by
  unfold started
  split
  · rfl
  · exact h.haltReason_eq_none hp

/-- However a step ends, it ends. -/
theorem rests_step (h : c.cpu.Rests) : c.step.2.cpu.Rests := by
  have hstep := step_stepped c
  generalize c.step.1 = answer at hstep
  generalize c.step.2 = c' at hstep ⊢
  cases hstep with
  | idle => exact h
  | done m cycles hp => exact rests_complete (started_haltReason h hp) m cycles
  | refused | rejected => exact rests_abort _ _ _

/-- A step that fails halts, and no other step changes whether, and why, the
processor is halted. -/
theorem step_haltReason (h : c.cpu.Rests) :
    c.step.2.cpu.haltReason = (failureIn c.step.1).or c.cpu.haltReason := by
  have hstep := step_stepped c
  generalize c.step.1 = answer at hstep ⊢
  generalize c.step.2 = c' at hstep ⊢
  cases hstep with
  | idle => rfl
  | done m cycles hp => exact (started_haltReason h hp).trans (h.haltReason_eq_none hp).symm
  | refused | rejected => rfl

theorem runFrom_haltReason (h : c.cpu.Rests) (count limit : Nat) :
    (runFrom count limit c).2.cpu.haltReason =
      (failureIn (runFrom count limit c).1).or c.cpu.haltReason := by
  induction limit generalizing count c with
  | zero => rfl
  | succ limit ih =>
    have hstep := step_haltReason h
    rw [runFrom_succ]
    cases hanswer : c.step.1 with
    | error reason =>
      rw [hanswer] at hstep
      exact hstep
    | ok went =>
      have hkept : c.step.2.cpu.haltReason = c.cpu.haltReason := by
        rw [hstep, hanswer]
        rfl
      cases went with
      | false => exact hkept
      | true =>
        simp only
        rw [ih (rests_step h), hkept]

/-- Every request leaves the processor between steps. -/
theorem answer_rests (h : c.cpu.Rests) (request : Request) : (c.answer request).2.cpu.Rests := by
  cases request with
  | reset => exact c.rests_reset
  | step => exact rests_step h
  | run limit => exact runFrom_keeps (P := fun d => d.cpu.Rests) rests_step h 0 limit
  | triggerNmi | setIrqLine asserted | set setter | traceLine | disassemble pc | access op
  | arrange arrangement => exact { h with }

theorem answer_haltReason (h : c.cpu.Rests) (request : Request) :
    (c.answer request).2.cpu.haltReason =
      if request.isReset then none else (c.answer request).1.failure?.or c.cpu.haltReason := by
  cases request with
  | step => exact step_haltReason h
  | run limit => exact runFrom_haltReason h 0 limit
  | reset | triggerNmi | setIrqLine asserted | set setter | traceLine | disassemble pc | access op
  | arrange arrangement => rfl

/-- The first phase is left by the first request that starts the processor. -/
theorem answer_phase (c : Computer) (request : Request) :
    (c.answer request).2.cpu.phase = .reset ↔ request.starts = false ∧ c.cpu.phase = .reset := by
  cases request with
  | reset => simp [answer, Computer.reset, Request.starts, Request.resets]
  | step => simp [answer, Request.starts, Request.resets, c.step_phase]
  | run limit =>
    cases limit with
    | zero => simp [answer, run, runFrom, Request.starts, Request.resets]
    | succ limit => simp [answer, run, Request.starts, Request.resets, runFrom_phase]
  | triggerNmi | setIrqLine asserted | set setter | traceLine | disassemble pc | access op
  | arrange arrangement => exact ⟨fun h => ⟨rfl, h⟩, fun h => h.2⟩

end Computer

/-! ### A bus between requests -/

namespace Bus.AtRest

variable {bus : Bus}

theorem perform (h : bus.AtRest) (op : Operation) : (bus.perform op).2.AtRest := by
  cases op with
  | read a | readWord a | peek a => exact h
  | write a v => exact h.write a v

theorem arrange (h : bus.AtRest) {arrangement : Arrangement}
    (ha : (Request.arrange arrangement).isRawArrange = false) :
    (bus.arrange arrangement).AtRest := by
  cases arrangement with
  | poke a v | setMapping mapping => exact { h with }
  | load base bytes => exact h.load base bytes
  | attach cartridge => exact cartridge.atRest_install h
  | renew mapping => exact ⟨rfl, rfl⟩
  | raw f => cases ha

end Bus.AtRest

namespace Computer

variable {c : Computer}

/-- A step closes the transaction that it opens, however it ends. -/
theorem step_atRest (h : c.bus.AtRest) : c.step.2.bus.AtRest := by
  have hstep := step_stepped c
  generalize c.step.1 = answer at hstep
  generalize c.step.2 = c' at hstep ⊢
  cases hstep with
  | idle => exact h
  | done m => exact m.bus.atRest_commit
  | refused | rejected => exact Bus.atRest_rollback _

/-- Every request leaves the bus outside a transaction. -/
theorem answer_atRest (h : c.bus.AtRest) {request : Request} (hr : request.isRawArrange = false) :
    (c.answer request).2.bus.AtRest := by
  cases request with
  | step => exact step_atRest h
  | run limit => exact runFrom_keeps (P := fun d => d.bus.AtRest) step_atRest h 0 limit
  | access op => exact h.perform op
  | arrange arrangement => exact h.arrange hr
  | reset | triggerNmi | setIrqLine asserted | set setter | traceLine | disassemble pc => exact h

end Computer

/-! ### One processor and many buses -/

/-- A processor, and the buses that its host puts it on. -/
structure Bench where
  cpu : Processor
  buses : Nat → Bus

namespace Bench

/-- A processor that was just switched on, and new buses. -/
def new (config : Config) (mappings : Nat → Mapping) : Bench where
  cpu := .powerOn config
  buses i := .withMapping (mappings i)

/-- The processor on one of the buses. -/
def on (bench : Bench) (i : Nat) : Computer := ⟨bench.cpu, bench.buses i⟩

/-- One request, on one of the buses: the reply, and the bench after it. -/
def answer (bench : Bench) (i : Nat) (request : Request) : Reply × Bench :=
  let answer := (bench.on i).answer request
  (answer.1, ⟨answer.2.cpu, Function.update bench.buses i answer.2.bus⟩)

/-- The requests in order, each with its bus: the replies, and the bench after
the last. -/
def session (bench : Bench) : List (Nat × Request) → List Reply × Bench
  | [] => ([], bench)
  | (i, request) :: requests =>
    let first := bench.answer i request
    let rest := first.2.session requests
    (first.1 :: rest.1, rest.2)

theorem length_session (bench : Bench) (requests : List (Nat × Request)) :
    (bench.session requests).1.length = requests.length := by
  induction requests generalizing bench with
  | nil => rfl
  | cons request requests ih => exact congrArg (· + 1) (ih (bench.answer request.1 request.2).2)

/-- The last failure that a host was told of since it last reset the processor. -/
def reported (log : List (Request × Reply)) : Option HaltReason :=
  log.foldl (fun before entry => if entry.1.isReset then none else entry.2.failure?.or before) none

theorem reported_append (log : List (Request × Reply)) (request : Request) (reply : Reply) :
    reported (log ++ [(request, reply)]) =
      if request.isReset then none else reply.failure?.or (reported log) := by
  rw [reported, List.foldl_append]
  rfl

/-! ### Between two requests -/

/-- After these requests and replies nothing is under way, and the processor is
where they tell that it is. -/
structure Settled (log : List (Request × Reply)) (bench : Bench) : Prop where
  cpu : bench.cpu.Rests
  buses : ∀ i, (bench.buses i).AtRest
  halted : bench.cpu.haltReason = reported log
  fresh : bench.cpu.phase = .reset ↔ ∀ request ∈ log.map Prod.fst, request.starts = false

theorem settled_new (config : Config) (mappings : Nat → Mapping) :
    (new config mappings).Settled [] where
  cpu := Processor.rests_powerOn config
  buses _ := ⟨rfl, rfl⟩
  halted := rfl
  fresh := iff_of_true rfl (List.forall_mem_nil _)

namespace Settled

variable {log : List (Request × Reply)} {bench : Bench}

/-- Every request leaves it so. -/
theorem answer (h : bench.Settled log) (i : Nat) {request : Request}
    (hr : request.isRawArrange = false) :
    (bench.answer i request).2.Settled (log ++ [(request, (bench.answer i request).1)]) where
  cpu := Computer.answer_rests (c := bench.on i) h.cpu request
  buses j := by
    simp only [Bench.answer]
    by_cases hj : j = i
    · subst hj
      rw [Function.update_self]
      exact Computer.answer_atRest (c := bench.on j) (h.buses j) hr
    · rw [Function.update_of_ne hj]
      exact h.buses j
  halted := by
    rw [reported_append, ← h.halted]
    exact Computer.answer_haltReason (c := bench.on i) h.cpu request
  fresh := by
    rw [List.map_append, List.forall_mem_append, ← h.fresh, and_comm, List.map_singleton,
      List.forall_mem_singleton]
    exact (bench.on i).answer_phase request

theorem session (h : bench.Settled log) {requests : List (Nat × Request)}
    (hr : ∀ request ∈ requests, request.2.isRawArrange = false) :
    (bench.session requests).2.Settled
      (log ++ (requests.map Prod.snd).zip (bench.session requests).1) := by
  induction requests generalizing bench log with
  | nil =>
    rw [Bench.session, List.map_nil, List.zip_nil_left, List.append_nil]
    exact h
  | cons request requests ih =>
    obtain ⟨hfirst, hrest⟩ := List.forall_mem_cons.mp hr
    have hsettled := ih (h.answer request.1 hfirst) hrest
    rw [List.append_assoc] at hsettled
    exact hsettled

end Settled

/-! ### Halted for good -/

section
variable {bench : Bench}

/-- A request that changes nothing on its bus changes nothing on the bench. -/
theorem answer_of_idle {i : Nat} {request : Request} {reply : Reply}
    (h : (bench.on i).answer request = (reply, bench.on i)) :
    bench.answer i request = (reply, bench) := by
  simp only [answer, h]
  simp only [on, Function.update_eq_self]

theorem answer_step (h : bench.cpu.isHalted = true) (i : Nat) :
    bench.answer i .step = (.stepped (.ok false), bench) := by
  have hstep : (bench.on i).step = (.ok false, bench.on i) := Computer.step_of_isHalted h
  exact answer_of_idle (by rw [Computer.answer, hstep])

theorem answer_run (h : bench.cpu.isHalted = true) (i limit : Nat) :
    bench.answer i (.run limit) = (.ran (.ok 0), bench) := by
  have hrun : (bench.on i).run limit = (.ok 0, bench.on i) := Computer.run_of_isHalted h limit
  exact answer_of_idle (by rw [Computer.answer, hrun])

/-- A halted processor stays so, for the same reason, until it is reset. -/
theorem session_of_isHalted (h : bench.cpu.isHalted = true) {requests : List (Nat × Request)}
    (hr : ∀ request ∈ requests, request.2.isReset = false) :
    (bench.session requests).2.cpu.isHalted = true ∧
      (bench.session requests).2.cpu.haltReason = bench.cpu.haltReason := by
  induction requests generalizing bench with
  | nil => exact ⟨h, rfl⟩
  | cons request requests ih =>
    obtain ⟨hfirst, hrest⟩ := List.forall_mem_cons.mp hr
    obtain ⟨hhalted, hreason⟩ := Computer.answer_of_isHalted (c := bench.on request.1) h hfirst
    have hnext : (bench.answer request.1 request.2).2.cpu.isHalted = true := hhalted
    obtain ⟨hlast, hkept⟩ := ih hnext hrest
    exact ⟨hlast, hkept.trans hreason⟩

end

/-- **The life of a processor.** After any requests from power-on nothing is under
way on the processor or on a bus; the processor is halted exactly if it has a
reason for that, which is the last failure that was reported since the last
reset, and still to be reset if no request has started it; in both cases the last
step counts no cycles. A halted processor is not moved by steps and runs, and
stays halted for the same reason until a request resets it. -/
theorem life_cycle :
    (∀ (config : Config) (mappings : Nat → Mapping) (requests : List (Nat × Request)),
      (∀ request ∈ requests, request.2.isRawArrange = false) →
      ∀ (replies : List Reply) (bench : Bench),
      (new config mappings).session requests = (replies, bench) →
      bench.cpu.phase ≠ .executing ∧
      (bench.cpu.phase = .halted ↔ bench.cpu.haltReason.isSome = true) ∧
      bench.cpu.haltReason = reported ((requests.map Prod.snd).zip replies) ∧
      (bench.cpu.phase = .reset ↔ ∀ request ∈ requests, request.2.starts = false) ∧
      (bench.cpu.phase = .reset → bench.cpu.lastCycles = 0) ∧
      (bench.cpu.phase = .halted → bench.cpu.lastCycles = 0) ∧
      ∀ i, (bench.buses i).inTransaction = false ∧ (bench.buses i).journal = []) ∧
    (∀ bench : Bench, bench.cpu.phase = .halted →
      (∀ i, bench.answer i .step = (.stepped (.ok false), bench)) ∧
      (∀ i limit, bench.answer i (.run limit) = (.ran (.ok 0), bench)) ∧
      ∀ requests : List (Nat × Request), (∀ request ∈ requests, request.2.isReset = false) →
        (bench.session requests).2.cpu.phase = .halted ∧
        (bench.session requests).2.cpu.haltReason = bench.cpu.haltReason) := by
  constructor
  · intro config mappings requests hr replies bench hsession
    have hsettled := (settled_new config mappings).session hr
    have hlength := (new config mappings).length_session requests
    rw [hsession] at hsettled hlength
    simp only [List.nil_append] at hsettled hlength
    refine ⟨hsettled.cpu.notExecuting, hsettled.cpu.halted, hsettled.halted, ?_,
      fun hp => hsettled.cpu.lastCycles (.inl hp), fun hp => hsettled.cpu.lastCycles (.inr hp),
      fun i => ⟨(hsettled.buses i).outside, (hsettled.buses i).unstaged⟩⟩
    have hrequests : ((requests.map Prod.snd).zip replies).map Prod.fst = requests.map Prod.snd :=
      List.map_fst_zip (by simp only [List.length_map, hlength, Nat.le_refl])
    rw [hsettled.fresh, hrequests, List.forall_mem_map]
  · intro bench hp
    have hh := Processor.isHalted_iff.mpr hp
    refine ⟨answer_step hh, answer_run hh, fun requests hr => ?_⟩
    obtain ⟨hhalted, hreason⟩ := session_of_isHalted hh hr
    exact ⟨Processor.isHalted_iff.mp hhalted, hreason⟩

/-- A NOP and an illegal opcode, run on the second bus after a reset on the
first. -/
def haltingRequests : List (Nat × Request) :=
  [(1, .arrange (.load 0x0200 [0xEA, 0x02])), (0, .reset), (0, .set (.pc 0x0200)), (1, .run 5)]

theorem life_cycle_halting :
    ((new {} fun _ => .flat).session haltingRequests).2.cpu.haltReason =
        some (.illegalOpcode 0x02 0x0201) ∧
      ((new {} fun _ => .flat).session haltingRequests).2.cpu.lastCycles = 0 ∧
      (((new {} fun _ => .flat).session haltingRequests).2.session
        [(2, .triggerNmi), (0, .step), (0, .arrange (.renew .flat))]).2.cpu.haltReason =
          some (.illegalOpcode 0x02 0x0201) := by
  obtain ⟨-, hhalted, hreason, -, -, hcycles, -⟩ :=
    life_cycle.1 {} (fun _ => .flat) haltingRequests (by decide) _ _ (Prod.eta _).symm
  have hreported : reported ((haltingRequests.map Prod.snd).zip
      ((new {} fun _ => .flat).session haltingRequests).1) =
      some (.illegalOpcode 0x02 0x0201) := by decide +kernel
  rw [hreported] at hreason
  have hphase := hhalted.mpr (by rw [hreason]; rfl)
  refine ⟨hreason, hcycles hphase, ?_⟩
  rw [((life_cycle.2 _ hphase).2.2 _ (by decide)).2, hreason]

end Bench

end Cpu6502
