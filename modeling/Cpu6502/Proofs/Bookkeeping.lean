/-
# Bookkeeping stays out of the architecture

The last result and the count of cycles are bookkeeping: no program and no
host should notice what an earlier instruction, or a host's write to a register,
left there. So a second computer is followed that differs from the first in
these two alone (`Computer.EqualButBooks`). Its registers are those of the
first, rebooked (`Registers.rebook`): another last result, and a lead in the
count of cycles.

The reason is in the table of actions: an instruction that derives N or Z
notes a result of its own on the way, and one that does not leaves the last
result unread (`Mnemonic.action_latches`). From there it goes up to
instructions, steps, runs and sessions (`Computer.session_bookkeeping`).

Key definitions: `Registers.rebook`, `Action.Latches`, `Computer.Ahead`,
`Computer.EqualButBooks`, `Computer.resetsDuring`.
Key theorems: `Effect.settle_rebook`, `Action.run_rebook`,
`Computer.advance_rebook`, `Computer.session_bookkeeping`.
-/
import Cpu6502.Proofs.Session
import Cpu6502.Proofs.Targets

namespace Cpu6502

/-! ### Other books -/

/-- The registers with another last result, and with that many cycles more. -/
def Registers.rebook (r : Registers) (last : UInt8) (lead : UInt64) : Registers :=
  { r with lastResult := last, totalCycles := r.totalCycles + lead }

def Effect.rebook (e : Effect) (last : UInt8) (lead : UInt64) : Effect :=
  { e with regs := e.regs.rebook last lead }

def Outcome.rebook (o : Outcome) (last : UInt8) (lead : UInt64) : Outcome :=
  { o with effect := o.effect.rebook last lead }

def Machine.rebook (m : Machine) (last : UInt8) (lead : UInt64) : Machine :=
  { m with regs := m.regs.rebook last lead }

def Computer.rebook (c : Computer) (last : UInt8) (lead : UInt64) : Computer :=
  { c with cpu := c.cpu.updateRegs (·.rebook last lead) }

theorem Registers.rebook_addCycles (r : Registers) (last : UInt8) (lead : UInt64) (n : Nat) :
    (r.rebook last lead).addCycles n = (r.addCycles n).rebook last lead := by
  have hcycles : r.totalCycles + lead + UInt64.ofNat n = r.totalCycles + UInt64.ofNat n + lead := by
    rw [UInt64.add_assoc, UInt64.add_comm lead, ← UInt64.add_assoc]
  simp only [addCycles, rebook, hcycles]

/-! ### Settling flags -/

namespace Effect

/-- The mask has a flag that is derived from the last result. -/
def derives (flags : UInt8) : Bool :=
  Status.isSet flags Flag.negative || Status.isSet flags Flag.zero

theorem deriveResultFlags_rebook {flags : UInt8} {r : Registers} {last : UInt8} (lead : UInt64)
    (h : derives flags = true → last = r.lastResult) :
    deriveResultFlags flags (r.rebook last lead) =
      (deriveResultFlags flags r).rebook last lead := by
  cases hd : derives flags with
  | true =>
    obtain rfl := h hd
    unfold deriveResultFlags
    split <;> split <;> rfl
  | false =>
    obtain ⟨hnegative, hzero⟩ := Bool.or_eq_false_iff.mp hd
    simp only [deriveResultFlags, hnegative, hzero, Bool.false_eq_true, ↓reduceIte]

theorem storeFlag_rebook (flags mask : UInt8) (produced : Option Bool) (r : Registers)
    (last : UInt8) (lead : UInt64) : storeFlag flags mask produced (r.rebook last lead) =
      (storeFlag flags mask produced r).map (·.rebook last lead) := by
  unfold storeFlag
  split
  · cases produced <;> rfl
  · rfl

/-- Only the last result matters, and only where N or Z is derived from it. -/
theorem settle_rebook {flags : UInt8} {e : Effect} {last : UInt8} (lead : UInt64)
    (h : derives flags = true → last = e.regs.lastResult) :
    (e.rebook last lead).settle flags = (e.settle flags).map (·.rebook last lead) := by
  have hcarry :
      storeFlag flags Flag.carry e.carry (deriveResultFlags flags (e.regs.rebook last lead)) =
        (storeFlag flags Flag.carry e.carry (deriveResultFlags flags e.regs)).map
          (·.rebook last lead) := by
    rw [deriveResultFlags_rebook lead h, storeFlag_rebook]
  unfold settle
  simp only [rebook, hcarry]
  cases storeFlag flags Flag.carry e.carry (deriveResultFlags flags e.regs) with
  | none => rfl
  | some r => exact storeFlag_rebook flags Flag.overflow e.overflow r last lead

end Effect

/-! ### Actions -/

namespace Action

/-- An action for an instruction that derives N or Z notes a result of its own,
whatever was noted before; any other leaves the last result as it was. -/
def Latches (derives : Bool) : Action → Prop
  | take f => ∀ v r last lead, f v ⟨r.rebook last lead, none, none⟩ =
      (f v ⟨r, none, none⟩).rebook
        (if derives then (f v ⟨r, none, none⟩).regs.lastResult else last) lead
  | modify _ next => derives = true ∧
      -- the new byte has just been noted
      ∀ v r carry lead, next v ⟨r.rebook r.lastResult lead, carry, none⟩ =
        (next v ⟨r, carry, none⟩).rebook (next v ⟨r, carry, none⟩).regs.lastResult lead
  | internal f => ∀ r last lead,
      f (r.rebook last lead) = (f r).rebook (if derives then (f r).lastResult else last) lead
  | pull f => ∀ r v last lead,
      f (r.rebook last lead) v = (f r v).rebook (if derives then (f r v).lastResult else last) lead
  | store value | push value =>
    derives = false ∧ ∀ r last lead, value (r.rebook last lead) = value r
  | branch _ _ | jump | callSubroutine | returnFromSubroutine | returnFromInterrupt
  | softwareInterrupt => derives = false

theorem run_rebook {action : Action} {derives : Bool} (h : action.Latches derives)
    (operand : Operand) (m : Machine) (last : UInt8) (lead : UInt64) :
    action.run operand (m.rebook last lead) = (action.run operand m).map fun o =>
      o.rebook (if derives then o.effect.regs.lastResult else last) lead := by
  cases action with
  | take f =>
    have hbyte : operand.byte? (m.rebook last lead) = operand.byte? m := by cases operand <;> rfl
    rw [run, run, hbyte]
    cases operand.byte? m with
    | none => rfl
    | some v => exact congrArg (fun e => some (Outcome.mk e m.bus 0)) (h v m.regs last lead)
  | store value =>
    obtain ⟨rfl, hvalue⟩ := h
    have hstored : value (m.rebook last lead).regs = value m.regs := hvalue m.regs last lead
    rw [run, run, hstored]
    cases operand.address? <;> rfl
  | modify change next =>
    obtain ⟨rfl, hnext⟩ := h
    cases operand with
    | accumulator =>
      exact congrArg (fun e => some (Outcome.mk e m.bus 0))
        (hnext _ (m.regs.setA (change (m.regs.isSet Flag.carry) m.regs.a).value) _ lead)
    | address a =>
      exact congrArg (fun e => some (Outcome.mk e (m.bus.write a _) 0))
        (hnext _ (m.regs.setLastResult (change (m.regs.isSet Flag.carry) (m.bus.read a)).value) _
          lead)
    | implied | immediate v | relative distance => rfl
  | internal f =>
    exact congrArg (fun r => some (Outcome.mk ⟨r, none, none⟩ m.bus 0)) (h m.regs last lead)
  | push value =>
    obtain ⟨rfl, hvalue⟩ := h
    have hpushed : value (m.rebook last lead).regs = value m.regs := hvalue m.regs last lead
    rw [run, run, hpushed]
    rfl
  | pull f =>
    exact congrArg (fun r => some (Outcome.mk ⟨r, none, none⟩ m.bus 0))
      (h m.pop.2.regs m.pop.1 last lead)
  | branch flag expected =>
    obtain rfl := h
    cases operand with
    | relative distance =>
      have hflag : (m.rebook last lead).regs.isSet flag = m.regs.isSet flag := rfl
      simp only [run, branchBy, hflag]
      split <;> rfl
    | implied | immediate v | accumulator | address a => rfl
  | jump | callSubroutine =>
    obtain rfl := h
    cases hoperand : operand.address? <;> simp only [run, hoperand] <;> rfl
  | returnFromSubroutine | returnFromInterrupt | softwareInterrupt =>
    obtain rfl := h
    rfl

end Action

/-! ### Instructions -/

namespace Mnemonic

/-- No instruction derives N or Z from a result that it has not noted itself. -/
theorem action_latches (mnemonic : Mnemonic) :
    mnemonic.action.Latches (Effect.derives mnemonic.autoFlags) := by
  cases mnemonic <;>
    first
    | rfl
    | exact ⟨rfl, fun _ _ _ => rfl⟩
    | exact ⟨rfl, fun _ _ _ _ => rfl⟩
    | exact fun _ _ _ => rfl
    | exact fun _ _ _ _ => rfl

theorem execute_rebook (mnemonic : Mnemonic) (operand : Operand) (m : Machine) (last : UInt8)
    (lead : UInt64) : ∃ next, mnemonic.execute operand (m.rebook last lead) =
      (mnemonic.execute operand m).map fun done => (done.1.rebook next lead, done.2) := by
  rw [execute_eq, execute_eq, Action.run_rebook mnemonic.action_latches]
  cases mnemonic.action.run operand m with
  | none => exact ⟨last, rfl⟩
  | some o =>
    have hnoted : Effect.derives mnemonic.autoFlags = true →
        (if Effect.derives mnemonic.autoFlags then o.effect.regs.lastResult else last) =
          o.effect.regs.lastResult := fun hd => if_pos hd
    refine ⟨if Effect.derives mnemonic.autoFlags then o.effect.regs.lastResult else last, ?_⟩
    simp only [Option.map_some, Option.bind_some, Outcome.rebook, Effect.settle_rebook lead hnoted,
      Option.map_map]
    rfl

end Mnemonic

theorem Opcode.execute_rebook (op : Opcode) (m : Machine) (last : UInt8) (lead : UInt64) :
    ∃ next, op.execute (m.rebook last lead) =
      (op.execute m).map fun done => (done.1.rebook next lead, done.2) := by
  have hresolve : op.mode.resolve (m.rebook last lead) = op.mode.resolve m := by
    cases op.mode <;> rfl
  have hpast : op.past (m.rebook last lead) = (op.past m).rebook last lead := rfl
  obtain ⟨next, hdone⟩ :=
    op.mnemonic.execute_rebook (op.mode.resolve m).operand (op.past m) last lead
  refine ⟨next, ?_⟩
  rw [execute_eq, execute_eq, hresolve, hpast, hdone, Option.map_map, Option.map_map]
  rfl

theorem Machine.instruction_rebook (undocumented : Bool) (m : Machine) (last : UInt8)
    (lead : UInt64) : ∃ next, (m.rebook last lead).instruction undocumented =
      (m.instruction undocumented).map fun done => (done.1.rebook next lead, done.2) := by
  have hbyte : (m.rebook last lead).bus.read (m.rebook last lead).regs.pc =
      m.bus.read m.regs.pc := rfl
  simp only [instruction, hbyte]
  cases Opcode.allowed? undocumented (m.bus.read m.regs.pc) with
  | none => exact ⟨last, rfl⟩
  | some op =>
    obtain ⟨next, hdone⟩ := op.execute_rebook m last lead
    refine ⟨next, ?_⟩
    rw [Option.bind_some, Option.bind_some, hdone]
    cases op.execute m <;> rfl

/-! ### Steps -/

namespace Computer

theorem work_rebook (cpu : Processor) (m : Machine) (last : UInt8) (lead : UInt64) :
    ∃ next, work cpu (m.rebook last lead) =
      (work cpu m).map fun done => (done.1.rebook next lead, done.2) := by
  have hmasked : (m.rebook last lead).regs.isSet Flag.irqDisable =
      m.regs.isSet Flag.irqDisable := rfl
  unfold work
  rw [hmasked]
  cases cpu.lines.next (m.regs.isSet Flag.irqDisable) with
  | some kind => exact ⟨last, rfl⟩
  | none =>
    obtain ⟨next, hdone⟩ := m.instruction_rebook cpu.config.undocumentedOpcodes last lead
    refine ⟨next, ?_⟩
    simp only [hdone]
    cases m.instruction cpu.config.undocumentedOpcodes <;> rfl

/-- The step proper ends in the same way, and the lead stays what it was. -/
theorem advance_rebook (c : Computer) (last : UInt8) (lead : UInt64) : ∃ next,
    (c.rebook last lead).advance = (c.advance.1, c.advance.2.rebook next lead) := by
  obtain ⟨next, hwork⟩ :=
    work_rebook c.openStep.cpu ⟨c.openStep.cpu.regs, c.openStep.bus⟩ last lead
  have hsame : work (c.rebook last lead).openStep.cpu
      ⟨(c.rebook last lead).openStep.cpu.regs, (c.rebook last lead).openStep.bus⟩ =
        work c.openStep.cpu (Machine.rebook ⟨c.openStep.cpu.regs, c.openStep.bus⟩ last lead) := rfl
  simp only [advance, hsame, hwork]
  cases work c.openStep.cpu ⟨c.openStep.cpu.regs, c.openStep.bus⟩ with
  | error reason => exact ⟨last, rfl⟩
  | ok done =>
    obtain ⟨m, cycles⟩ := done
    have hfault : (m.rebook next lead).bus.fault = m.bus.fault := rfl
    simp only [conclude, Except.map, hfault]
    cases m.bus.fault with
    | some fault => exact ⟨last, rfl⟩
    | none =>
      refine ⟨next, ?_⟩
      have hcycles : (m.rebook next lead).regs.addCycles cycles =
          (m.regs.addCycles cycles).rebook next lead := m.regs.rebook_addCycles next lead cycles
      simp only [complete, hcycles]
      rfl

/-- The second computer differs from the first in its books alone, and has
counted that many cycles more. -/
def Ahead (lead : UInt64) (c d : Computer) : Prop := ∃ last, d = c.rebook last lead

/-- A reset does not look at the books, and starts new ones. -/
theorem reset_ahead {lead : UInt64} {c d : Computer} (h : c.Ahead lead d) : d.reset = c.reset := by
  obtain ⟨last, rfl⟩ := h
  rfl

theorem ahead_self (c : Computer) : c.Ahead 0 c := by
  refine ⟨c.cpu.regs.lastResult, ?_⟩
  simp only [rebook, Processor.updateRegs, Registers.rebook, UInt64.add_zero]

theorem started_ahead {lead : UInt64} {c d : Computer} (h : c.Ahead lead d)
    (hp : c.cpu.phase = .reset) : d.started = c.started := by
  have hphase : d.cpu.phase = .reset := by
    obtain ⟨last, rfl⟩ := h
    exact hp
  simp only [started, hp, hphase, reset_ahead h]

theorem step_ahead {lead : UInt64} {c d : Computer} (h : c.Ahead lead d)
    (hp : c.cpu.phase ≠ .reset) : c.step.1 = d.step.1 ∧ c.step.2.Ahead lead d.step.2 := by
  obtain ⟨last, rfl⟩ := h
  obtain ⟨next, hadvance⟩ := c.advance_rebook last lead
  have hphase : (c.rebook last lead).cpu.phase = c.cpu.phase := rfl
  unfold step
  rw [hphase]
  cases hcase : c.cpu.phase with
  | reset => exact absurd hcase hp
  | halted => exact ⟨rfl, last, rfl⟩
  | fetching | executing => exact ⟨by rw [hadvance], next, by rw [hadvance]⟩

theorem runFrom_ahead {lead : UInt64} {c d : Computer} (h : c.Ahead lead d)
    (hp : c.cpu.phase ≠ .reset) (count limit : Nat) :
    (runFrom count limit c).1 = (runFrom count limit d).1 ∧
      (runFrom count limit c).2.Ahead lead (runFrom count limit d).2 := by
  obtain ⟨hanswer, hahead, -⟩ := runFrom_lockstep
    (R := fun c d => c.Ahead lead d ∧ c.cpu.phase ≠ .reset)
    (fun {c d} hcd => by
      obtain ⟨hstep, hnext⟩ := step_ahead hcd.1 hcd.2
      exact ⟨hstep, hnext, c.step_phase⟩) ⟨h, hp⟩ count limit
  exact ⟨hanswer, hahead⟩

end Computer

/-! ### Sessions -/

/-- The request neither shows the count of cycles nor writes past the setters. -/
def Request.sparesBooks : Request → Bool
  | traceLine | set (.raw _) => false
  | _ => true

/-- A host's write to a register or to flags notes the written byte or leaves
the books alone. -/
theorem Setter.apply_rebook {setter : Setter} (hs : (Request.set setter).sparesBooks = true)
    (r : Registers) (last : UInt8) (lead : UInt64) :
    ∃ next, setter.apply (r.rebook last lead) = (setter.apply r).rebook next lead := by
  cases setter with
  | raw f => cases hs
  | a v | x v | y v => exact ⟨v, rfl⟩
  | sp v | pc v | status v | flags mask on => exact ⟨last, rfl⟩

namespace Computer

variable {lead : UInt64} {c d : Computer}

/-- Once it is reset, nothing is left of the difference. -/
theorem answer_of_resets (h : c.Ahead lead d) {request : Request}
    (hr : request.resets c.cpu.phase = true) : d.answer request = c.answer request := by
  cases request with
  | reset => simp only [answer, reset_ahead h]
  | step =>
    have hp : c.cpu.phase = .reset := eq_of_beq hr
    simp only [answer, ← d.step_started, ← c.step_started, started_ahead h hp]
  | run limit =>
    cases limit with
    | zero => exact absurd hr (by simp [Request.resets])
    | succ limit =>
      have hp : c.cpu.phase = .reset := eq_of_beq (Bool.and_eq_true_iff.mp hr).1
      have hrun : run (limit + 1) d = run (limit + 1) c := by
        rw [run, run, runFrom_started 0 limit d, runFrom_started 0 limit c, started_ahead h hp]
      simp only [answer, hrun]
  | triggerNmi | setIrqLine asserted | set setter | traceLine | disassemble pc | access op
  | arrange arrangement => cases hr

/-- Any other request keeps the lead, if it spares the books. -/
theorem answer_of_not_resets (h : c.Ahead lead d) {request : Request}
    (hr : request.resets c.cpu.phase = false) (hs : request.sparesBooks = true) :
    (c.answer request).1 = (d.answer request).1 ∧
      (c.answer request).2.Ahead lead (d.answer request).2 := by
  cases request with
  | reset => cases hr
  | step =>
    obtain ⟨hanswer, hstep⟩ := step_ahead h (beq_eq_false_iff_ne.mp hr)
    exact ⟨congrArg Reply.stepped hanswer, hstep⟩
  | run limit =>
    cases limit with
    | zero => exact ⟨rfl, h⟩
    | succ limit =>
      obtain ⟨hanswer, hrun⟩ := runFrom_ahead h (by simpa [Request.resets] using hr) 0 (limit + 1)
      exact ⟨congrArg Reply.ran hanswer, hrun⟩
  | set setter =>
    obtain ⟨last, rfl⟩ := h
    obtain ⟨next, hset⟩ := Setter.apply_rebook hs c.cpu.regs last lead
    exact ⟨rfl, next, congrArg (fun r => (⟨{ c.cpu with regs := r }, c.bus⟩ : Computer)) hset⟩
  | triggerNmi | setIrqLine asserted | disassemble pc | access op | arrange arrangement =>
    obtain ⟨last, rfl⟩ := h
    exact ⟨rfl, last, rfl⟩
  | traceLine => cases hs

/-- The processor is reset at some time during the session, by the host or by
its first step. -/
def resetsDuring (c : Computer) : List Request → Bool
  | [] => false
  | request :: requests =>
    request.resets c.cpu.phase || (c.answer request).2.resetsDuring requests

theorem session_ahead (h : c.Ahead lead d) {requests : List Request}
    (hs : ∀ request ∈ requests, request.sparesBooks = true) :
    (c.session requests).1 = (d.session requests).1 ∧
      (c.session requests).2.Ahead (if c.resetsDuring requests then 0 else lead)
        (d.session requests).2 := by
  induction requests generalizing c d lead with
  | nil => exact ⟨rfl, h⟩
  | cons request requests ih =>
    obtain ⟨hfirst, hrest⟩ := List.forall_mem_cons.mp hs
    cases hr : request.resets c.cpu.phase with
    | true =>
      have hsame := answer_of_resets h hr
      obtain ⟨hreplies, hlast⟩ := ih (c.answer request).2.ahead_self hrest
      simp only [session, resetsDuring, hsame, hr, Bool.true_or, ↓reduceIte]
      simp only [ite_self] at hlast
      exact ⟨trivial, hlast⟩
    | false =>
      obtain ⟨hreply, hnext⟩ := answer_of_not_resets h hr hfirst
      obtain ⟨hreplies, hlast⟩ := ih hnext hrest
      simp only [session, resetsDuring, hreply, hreplies, hr, Bool.false_or]
      exact ⟨trivial, hlast⟩

/-- The second computer is the first with any other last result and count of
cycles. -/
def EqualButBooks (c d : Computer) : Prop :=
  ∃ last cycles, d = { c with cpu := { c.cpu with
    regs := { c.cpu.regs with lastResult := last, totalCycles := cycles } } }

theorem equalButBooks_iff : c.EqualButBooks d ↔
    c.Ahead (d.cpu.regs.totalCycles - c.cpu.regs.totalCycles) d := by
  constructor
  · rintro ⟨last, cycles, rfl⟩
    refine ⟨last, ?_⟩
    have hcycles : c.cpu.regs.totalCycles + (cycles - c.cpu.regs.totalCycles) = cycles := by
      rw [UInt64.add_comm, UInt64.sub_add_cancel]
    simp only [rebook, Processor.updateRegs, Registers.rebook, hcycles]
  · rintro ⟨last, hd⟩
    exact ⟨last, _, hd⟩

theorem Ahead.totalCycles (h : c.Ahead lead d) :
    d.cpu.regs.totalCycles - c.cpu.regs.totalCycles = lead := by
  obtain ⟨last, rfl⟩ := h
  have hcycles : c.cpu.regs.totalCycles + lead - c.cpu.regs.totalCycles = lead := by
    rw [UInt64.add_comm, UInt64.add_sub_cancel]
  exact hcycles

/-- **Bookkeeping does not leak.** Computers that are equal but for the last
result and the count of cycles answer every session alike, as long as the host
neither asks for the count itself nor writes registers past the setters, and are
equal but for these two after it.
The counts stay apart by the same difference until a reset makes them equal. -/
theorem session_bookkeeping (h : c.EqualButBooks d) {requests : List Request}
    (hs : ∀ request ∈ requests, request.sparesBooks = true) :
    (c.session requests).1 = (d.session requests).1 ∧
      (c.session requests).2.EqualButBooks (d.session requests).2 ∧
      (d.session requests).2.cpu.regs.totalCycles - (c.session requests).2.cpu.regs.totalCycles =
        if c.resetsDuring requests then 0
        else d.cpu.regs.totalCycles - c.cpu.regs.totalCycles := by
  obtain ⟨hreplies, hlast⟩ := session_ahead (equalButBooks_iff.mp h) hs
  have hdifference := hlast.totalCycles
  refine ⟨hreplies, equalButBooks_iff.mpr ?_, hdifference⟩
  rw [hdifference]
  exact hlast

/-- BIT, PHA, DEX and TXS before an illegal opcode. -/
def mixedProgram : Computer where
  cpu := { Processor.powerOn {} with
    regs := { Registers.powerOn {} with pc := 0x0200, totalCycles := 3 }
    phase := .fetching }
  bus := (Bus.withMapping .flat).load 0x0200 [0x24, 0x10, 0x48, 0xCA, 0x9A, 0x02]

/-- Its counter is about to wrap, and its last result was negative. -/
def mixedProgramAhead : Computer where
  cpu := { mixedProgram.cpu with
    regs := { mixedProgram.cpu.regs with lastResult := 0x80, totalCycles := 0xFFFFFFFFFFFFFFFF } }
  bus := mixedProgram.bus

/-- A step, a write to A, and a run that the illegal opcode ends. -/
def mixedSession : List Request := [.step, .set (.a 0), .run 5, .triggerNmi]

theorem session_bookkeeping_mixed :
    (mixedProgram.session mixedSession).1 = (mixedProgramAhead.session mixedSession).1 ∧
      (mixedProgramAhead.session mixedSession).2.cpu.regs.totalCycles -
        (mixedProgram.session mixedSession).2.cpu.regs.totalCycles = 0xFFFFFFFFFFFFFFFC := by
  have hbooks : mixedProgram.EqualButBooks mixedProgramAhead := ⟨0x80, 0xFFFFFFFFFFFFFFFF, rfl⟩
  have hnoreset : mixedProgram.resetsDuring mixedSession = false := by decide +kernel
  have hspares : ∀ request ∈ mixedSession, request.sparesBooks = true := by decide
  obtain ⟨hreplies, -, hdifference⟩ := session_bookkeeping hbooks hspares
  rw [hnoreset] at hdifference
  exact ⟨hreplies, hdifference⟩

end Computer

end Cpu6502
