/-
# The count of cycles adds up

A step that succeeds charges the cycles that it reports, two at least and eight
at most; a step that fails, or does nothing, charges none. So the counter of a
processor always shows the value it starts from and what was charged since the
last reset (`Computer.Balances`), however far it has run and whether or not it
has wrapped: one step keeps it so (`Computer.Balances.step`), and with it a run
and every request of a host, who may exchange the bus at any time
(`Computer.Balances.session`).

The counter is one of the registers, which instructions are free to change; that
none of them touches it is read off the table of actions
(`Mnemonic.action_sparesCount`).

Key definitions: `Computer.charges`, `Computer.ledger`, `Computer.Balances`.
Key theorems: `Opcode.timing_bounds`, `Computer.step_ok_cycles`,
`Computer.Balances.runFrom`, `Computer.Balances.session`,
`Computer.session_cycles`.
-/
import Cpu6502.Proofs.Session
import Cpu6502.Proofs.Timing
import Mathlib.Algebra.GroupWithZero.Nat
import Mathlib.Algebra.Order.BigOperators.Group.List
import Mathlib.Algebra.Order.Group.Nat

namespace Cpu6502

/-! ### The counter during an instruction -/

theorem Mnemonic.action_sparesCount (mnemonic : Mnemonic) :
    mnemonic.action.Spares Registers.totalCycles := by
  cases mnemonic <;> first | trivial | exact fun _ => rfl | exact fun _ _ => rfl

namespace Opcode

theorem execute_totalCycles {op : Opcode} {m n : Machine} {cycles : Cycles}
    (h : op.execute m = some (n, cycles)) : n.regs.totalCycles = m.regs.totalCycles := by
  obtain ⟨o, ho, hregs, -, -⟩ := execute_outcome h
  obtain ⟨p, hn⟩ := Effect.settle_eq hregs
  have hcount : o.effect.regs.totalCycles = (op.past m).regs.totalCycles :=
    Action.run_spares (fun _ _ _ hsame => hsame) op.mnemonic.action_sparesCount
      (fun _ _ => rfl) ho
  rw [hn]
  exact hcount

theorem timing_bounds {byte : UInt8} {op : Opcode} (h : decode? byte = some op) (m : Machine) :
    2 ≤ op.timing m ∧ op.timing m ≤ 8 := by
  have hstraight : ∀ crosses, 2 ≤ op.straightTiming crosses ∧ op.straightTiming crosses ≤ 8 := by
    simpa using forall_decode? (P := fun op => decide (∀ crosses,
      2 ≤ op.straightTiming crosses ∧ op.straightTiming crosses ≤ 8)) (by decide +kernel) h
  unfold timing
  by_cases hmode : op.mode = .relative
  · simp only [hmode, ↓reduceIte]
    split
    · split <;> decide
    · decide
  · simp only [hmode, ↓reduceIte]
    exact hstraight _

end Opcode

/-! ### What a step charges -/

namespace Computer

/-- The work of a step leaves the counter alone, and has a cost within bounds. -/
theorem work_cycles {cpu : Processor} {m n : Machine} {cycles : Nat}
    (h : work cpu m = .ok (n, cycles)) :
    n.regs.totalCycles = m.regs.totalCycles ∧ 2 ≤ cycles ∧ cycles ≤ 8 := by
  unfold work at h
  cases hnext : cpu.lines.next (m.regs.isSet Flag.irqDisable) with
  | some kind =>
    rw [hnext] at h
    cases h
    exact ⟨rfl, by decide⟩
  | none =>
    rw [hnext] at h
    cases hi : m.instruction cpu.config.undocumentedOpcodes with
    | error reason =>
      simp only [hi] at h
      cases h
    | ok done =>
      obtain ⟨n', cost⟩ := done
      simp only [hi] at h
      cases h
      obtain ⟨op, hop, he⟩ := Machine.instruction_eq_ok hi
      rw [Opcode.execute_timing hop he]
      exact ⟨Opcode.execute_totalCycles he, Opcode.timing_bounds hop m⟩

variable {c : Computer}

/-- A step that succeeds charges what it reports. -/
theorem step_ok_cycles (h : c.step.1 = .ok true) :
    c.step.2.cpu.regs.totalCycles =
        c.started.cpu.regs.totalCycles + UInt64.ofNat c.step.2.cpu.lastCycles ∧
      2 ≤ c.step.2.cpu.lastCycles ∧ c.step.2.cpu.lastCycles ≤ 8 := by
  have hstep := step_stepped c
  rw [h] at hstep
  generalize c.step.2 = c' at hstep ⊢
  cases hstep with
  | done m cycles _ hw hf =>
    obtain ⟨hkept, hbounds⟩ := work_cycles hw
    exact ⟨congrArg (· + UInt64.ofNat cycles) hkept, hbounds⟩

/-- Any other step charges nothing. -/
theorem step_cycles_of_ne_ok (h : c.step.1 ≠ .ok true) :
    c.step.2.cpu.regs.totalCycles = c.started.cpu.regs.totalCycles := by
  have hstep := step_stepped c
  generalize c.step.1 = answer at hstep h
  generalize c.step.2 = c' at hstep ⊢
  cases hstep with
  | idle hp => rw [started_of_isHalted hp]
  | done => exact absurd rfl h
  | refused | rejected => rfl

/-! ### The ledger -/

/-- What up to `limit` steps charge, in order: the cycles that each of them
reports, until one does nothing or fails. -/
def charges : Nat → Computer → List Nat
  | 0, _ => []
  | limit + 1, c =>
    match c.step.1 with
    | .ok true => c.step.2.cpu.lastCycles :: charges limit c.step.2
    | _ => []

end Computer

/-- The most steps that a request makes. -/
def Request.steps : Request → Nat
  | step => 1
  | run limit => limit
  | _ => 0

namespace Computer

/-- What was charged since the last reset, in order, when these were the
entries before the requests. -/
def ledger (entries : List Nat) (c : Computer) : List Request → List Nat
  | [] => entries
  | request :: requests =>
    let kept := if request.resets c.cpu.phase then [] else entries
    ledger (kept ++ charges request.steps c) (c.answer request).2 requests

/-- The counter shows what it starts from and what was charged. -/
structure Balances (start : UInt64) (entries : List Nat) (c : Computer) : Prop where
  config : c.cpu.config.resetCycles = start
  total : c.cpu.regs.totalCycles = start + UInt64.ofNat entries.sum

variable {c : Computer}

theorem charges_started (limit : Nat) (c : Computer) : charges limit c.started = charges limit c := by
  cases limit with
  | zero => rfl
  | succ limit => rw [charges, charges, step_started]

theorem charges_bounds (limit : Nat) (c : Computer) : ∀ n ∈ charges limit c, 2 ≤ n ∧ n ≤ 8 := by
  induction limit generalizing c with
  | zero => simp [charges]
  | succ limit ih =>
    rw [charges]
    split
    · rename_i hok
      exact List.forall_mem_cons.mpr ⟨(step_ok_cycles hok).2, ih c.step.2⟩
    · simp

theorem length_charges (count limit : Nat) (c : Computer) {n : Nat}
    (h : (runFrom count limit c).1 = .ok n) : count + (charges limit c).length = n := by
  induction limit generalizing count c with
  | zero =>
    cases h
    rfl
  | succ limit ih =>
    rw [runFrom_succ] at h
    rw [charges]
    cases hanswer : c.step.1 with
    | error reason =>
      rw [hanswer] at h
      cases h
    | ok went =>
      cases went with
      | false =>
        rw [hanswer] at h
        cases h
        rfl
      | true =>
        rw [hanswer] at h
        have hrest := ih (count + 1) c.step.2 h
        rw [List.length_cons]
        omega

namespace Balances

variable {start : UInt64} {entries : List Nat}

theorem reset (h : c.Balances start entries) : c.reset.Balances start [] where
  config := h.config
  total := h.config.trans (UInt64.add_zero start).symm

theorem started (h : c.Balances start entries) :
    c.started.Balances start (if c.cpu.phase = .reset then [] else entries) := by
  unfold Computer.started
  cases hp : c.cpu.phase with
  | reset => exact h.reset
  | _ => simpa using h

theorem step (h : c.Balances start entries) (hp : c.cpu.phase ≠ .reset) :
    c.step.2.Balances start (entries ++ charges 1 c) := by
  refine ⟨(congrArg Config.resetCycles c.step_config).trans h.config, ?_⟩
  rw [charges]
  split
  · rename_i hok
    rw [(step_ok_cycles hok).1, started_of_phase hp, h.total, charges, List.sum_append,
      List.sum_singleton, UInt64.ofNat_add, UInt64.add_assoc]
  · rename_i hother
    rw [step_cycles_of_ne_ok hother, started_of_phase hp, h.total, List.append_nil]

theorem runFrom (h : c.Balances start entries) (hp : c.cpu.phase ≠ .reset) (count limit : Nat) :
    (runFrom count limit c).2.Balances start (entries ++ charges limit c) := by
  -- The charge of a step joins the entries before the run goes on.
  induction limit generalizing c count entries with
  | zero =>
    rw [charges, List.append_nil]
    exact h
  | succ limit ih =>
    have hstep := h.step hp
    rw [charges] at hstep
    rw [runFrom_succ, charges]
    cases hanswer : c.step.1 with
    | error reason =>
      rw [hanswer] at hstep
      exact hstep
    | ok went =>
      rw [hanswer] at hstep
      cases went with
      | false => exact hstep
      | true =>
        have hrest := ih hstep c.step_phase (count + 1)
        rw [charges, List.append_assoc] at hrest
        exact hrest

/-- Whatever a host requests keeps it so, unless it writes past the setters. -/
theorem answer (h : c.Balances start entries) {request : Request}
    (hr : request.isRawSet = false) :
    (c.answer request).2.Balances start
      ((if request.resets c.cpu.phase then [] else entries) ++ charges request.steps c) := by
  cases request with
  | reset => exact h.reset
  | step =>
    have hstep := h.started.step c.started_phase
    rw [step_started, charges_started] at hstep
    simpa [Computer.answer, Request.resets, Request.steps] using hstep
  | run limit =>
    cases limit with
    | zero =>
      simpa [Computer.answer, run, Computer.runFrom, Request.resets, Request.steps, charges] using h
    | succ limit =>
      -- A reset that the run implies is made by its first step.
      have hrun := h.started.runFrom c.started_phase 0 (limit + 1)
      rw [← runFrom_started, charges_started] at hrun
      simpa [Computer.answer, run, Request.resets, Request.steps] using hrun
  | set setter =>
    have hcount : (setter.apply c.cpu.regs).totalCycles = c.cpu.regs.totalCycles := by
      cases setter with
      | raw f => cases hr
      | _ => rfl
    refine ⟨h.config, hcount.trans (h.total.trans ?_)⟩
    simp [Request.resets, Request.steps, charges]
  | triggerNmi | setIrqLine asserted | traceLine | disassemble pc | access op
  | arrange arrangement =>
    refine ⟨h.config, h.total.trans ?_⟩
    simp [Request.resets, Request.steps, charges]

theorem session (h : c.Balances start entries) {requests : List Request}
    (hr : ∀ request ∈ requests, request.isRawSet = false) :
    (c.session requests).2.Balances start (ledger entries c requests) := by
  induction requests generalizing c entries with
  | nil => exact h
  | cons request requests ih =>
    obtain ⟨hrequest, hrequests⟩ := List.forall_mem_cons.mp hr
    exact ih (h.answer hrequest) hrequests

end Balances

/-- Every entry of the ledger is the charge of a step. -/
theorem ledger_bounds {entries : List Nat} (h : ∀ n ∈ entries, 2 ≤ n ∧ n ≤ 8) (c : Computer)
    (requests : List Request) : ∀ n ∈ ledger entries c requests, 2 ≤ n ∧ n ≤ 8 := by
  induction requests generalizing c entries with
  | nil => exact h
  | cons request requests ih =>
    refine ih (List.forall_mem_append.mpr ⟨?_, charges_bounds _ c⟩) _
    split
    · exact List.forall_mem_nil _
    · exact h

/-- **The count of cycles adds up.** From power-on, whatever a host requests and
on whatever buses, but for writes past the setters, the counter shows the
configured start value and the cycles that were charged since the last reset,
modulo `2 ^ 64`. Each step that succeeds charges the cycles that it reports, two
to eight of them; any other step charges none. -/
theorem session_cycles :
    (∀ c : Computer,
      (c.step.1 = .ok true →
        c.step.2.cpu.regs.totalCycles =
          c.started.cpu.regs.totalCycles + UInt64.ofNat c.step.2.cpu.lastCycles ∧
        2 ≤ c.step.2.cpu.lastCycles ∧ c.step.2.cpu.lastCycles ≤ 8) ∧
      (c.step.1 ≠ .ok true →
        c.step.2.cpu.regs.totalCycles = c.started.cpu.regs.totalCycles)) ∧
    (∀ (c : Computer) (limit n : Nat), (c.run limit).1 = .ok n → (charges limit c).length = n) ∧
    ∀ (config : Config) (bus : Bus) (requests : List Request),
      (∀ request ∈ requests, request.isRawSet = false) →
      (((⟨.powerOn config, bus⟩ : Computer).session requests).2.cpu.regs.totalCycles.toNat =
        (config.resetCycles.toNat + (ledger [] ⟨.powerOn config, bus⟩ requests).sum) %
          UInt64.size) ∧
      (∀ n ∈ ledger [] ⟨.powerOn config, bus⟩ requests, 2 ≤ n ∧ n ≤ 8) ∧
      2 * (ledger [] ⟨.powerOn config, bus⟩ requests).length ≤
        (ledger [] ⟨.powerOn config, bus⟩ requests).sum ∧
      (ledger [] ⟨.powerOn config, bus⟩ requests).sum ≤
        8 * (ledger [] ⟨.powerOn config, bus⟩ requests).length := by
  refine ⟨fun c => ⟨step_ok_cycles, step_cycles_of_ne_ok⟩, fun c limit n h => ?_,
    fun config bus requests hr => ?_⟩
  · rw [← length_charges 0 limit c h, Nat.zero_add]
  · have hfresh : Balances config.resetCycles [] ⟨.powerOn config, bus⟩ :=
      ⟨rfl, (UInt64.add_zero config.resetCycles).symm⟩
    have htotal := (hfresh.session hr).total
    have hbounds := ledger_bounds (List.forall_mem_nil _) ⟨.powerOn config, bus⟩ requests
    generalize ledger [] ⟨.powerOn config, bus⟩ requests = entries at htotal hbounds ⊢
    refine ⟨?_, hbounds, ?_, ?_⟩
    · rw [htotal, UInt64.toNat_add, UInt64.toNat_ofNat', Nat.add_mod_mod]
    · have hlow := entries.card_nsmul_le_sum 2 fun n hn => (hbounds n hn).1
      rwa [Nat.nsmul_eq_mul, Nat.mul_comm] at hlow
    · have hhigh := entries.sum_le_card_nsmul 8 fun n hn => (hbounds n hn).2
      rwa [Nat.nsmul_eq_mul, Nat.mul_comm] at hhigh

/-- A NOP and an illegal opcode, with a counter that starts three short of
wrapping. -/
def nopAtWrap : Computer where
  cpu := .powerOn { resetPc := some 0x0200, resetCycles := 0xFFFFFFFFFFFFFFFD }
  bus := (Bus.withMapping .flat).load 0x0200 [0xEA, 0x02]

/-- An NMI entry, the NOP and the illegal opcode, which halts; then a new start
on another bus, with a shift in memory. -/
def countedSession : List Request :=
  [.run 0, .triggerNmi, .reset, .triggerNmi, .step, .set (.pc 0x0200), .run 4, .step,
    .arrange (.renew .flat), .arrange (.load 0x0200 [0x1E, 0xFF, 0x02]), .reset, .step]

theorem session_cycles_wrap :
    nopAtWrap.step.2.cpu.regs.totalCycles =
        nopAtWrap.started.cpu.regs.totalCycles + UInt64.ofNat nopAtWrap.step.2.cpu.lastCycles ∧
      (charges 1 nopAtWrap).length = 1 ∧
      (nopAtWrap.session (countedSession.take 8)).2.cpu.regs.totalCycles.toNat = 6 ∧
      (nopAtWrap.session countedSession).2.cpu.regs.totalCycles.toNat = 4 := by
  obtain ⟨hstep, hrun, hsession⟩ := session_cycles
  have hhalted : ledger [] nopAtWrap (countedSession.take 8) = [7, 2] := by decide +kernel
  have hshifted : ledger [] nopAtWrap countedSession = [7] := by decide +kernel
  have hcycles := hsession nopAtWrap.cpu.config nopAtWrap.bus
  refine ⟨((hstep nopAtWrap).1 rfl).1, hrun nopAtWrap 1 1 rfl, ?_, ?_⟩
  · refine (hcycles (countedSession.take 8) (by decide)).1.trans ?_
    exact congrArg (fun entries : List Nat => (0xFFFFFFFFFFFFFFFD + entries.sum) % UInt64.size)
      hhalted
  · refine (hcycles countedSession (by decide)).1.trans ?_
    exact congrArg (fun entries : List Nat => (0xFFFFFFFFFFFFFFFD + entries.sum) % UInt64.size)
      hshifted

end Computer
end Cpu6502
