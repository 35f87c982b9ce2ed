/-
# Runs in slices

A run makes steps until it has made as many as it may, or one fails; on a halted
processor it makes none. Nothing else ends it (`Computer.run_ran`), and since a
step of a halted processor changes nothing, a run leads where as many steps lead,
whatever they answer (`Computer.run_eq_afterSteps`).

So a host may cut a run into slices. Two runs one after the other are the run of
both together: the answers add up, and a failure in either is the failure of the
whole (`Computer.run_add`, `Computer.run_slices`).

Key definitions: `Computer.afterSteps`, `Computer.Ran`.
Key theorems: `Computer.run_succ`, `Computer.run_add`, `Computer.run_ran`,
`Computer.run_eq_afterSteps`, `Computer.run_slices`.
-/
import Cpu6502.Proofs.Session
import Mathlib.Logic.Function.Iterate

namespace Cpu6502
namespace Computer

variable {c : Computer}

/-! ### Steps -/

/-- The computer after so many steps, whatever they answer. -/
def afterSteps (n : Nat) (c : Computer) : Computer := (fun d => d.step.2)^[n] c

theorem afterSteps_step (n : Nat) (c : Computer) :
    (c.afterSteps n).step.2 = c.afterSteps (n + 1) :=
  (Function.iterate_succ_apply' (fun d : Computer => d.step.2) n c).symm

theorem afterSteps_add (a b : Nat) (c : Computer) :
    c.afterSteps (a + b) = (c.afterSteps a).afterSteps b := by
  rw [afterSteps, Nat.add_comm]
  exact Function.iterate_add_apply _ b a c

theorem afterSteps_of_isHalted (h : c.cpu.isHalted = true) (n : Nat) : c.afterSteps n = c :=
  Function.iterate_fixed (congrArg Prod.snd (step_of_isHalted h)) n

theorem isHalted_step (c : Computer) : c.step.2.cpu.isHalted = true ↔ c.step.1 ≠ .ok true := by
  have hstep := step_stepped c
  generalize c.step.1 = answer at hstep ⊢
  generalize c.step.2 = c' at hstep ⊢
  cases hstep with
  | idle hp => exact iff_of_true hp (by simp)
  | done m cycles => exact iff_of_false Bool.false_ne_true (by simp)
  | refused reason | rejected => exact iff_of_true rfl (by simp)

theorem isHalted_of_idle (h : c.step.1 = .ok false) : c.cpu.isHalted = true := by
  have hstep := step_stepped c
  rw [h] at hstep
  generalize c.step.2 = c' at hstep
  cases hstep with
  | idle hp => exact hp

/-! ### Runs, from the first step -/

/-- What was counted before a run adds to its answer. -/
theorem runFrom_eq (count limit : Nat) (c : Computer) :
    runFrom count limit c = ((c.run limit).1.map (count + ·), (c.run limit).2) := by
  induction limit generalizing count c with
  | zero => rfl
  | succ limit ih =>
    rw [run, runFrom_succ, runFrom_succ]
    rcases c.step.1 with reason | _ | _
    · rfl
    · rfl
    · simp only [ih (count + 1), ih (0 + 1)]
      cases (c.step.2.run limit).1 with
      | error reason => rfl
      | ok n => simp only [Except.map, Nat.zero_add, Nat.add_assoc]

theorem run_succ (limit : Nat) (c : Computer) : c.run (limit + 1) =
    match c.step.1 with
    | .error reason => (.error reason, c.step.2)
    | .ok false => (.ok 0, c.step.2)
    | .ok true => ((c.step.2.run limit).1.map (1 + ·), (c.step.2.run limit).2) := by
  rw [run, runFrom_succ]
  rcases c.step.1 with reason | _ | _
  · rfl
  · rfl
  · exact runFrom_eq 1 limit c.step.2

/-- **Two runs are one.** -/
theorem run_add (a b : Nat) (c : Computer) : c.run (a + b) =
    ((c.run a).1.bind fun i => ((c.run a).2.run b).1.map (i + ·), ((c.run a).2.run b).2) := by
  induction a generalizing c with
  | zero =>
    have hzero : c.run 0 = (.ok 0, c) := rfl
    rw [Nat.zero_add, hzero]
    cases hb : c.run b with
    | mk answer d => cases answer <;> simp [Except.bind, Except.map]
  | succ a ih =>
    have hhalted := c.isHalted_step
    rw [Nat.add_right_comm, run_succ, run_succ]
    rcases hanswer : c.step.1 with reason | _ | _
    · simp only [run_of_isHalted (hhalted.mpr (by simp [hanswer]))]
      rfl
    · simp only [run_of_isHalted (hhalted.mpr (by simp [hanswer]))]
      rfl
    · simp only [ih c.step.2]
      rcases (c.step.2.run a).1 with reason | i
      · rfl
      · rcases ((c.step.2.run a).2.run b).1 with reason | j
        · rfl
        · simp only [Except.bind, Except.map, Nat.add_assoc]

/-! ### How runs end -/

/-- What a run answers and where it leads. -/
inductive Ran (c : Computer) (limit : Nat) : Except HaltReason Nat → Computer → Prop
  /-- Every step was made. -/
  | full (h : ∀ k < limit, (c.afterSteps k).step.1 = .ok true) :
      Ran c limit (.ok limit) (c.afterSteps limit)
  /-- A step failed after others that were made. -/
  | failed (k : Nat) (reason : HaltReason) (hk : k < limit)
      (before : ∀ j < k, (c.afterSteps j).step.1 = .ok true)
      (h : (c.afterSteps k).step.1 = .error reason) :
      Ran c limit (.error reason) (c.afterSteps (k + 1))
  /-- A halted processor does nothing. -/
  | idle (h : c.cpu.isHalted = true) : Ran c limit (.ok 0) c

theorem Ran.cons {limit : Nat} {answer : Except HaltReason Nat} {d : Computer}
    (hstep : c.step.1 = .ok true) (h : c.step.2.Ran limit answer d) :
    c.Ran (limit + 1) (answer.map (1 + ·)) d := by
  have hbefore {n : Nat} (hn : ∀ k < n, (c.step.2.afterSteps k).step.1 = .ok true) :
      ∀ k < n + 1, (c.afterSteps k).step.1 = .ok true := by
    intro k hk
    cases k with
    | zero => exact hstep
    | succ k => exact hn k (by omega)
  cases h with
  | full h =>
    rw [Except.map, Nat.add_comm 1]
    exact .full (hbefore h)
  | failed k reason hk before h => exact .failed (k + 1) reason (by omega) (hbefore before) h
  | idle h => exact absurd hstep (c.isHalted_step.mp h)

/-- Every run ends in one of these ways. -/
theorem run_ran (limit : Nat) (c : Computer) : c.Ran limit (c.run limit).1 (c.run limit).2 := by
  induction limit generalizing c with
  | zero => exact .full (by simp)
  | succ limit ih =>
    rw [run_succ]
    rcases hanswer : c.step.1 with reason | _ | _
    · exact .failed 0 reason (by omega) (by simp) hanswer
    · have hh := isHalted_of_idle hanswer
      rw [step_of_isHalted hh]
      exact .idle hh
    · exact (ih c.step.2).cons hanswer

/-- **A run is the step, iterated.** -/
theorem run_eq_afterSteps (limit : Nat) (c : Computer) : (c.run limit).2 = c.afterSteps limit := by
  have hran := c.run_ran limit
  generalize (c.run limit).1 = answer at hran
  generalize (c.run limit).2 = d at hran ⊢
  cases hran with
  | full h => rfl
  | failed k reason hk before h =>
    -- the steps after the failed one are made on a halted processor
    obtain ⟨n, rfl⟩ := Nat.exists_eq_add_of_lt hk
    have hh : (c.afterSteps (k + 1)).cpu.isHalted = true := by
      rw [← afterSteps_step, isHalted_step, h]
      simp
    rw [Nat.add_right_comm, afterSteps_add (k + 1), afterSteps_of_isHalted hh]
  | idle h => exact (afterSteps_of_isHalted h limit).symm

theorem run_eq_full_iff (limit : Nat) (c : Computer) :
    (c.run limit).1 = .ok limit ↔ ∀ k < limit, (c.afterSteps k).step.1 = .ok true := by
  have hran := c.run_ran limit
  generalize (c.run limit).1 = answer at hran ⊢
  generalize (c.run limit).2 = d at hran
  cases hran with
  | full h => exact iff_of_true rfl h
  | failed k reason hk before h =>
    refine iff_of_false (by simp) fun hall => ?_
    cases h.symm.trans (hall k hk)
  | idle h =>
    cases limit with
    | zero => exact iff_of_true rfl (by simp)
    | succ limit =>
      refine iff_of_false (by simp) fun hall => ?_
      have hzero : (c.afterSteps 0).step.1 = .ok false := congrArg Prod.fst (step_of_isHalted h)
      cases hzero.symm.trans (hall 0 (by omega))

theorem run_eq_error_iff (limit : Nat) (c d : Computer) (reason : HaltReason) :
    c.run limit = (.error reason, d) ↔ ∃ k < limit,
      (∀ j < k, (c.afterSteps j).step.1 = .ok true) ∧ (c.afterSteps k).step = (.error reason, d) := by
  constructor
  · intro h
    have hran := c.run_ran limit
    rw [h] at hran
    generalize hanswer : (Except.error reason, d).1 = answer at hran
    generalize hlast : (Except.error reason, d).2 = d' at hran
    cases hran with
    | failed k reason' hk before hstep =>
      cases hanswer
      exact ⟨k, hk, before, Prod.ext hstep ((afterSteps_step k c).trans hlast.symm)⟩
    | full | idle => cases hanswer
  · rintro ⟨k, hk, before, hstep⟩
    obtain ⟨n, rfl⟩ := Nat.exists_eq_add_of_lt hk
    have hmade : (c.run k).1 = .ok k := (run_eq_full_iff k c).mpr before
    rw [Nat.add_assoc, run_add, hmade, run_eq_afterSteps, run_succ, hstep]
    rfl

theorem run_eq_zero_iff {limit : Nat} (hlimit : 0 < limit) (c : Computer) :
    (c.run limit).1 = .ok 0 ↔ c.cpu.isHalted = true := by
  refine ⟨fun h => ?_, fun h => by rw [run_of_isHalted h]⟩
  have hran := c.run_ran limit
  rw [h] at hran
  generalize (c.run limit).2 = d at hran
  generalize hanswer : (Except.ok 0 : Except HaltReason Nat) = answer at hran
  cases hran with
  | full =>
    cases hanswer
    omega
  | failed => cases hanswer
  | idle h => exact h

theorem run_isHalted {limit : Nat} {reason : HaltReason} (h : (c.run limit).1 = .error reason) :
    (c.run limit).2.cpu.isHalted = true := by
  obtain ⟨k, -, -, hstep⟩ := (run_eq_error_iff limit c _ reason).mp (Prod.ext h rfl)
  have hlast := (c.afterSteps k).isHalted_step.mpr (by simp [hstep])
  rwa [hstep] at hlast

/-! ### Slices -/

/-- **Runs compose, and are steps.** A run of `a` steps and then one of `b` steps
lead where a run of `a + b` steps leads, and the answers go together: a failure
in the first slice leaves nothing to do for the second and fails the whole, a
failure in the second fails the whole, and else the steps that were made add up.

A run leads where as many steps lead. It answers its limit exactly if every one
of these steps was made, and a failure exactly if one of them was the first to
fail, which was then the last to be made; on a halted processor it makes no step
and changes nothing. There is no other answer. A run of no steps changes nothing
either, so a processor that was just powered on is not reset by it. -/
theorem run_slices :
    (∀ (c : Computer) (a b : Nat),
      ((c.run a).2.run b).2 = (c.run (a + b)).2 ∧
      (∀ reason, (c.run a).1 = .error reason →
        ((c.run a).2.run b).1 = .ok 0 ∧ (c.run (a + b)).1 = .error reason) ∧
      (∀ i j, (c.run a).1 = .ok i → ((c.run a).2.run b).1 = .ok j →
        (c.run (a + b)).1 = .ok (i + j)) ∧
      ∀ i reason, (c.run a).1 = .ok i → ((c.run a).2.run b).1 = .error reason →
        (c.run (a + b)).1 = .error reason) ∧
    (∀ (c : Computer) (limit : Nat),
      (c.run limit).2 = c.afterSteps limit ∧
      ((c.run limit).1 = .ok limit ↔ ∀ k < limit, (c.afterSteps k).step.1 = .ok true) ∧
      (∀ reason d, c.run limit = (.error reason, d) ↔ ∃ k < limit,
        (∀ j < k, (c.afterSteps j).step.1 = .ok true) ∧
        (c.afterSteps k).step = (.error reason, d)) ∧
      (c.cpu.isHalted = true → c.run limit = (.ok 0, c)) ∧
      (0 < limit → ((c.run limit).1 = .ok 0 ↔ c.cpu.isHalted = true)) ∧
      ((c.run limit).1 = .ok limit ∨ (c.run limit).1 = .ok 0 ∨
        ∃ reason, (c.run limit).1 = .error reason)) ∧
    ∀ c : Computer, c.run 0 = (.ok 0, c) := by
  refine ⟨fun c a b => ?_, fun c limit => ?_, fun c => rfl⟩
  · rw [run_add]
    refine ⟨rfl, fun reason ha => ⟨?_, ?_⟩, fun i j ha hb => ?_, fun i reason ha hb => ?_⟩
    · rw [run_of_isHalted (run_isHalted ha)]
    · rw [ha]
      rfl
    · rw [ha, hb]
      rfl
    · rw [ha, hb]
      rfl
  · refine ⟨run_eq_afterSteps limit c, run_eq_full_iff limit c, fun reason d =>
      run_eq_error_iff limit c d reason, fun h => run_of_isHalted h limit,
      fun hlimit => run_eq_zero_iff hlimit c, ?_⟩
    have hran := c.run_ran limit
    generalize (c.run limit).1 = answer at hran ⊢
    generalize (c.run limit).2 = d at hran
    cases hran with
    | full => exact .inl rfl
    | failed k reason => exact .inr (.inr ⟨reason, rfl⟩)
    | idle => exact .inr (.inl rfl)

/-- Just powered on, with two `NOP` and an illegal opcode at `$FFFE`, where it
starts. -/
def stopsPastTop : Computer where
  cpu := .powerOn { resetPc := some 0xFFFE }
  bus := (Bus.withMapping .flat).load 0xFFFE [0xEA, 0xEA, 0x02]

theorem run_slices_stopping :
    stopsPastTop.run 0 = (.ok 0, stopsPastTop) ∧
      ((stopsPastTop.run 1).2.run 1).2 = (stopsPastTop.run 2).2 ∧
      (stopsPastTop.run 2).1 = .ok 2 ∧
      ((stopsPastTop.run 2).2.run 4).1 = .error (.illegalOpcode 0x02 0x0000) ∧
      (stopsPastTop.run 6).1 = .error (.illegalOpcode 0x02 0x0000) ∧
      (stopsPastTop.run 6).2.run 3 = (.ok 0, (stopsPastTop.run 6).2) ∧
      (stopsPastTop.run 9).1 = .error (.illegalOpcode 0x02 0x0000) := by
  have hone : (stopsPastTop.run 1).1 = .ok 1 := rfl
  have hnext : ((stopsPastTop.run 1).2.run 1).1 = .ok 1 := rfl
  have htwo := (run_slices.1 stopsPastTop 1 1).2.2.1 1 1 hone hnext
  have hfails : ((stopsPastTop.run 2).2.run 4).1 = .error (.illegalOpcode 0x02 0x0000) := rfl
  have hsix := (run_slices.1 stopsPastTop 2 4).2.2.2 2 _ htwo hfails
  obtain ⟨hidle, hnine⟩ := (run_slices.1 stopsPastTop 6 3).2.1 _ hsix
  obtain ⟨-, -, -, hstays, hzero, -⟩ := run_slices.2.1 (stopsPastTop.run 6).2 3
  have hhalted := (hzero (by decide)).mp hidle
  exact ⟨run_slices.2.2 stopsPastTop, (run_slices.1 stopsPastTop 1 1).1, htwo, hfails, hsix,
    hstays hhalted, hnine⟩

end Computer
end Cpu6502
