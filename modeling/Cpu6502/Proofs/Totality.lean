/-
# Every opcode has an outcome

An action may be given an operand it cannot use, and an instruction may be
asked for a carry that it did not produce; both have no outcome. Neither
happens: the modes of the matrix fit the actions of its mnemonics
(`Opcode.fits_of_decode?`), and every action produces the flags that are
derived from it (`Mnemonic.action_settles`). So an instruction fails only
where its opcode is refused (`Machine.instruction_eq_error_iff`).

Key definitions: `Action.fits`, `Action.Settles`.
Key theorems: `Action.run_of_fits`, `Opcode.exists_execute`,
`Machine.instruction_eq_error_iff`.
-/
import Cpu6502.Proofs.Targets

namespace Cpu6502

/-- The mode names a place in memory. -/
def Mode.namesMemory : Mode → Bool
  | implied | accumulator | immediate | relative => false
  | _ => true

namespace Action

/-! ### Operands -/

/-- The action can use the operands that the mode yields. -/
def fits : Action → Mode → Bool
  | take _, mode => mode != .implied && mode != .relative
  | modify .., mode => mode.namesMemory || mode == .accumulator
  | store _, mode | jump, mode | callSubroutine, mode => mode.namesMemory
  | branch .., mode => mode == .relative
  | _, _ => true

/-- An action that can use its operand has an outcome. -/
theorem run_of_fits {action : Action} {mode : Mode} (h : action.fits mode = true)
    (m past : Machine) : ∃ o, action.run (mode.resolve m).operand past = some o := by
  cases action with
  | take f | store value | jump | callSubroutine | branch flag expected =>
    cases mode <;> first | exact ⟨_, rfl⟩ | cases h
  | modify change next => cases mode <;> first | exact ⟨_, rfl⟩ | cases h
  | _ => exact ⟨_, rfl⟩

/-! ### Flags -/

/-- Whatever the action does, it produces what these flags are derived from. -/
def Settles (flags : UInt8) : Action → Prop
  | take f => ∀ v r, ∃ r', (f v ⟨r, none, none⟩).settle flags = some r'
  | modify change next => ∀ carry v r, ∃ r',
      (next (change carry v).value ⟨r, (change carry v).carry, none⟩).settle flags = some r'
  | _ => ∀ r, ∃ r', (⟨r, none, none⟩ : Effect).settle flags = some r'

theorem settle_of_run {flags : UInt8} {action : Action} (hs : action.Settles flags)
    {operand : Operand} {m : Machine} {o : Outcome} (h : action.run operand m = some o) :
    ∃ r, o.effect.settle flags = some r := by
  cases action with
  | take f =>
    obtain ⟨v, -, rfl⟩ := Option.map_eq_some_iff.mp h
    exact hs v _
  | modify change next =>
    cases operand with
    | accumulator | address a =>
      cases h
      exact hs _ _ _
    | implied | immediate v | relative d => cases h
  | store value | jump | callSubroutine =>
    obtain ⟨a, -, rfl⟩ := Option.map_eq_some_iff.mp h
    exact hs _
  | branch flag expected =>
    cases operand with
    | relative d =>
      cases h
      unfold branchBy
      split <;> exact hs _
    | _ => cases h
  | _ =>
    cases h
    exact hs _

end Action

/-- No flag is derived from what an action does not produce. -/
theorem Mnemonic.action_settles (mnemonic : Mnemonic) :
    mnemonic.action.Settles mnemonic.autoFlags := by
  cases mnemonic
  case rol | ror | asl | lsr | inc | dec | slo | rla | sre | rra | dcp | isb =>
    exact fun _ _ _ => ⟨_, rfl⟩
  case lda | ldx | ldy | lax | and | ora | eor | bit | adc | sbc | cmp | cpx | cpy =>
    exact fun _ _ => ⟨_, rfl⟩
  all_goals exact fun _ => ⟨_, rfl⟩

namespace Opcode

theorem fits_of_decode? {byte : UInt8} {op : Opcode} (h : decode? byte = some op) :
    op.mnemonic.action.fits op.mode = true :=
  forall_decode? (P := fun op => op.mnemonic.action.fits op.mode) (by decide +kernel) h

/-- **An opcode of the matrix always has an outcome.** -/
theorem exists_execute {byte : UInt8} {op : Opcode} (h : decode? byte = some op) (m : Machine) :
    ∃ n cycles, op.execute m = some (n, cycles) := by
  obtain ⟨o, ho⟩ := Action.run_of_fits (fits_of_decode? h) m (op.past m)
  obtain ⟨r, hr⟩ := Action.settle_of_run op.mnemonic.action_settles ho
  rw [execute_eq, Mnemonic.execute_eq, ho, Option.bind_some, hr]
  exact ⟨_, _, rfl⟩

end Opcode

namespace Machine

theorem instruction_of_allowed {m : Machine} {undocumented : Bool} {op : Opcode}
    (h : Opcode.allowed? undocumented (m.bus.read m.regs.pc) = some op) :
    ∃ n cycles, op.execute m = some (n, cycles) ∧ m.instruction undocumented = .ok (n, cycles) := by
  obtain ⟨n, cycles, he⟩ := Opcode.exists_execute (Option.filter_eq_some_iff.mp h).1 m
  refine ⟨n, cycles, he, ?_⟩
  simp only [instruction, h, Option.bind_some, he]

theorem instruction_of_refused {m : Machine} {undocumented : Bool}
    (h : Opcode.allowed? undocumented (m.bus.read m.regs.pc) = none) :
    m.instruction undocumented = .error (.illegalOpcode (m.bus.read m.regs.pc) m.regs.pc) := by
  simp only [instruction, h, Option.bind_none]

theorem instruction_eq_error_iff {m : Machine} {undocumented : Bool} {reason : HaltReason} :
    m.instruction undocumented = .error reason ↔
      Opcode.allowed? undocumented (m.bus.read m.regs.pc) = none ∧
        reason = .illegalOpcode (m.bus.read m.regs.pc) m.regs.pc := by
  cases hop : Opcode.allowed? undocumented (m.bus.read m.regs.pc) with
  | none =>
    rw [instruction_of_refused hop, Except.error.injEq]
    exact ⟨fun h => ⟨rfl, h.symm⟩, fun h => h.2.symm⟩
  | some op =>
    obtain ⟨n, cycles, -, hok⟩ := instruction_of_allowed hop
    rw [hok]
    exact ⟨fun h => (by cases h), fun h => (by cases h.1)⟩

end Machine

theorem Opcode.allowed?_eq_none_iff {undocumented : Bool} {byte : UInt8} :
    allowed? undocumented byte = none ↔
      decode? byte = none ∨
        ∃ op, decode? byte = some op ∧ op.documented = false ∧ undocumented = false := by
  unfold allowed?
  cases decode? byte with
  | none => simp
  | some op => simp [Option.filter_some]

end Cpu6502
