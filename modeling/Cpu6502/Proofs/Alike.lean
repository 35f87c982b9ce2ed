/-
# Buses that programs cannot tell apart

Instructions and interrupt entries reach the bus through `Bus.read` and
`Bus.write` only. So when a relation between buses makes them read alike and
survives the same write on both sides (`Bus.Alike`), it survives every
instruction: two machines with the same registers on related buses execute
the instruction at PC with the same result, the same cycles and the same
registers, and end on related buses (`Machine.instruction_alike`). What one
bus must keep through an instruction is the case where both buses are one
(`Computer.work_keeps`).

Key definitions: `Bus.Alike`, `Machine.Alike`, `Ends`.
Key theorems: `Action.run_alike`, `Machine.instruction_alike`,
`Computer.work_alike`, `Computer.work_keeps`.
-/
import Cpu6502.Computer

namespace Cpu6502

/-- A relation between buses that no program can see: related buses read
alike, and the same write on both keeps them related. -/
structure Bus.Alike (R : Bus → Bus → Prop) : Prop where
  read : ∀ {b d : Bus}, R b d → ∀ a, b.read a = d.read a
  write : ∀ {b d : Bus}, R b d → ∀ a v, R (b.write a v) (d.write a v)

/-- The same registers on related buses. -/
structure Machine.Alike (R : Bus → Bus → Prop) (m n : Machine) : Prop where
  regs : m.regs = n.regs
  bus : R m.bus n.bus

/-- The same effect and branch cycles on related buses. -/
structure Outcome.Alike (R : Bus → Bus → Prop) (o p : Outcome) : Prop where
  effect : o.effect = p.effect
  bus : R o.bus p.bus
  branchCycles : o.branchCycles = p.branchCycles

/-- Two pieces of work that fail for the same reason, or lead to related
machines at the same cost. -/
inductive Ends {α : Type} (R : Bus → Bus → Prop) :
    Except HaltReason (Machine × α) → Except HaltReason (Machine × α) → Prop
  | ok {m n : Machine} (cost : α) (h : m.Alike R n) : Ends R (.ok (m, cost)) (.ok (n, cost))
  | error (reason : HaltReason) : Ends R (.error reason) (.error reason)

section
variable {R : Bus → Bus → Prop} (hR : Bus.Alike R) {m n : Machine}
include hR

theorem Bus.readWord_alike {b d : Bus} (h : R b d) (a : Address) : b.readWord a = d.readWord a := by
  simp only [Bus.readWord, hR.read h]

/-! ### The stack -/

namespace Machine

theorem push_alike (h : m.Alike R n) (v : UInt8) : (m.push v).Alike R (n.push v) := by
  refine ⟨by simp only [push, h.regs], ?_⟩
  simp only [push, h.regs]
  exact hR.write h.bus _ v

theorem pop_alike (h : m.Alike R n) : m.pop.1 = n.pop.1 ∧ m.pop.2.Alike R n.pop.2 := by
  refine ⟨?_, by simp only [pop, h.regs], h.bus⟩
  simp only [pop, h.regs]
  exact hR.read h.bus _

theorem pushWord_alike (h : m.Alike R n) (w : UInt16) : (m.pushWord w).Alike R (n.pushWord w) :=
  push_alike hR (push_alike hR h _) _

theorem popWord_alike (h : m.Alike R n) :
    m.popWord.1 = n.popWord.1 ∧ m.popWord.2.Alike R n.popWord.2 := by
  obtain ⟨hlo, h1⟩ := pop_alike hR h
  obtain ⟨hhi, h2⟩ := pop_alike hR h1
  exact ⟨by simp only [popWord, hlo, hhi], h2⟩

omit hR in
/-- A change of the registers alone. -/
theorem Alike.updateRegs (h : m.Alike R n) (f : Registers → Registers) :
    Machine.Alike R { m with regs := f m.regs } { n with regs := f n.regs } :=
  ⟨congrArg f h.regs, h.bus⟩

end Machine

theorem Interrupt.enter_alike (h : m.Alike R n) (kind : Interrupt) :
    (kind.enter m).Alike R (kind.enter n) := by
  have hs : ((m.pushWord m.regs.pc).push (m.regs.pushedStatus kind.setsBreak)).Alike R
      ((n.pushWord n.regs.pc).push (n.regs.pushedStatus kind.setsBreak)) := by
    rw [h.regs]
    exact Machine.push_alike hR (Machine.pushWord_alike hR h _) _
  refine ⟨?_, hs.bus⟩
  simp only [enter, hs.regs, Bus.readWord_alike hR hs.bus]

/-! ### Operands -/

theorem Mode.resolve_alike (h : m.Alike R n) (mode : Mode) : mode.resolve m = mode.resolve n := by
  cases mode <;>
    simp only [resolve, encoding, Bus.samePageWord, Bus.zeroPageWord, hR.read h.bus, h.regs]

theorem Operand.byte?_alike (h : m.Alike R n) (operand : Operand) :
    operand.byte? m = operand.byte? n := by
  cases operand <;> simp only [byte?, hR.read h.bus, h.regs]

/-! ### Instructions -/

omit hR in
theorem Outcome.ofMachine_alike (h : m.Alike R n) : (ofMachine m).Alike R (ofMachine n) :=
  ⟨by simp only [ofMachine, h.regs], h.bus, rfl⟩

namespace Action

theorem replace_alike (h : m.Alike R n) (change : Change) (next : UInt8 → Effect → Effect)
    (operand : Operand) :
    Option.Rel (Outcome.Alike R) (replace change next operand m) (replace change next operand n) := by
  cases operand with
  | accumulator => exact .some ⟨by simp only [h.regs], h.bus, rfl⟩
  | address a =>
    refine .some ⟨by simp only [h.regs, hR.read h.bus], ?_, rfl⟩
    simp only [h.regs, hR.read h.bus]
    exact hR.write h.bus a _
  | implied => exact .none
  | immediate v => exact .none
  | relative distance => exact .none

omit hR in
theorem branchBy_alike (h : m.Alike R n) (distance flag : UInt8) (expected : Bool) :
    (branchBy distance flag expected m).Alike R (branchBy distance flag expected n) := by
  unfold branchBy
  rw [h.regs]
  split
  · exact ⟨rfl, h.bus, rfl⟩
  · exact Outcome.ofMachine_alike h

theorem leaveInterrupt_alike (h : m.Alike R n) :
    (leaveInterrupt m).Alike R (leaveInterrupt n) := by
  obtain ⟨hv, hp⟩ := Machine.pop_alike hR h
  have hs : Machine.Alike R { m.pop.2 with regs := m.pop.2.regs.setStatus m.pop.1 }
      { n.pop.2 with regs := n.pop.2.regs.setStatus n.pop.1 } := by
    rw [hv]
    exact hp.updateRegs (·.setStatus n.pop.1)
  obtain ⟨hw, hq⟩ := Machine.popWord_alike hR hs
  refine ⟨?_, hq.bus⟩
  simp only [leaveInterrupt, hw, hq.regs]

theorem leaveSubroutine_alike (h : m.Alike R n) :
    (leaveSubroutine m).Alike R (leaveSubroutine n) := by
  obtain ⟨hw, hq⟩ := Machine.popWord_alike hR h
  refine ⟨?_, hq.bus⟩
  simp only [leaveSubroutine, hw, hq.regs]

theorem call_alike (h : m.Alike R n) (target : Address) : (call target m).Alike R (call target n) := by
  unfold call
  rw [h.regs]
  exact (Machine.pushWord_alike hR h _).updateRegs (·.setPc target)

/-- Every way of working treats related buses alike. -/
theorem run_alike (h : m.Alike R n) (action : Action) (operand : Operand) :
    Option.Rel (Outcome.Alike R) (action.run operand m) (action.run operand n) := by
  cases action with
  | take f =>
    simp only [run, Operand.byte?_alike hR h]
    cases operand.byte? n with
    | none => exact .none
    | some v => exact .some ⟨by simp only [h.regs], h.bus, rfl⟩
  | store value =>
    simp only [run, h.regs]
    cases operand.address? with
    | none => exact .none
    | some a => exact .some (Outcome.ofMachine_alike ⟨rfl, hR.write h.bus a _⟩)
  | modify change next => exact replace_alike hR h change next operand
  | internal f => exact .some (Outcome.ofMachine_alike (h.updateRegs f))
  | push value =>
    simp only [run, h.regs]
    exact .some (Outcome.ofMachine_alike (Machine.push_alike hR h _))
  | pull f =>
    obtain ⟨hv, hp⟩ := Machine.pop_alike hR h
    simp only [run, hv]
    exact .some (Outcome.ofMachine_alike (hp.updateRegs (f · n.pop.1)))
  | branch flag expected =>
    cases operand with
    | relative distance => exact .some (branchBy_alike h distance flag expected)
    | _ => exact .none
  | jump =>
    simp only [run]
    cases operand.address? with
    | none => exact .none
    | some a => exact .some (Outcome.ofMachine_alike (h.updateRegs (·.setPc a)))
  | callSubroutine =>
    simp only [run]
    cases operand.address? with
    | none => exact .none
    | some a => exact .some (Outcome.ofMachine_alike (call_alike hR h a))
  | returnFromSubroutine => exact .some (Outcome.ofMachine_alike (leaveSubroutine_alike hR h))
  | returnFromInterrupt => exact .some (Outcome.ofMachine_alike (leaveInterrupt_alike hR h))
  | softwareInterrupt => exact .some (Outcome.ofMachine_alike (Interrupt.enter_alike hR h .brk))

end Action

/-- Two answers with the same cost on related machines. -/
abbrev Machine.AlikeAt (R : Bus → Bus → Prop) {α : Type} (p q : Machine × α) : Prop :=
  p.1.Alike R q.1 ∧ p.2 = q.2

theorem Mnemonic.execute_alike (h : m.Alike R n) (mnemonic : Mnemonic) (operand : Operand) :
    Option.Rel (Machine.AlikeAt R) (mnemonic.execute operand m) (mnemonic.execute operand n) := by
  have hrun := Action.run_alike hR h mnemonic.action operand
  rw [execute_eq, execute_eq]
  revert hrun
  generalize mnemonic.action.run operand m = o
  generalize mnemonic.action.run operand n = p
  rintro (⟨ho⟩ | _)
  · simp only [ho.effect, Option.bind_some]
    cases Effect.settle mnemonic.autoFlags _ with
    | none => exact .none
    | some regs => exact .some ⟨⟨rfl, ho.bus⟩, ho.branchCycles⟩
  · exact .none

theorem Opcode.execute_alike (h : m.Alike R n) (op : Opcode) :
    Option.Rel (Machine.AlikeAt R) (op.execute m) (op.execute n) := by
  have hpast : (op.past m).Alike R (op.past n) := h.updateRegs (·.advancePc op.length.toUInt16)
  have hexec := Mnemonic.execute_alike hR hpast op.mnemonic (op.mode.resolve n).operand
  rw [execute_eq, execute_eq, Mode.resolve_alike hR h]
  revert hexec
  generalize op.mnemonic.execute _ (op.past m) = o
  generalize op.mnemonic.execute _ (op.past n) = p
  rintro (⟨ho⟩ | _)
  · exact .some ⟨ho.1, by simp only [ho.2]⟩
  · exact .none

/-- **Instructions treat related buses alike**: the same failure, or the same
registers and cycles on related buses. -/
theorem Machine.instruction_alike (h : m.Alike R n) (undocumented : Bool) :
    Ends R (m.instruction undocumented) (n.instruction undocumented) := by
  simp only [instruction, h.regs, hR.read h.bus]
  cases Opcode.allowed? undocumented (n.bus.read n.regs.pc) with
  | none => exact .error _
  | some op =>
    have hexec := Opcode.execute_alike hR h op
    simp only [Option.bind_some]
    revert hexec
    generalize op.execute m = o
    generalize op.execute n = p
    rintro (⟨ho⟩ | _)
    · rename_i a b
      obtain ⟨m', ca⟩ := a
      obtain ⟨n', cb⟩ := b
      obtain ⟨hm, rfl⟩ := ho
      exact .ok ca hm
    · exact .error _

/-- So does a step's work, be it an instruction or an interrupt entry. -/
theorem Computer.work_alike (h : m.Alike R n) (cpu : Processor) :
    Ends R (Computer.work cpu m) (Computer.work cpu n) := by
  unfold Computer.work
  rw [h.regs]
  cases cpu.lines.next (n.regs.isSet Flag.irqDisable) with
  | some kind => exact .ok _ (Interrupt.enter_alike hR h kind)
  | none =>
    have hi := Machine.instruction_alike hR h cpu.config.undocumentedOpcodes
    simp only
    revert hi
    generalize m.instruction _ = x
    generalize n.instruction _ = y
    rintro (⟨cost, hm⟩ | ⟨reason⟩)
    · exact .ok _ hm
    · exact .error _

end

/-! ### What one bus keeps -/

/-- A property that writes keep, as a relation of a bus to itself. -/
theorem Bus.alike_of_keeps {P : Bus → Prop} (hP : ∀ b a v, P b → P (b.write a v)) :
    Bus.Alike fun b d => b = d ∧ P b where
  read h a := by rw [h.1]
  write h a v := ⟨by rw [h.1], hP _ a v h.2⟩

/-- A property of the bus that every write keeps holds after a step's work. -/
theorem Computer.work_keeps {P : Bus → Prop} (hP : ∀ b a v, P b → P (b.write a v))
    {cpu : Processor} {m n : Machine} {cycles : Nat} (hm : P m.bus)
    (h : Computer.work cpu m = .ok (n, cycles)) : P n.bus := by
  have he := Computer.work_alike (Bus.alike_of_keeps hP) ⟨rfl, rfl, hm⟩ cpu (m := m) (n := m)
  rw [h] at he
  cases he with
  | ok _ hn => exact hn.bus.2

end Cpu6502
