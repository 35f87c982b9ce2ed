/-
# The checks inside a step

A step relies on its parts to fit together: an operand is one that the
instruction can use, a flag is derived from something that was produced, a sum
stays within its type. Where that fails a program can stop at an assertion, or
go on with a fallback and leave part of the work undone. Neither happens.

A checked step (`Computer.checkedStep`) is a step that goes on with the
fallback: a zero for the missing byte, the old flag for the missing one, the
wrapped sum for the exact one. Each time it notes the defect. The checks of an
instruction fail exactly where it has no outcome (`Opcode.checkedExecute_agrees`),
so for opcodes of the matrix they never do, and every step passes all of them
and leads to where the step without checks leads (`Computer.step_passes_checks`).

A checked instruction asks the families for its action, as an instruction does,
and notes it if none has one (`Mnemonic.action?`).

Key definitions: `Defect`, `Checked`, `Checked.Agrees`, `Mnemonic.checkedRun`,
`Effect.checkedSettle`, `Computer.checkedStep`.
Key theorems: `Mnemonic.checkedRun_agrees`, `Opcode.checkedExecute_agrees`,
`Machine.checkedInstruction_eq`, `Computer.step_passes_checks`.
-/
import Cpu6502.Proofs.Totality

namespace Cpu6502

/-! ### Values with defects -/

/-- A failed check, with what it was made on. -/
inductive Defect
  /-- No family of instructions has the mnemonic. -/
  | unclaimed (mnemonic : Mnemonic)
  /-- A byte is to be read, and the operand stands for none. -/
  | noByte (operand : Operand)
  /-- A byte is to be replaced, and the operand is no place. -/
  | noPlace (operand : Operand)
  /-- The operand has no address to store at or to jump to. -/
  | noAddress (operand : Operand)
  /-- The operand of a branch is no distance. -/
  | noDistance (operand : Operand)
  /-- A flag is to be derived, and nothing was produced for it. -/
  | notProduced (flag : UInt8)
  /-- A sum does not fit its type. -/
  | overflow (x y : Nat)
  deriving DecidableEq

/-- A value, and the defects met on the way to it. -/
structure Checked (α : Type) where
  value : α
  defects : List Defect := []

namespace Checked

variable {α β : Type}

instance : Monad Checked where
  pure a := ⟨a, []⟩
  bind x f := ⟨(f x.value).value, x.defects ++ (f x.value).defects⟩

@[simp] theorem pure_bind (a : α) (f : α → Checked β) : (pure a : Checked α) >>= f = f a := rfl

/-- What was found, or the fallback and the defect. -/
def expect (found : Option α) (fallback : α) (defect : Defect) : Checked α :=
  match found with
  | some a => pure a
  | none => ⟨fallback, [defect]⟩

/-- A sum in a type of `size` values. -/
def sum (size x y : Nat) : Checked Nat :=
  expect (if x + y < size then some (x + y) else none) ((x + y) % size) (.overflow x y)

theorem sum_eq {size x y : Nat} (h : x + y < size) : sum size x y = pure (x + y) := by
  rw [sum, if_pos h]
  rfl

/-- The checks pass exactly where there is a value to agree with, and then it is
the same value. -/
def Agrees (x : Checked α) : Option α → Prop
  | some a => x = pure a
  | none => x.defects ≠ []

theorem agrees_expect (found : Option α) (fallback : α) (defect : Defect) :
    (expect found fallback defect).Agrees found := by
  cases found with
  | some a => rfl
  | none => exact List.cons_ne_nil _ _

theorem Agrees.bind {x : Checked α} {o : Option α} {f : α → Checked β} {g : α → Option β}
    (hx : x.Agrees o) (hf : ∀ a, (f a).Agrees (g a)) : (x >>= f).Agrees (o.bind g) := by
  cases o with
  | some a =>
    cases (hx : x = pure a)
    exact hf a
  | none => exact List.append_ne_nil_of_left_ne_nil hx _

theorem Agrees.map {x : Checked α} {o : Option α} (hx : x.Agrees o) (f : α → β) :
    (x >>= fun a => pure (f a)).Agrees (o.map f) := by
  rw [Option.map_eq_bind]
  exact hx.bind fun a => rfl

end Checked

/-! ### Sums -/

/-- The sum of two bytes and a carry, made in 16 bits. -/
def checkedAdd (a v : UInt8) (carry : Bool) : Checked Sum := do
  let bytes ← Checked.sum 65536 a.toNat v.toNat
  let sum ← Checked.sum 65536 bytes carry.toNat
  let value := UInt8.ofNat sum
  return {
    value
    carry := decide (255 < sum)
    overflow := decide ((a ^^^ value) &&& (v ^^^ value) &&& 0x80 ≠ 0) }

theorem checkedAdd_eq (a v : UInt8) (carry : Bool) :
    checkedAdd a v carry = pure (addWithCarry a v carry) := by
  have ha := a.toNat_lt
  have hv := v.toNat_lt
  have hc := carry.toNat_le
  have hbytes : a.toNat + v.toNat < 65536 := by omega
  have hsum : a.toNat + v.toNat + carry.toNat < 65536 := by omega
  rw [checkedAdd, Checked.sum_eq hbytes, Checked.pure_bind, Checked.sum_eq hsum]
  rfl

/-- The cycles of an instruction, added up in 32 bits. -/
def Cycles.checkedTotal (c : Cycles) : Checked Nat := do
  let indexed ← Checked.sum 4294967296 c.base.toNat c.indexing.toNat
  Checked.sum 4294967296 indexed c.branch.toNat

theorem Cycles.checkedTotal_eq (c : Cycles) : c.checkedTotal = pure c.total := by
  have hbase := c.base.toNat_lt
  have hindexing := c.indexing.toNat_lt
  have hbranch := c.branch.toNat_lt
  have hindexed : c.base.toNat + c.indexing.toNat < 4294967296 := by omega
  have htotal : c.base.toNat + c.indexing.toNat + c.branch.toNat < 4294967296 := by omega
  rw [checkedTotal, Checked.sum_eq hindexed, Checked.pure_bind, Checked.sum_eq htotal]
  rfl

/-! ### The body of an instruction -/

/-- Does what takes the address of the operand, or nothing. -/
def Operand.atAddress (operand : Operand) (m : Machine) (work : Address → Machine) :
    Checked Outcome :=
  Checked.expect (operand.address?.map fun a => .ofMachine (work a)) (.ofMachine m)
    (.noAddress operand)

namespace Mnemonic

/-- What a byte does to the registers: `f`, with a check on the sum if it is one. -/
def checkedEffect (mnemonic : Mnemonic) (f : UInt8 → Effect → Effect) (v : UInt8) (e : Effect) :
    Checked Effect :=
  match mnemonic with
  | adc | rra => return e.takeSum (← checkedAdd e.regs.a v e.carryIn)
  | sbc | isb => return e.takeSum (← checkedAdd e.regs.a (~~~v) e.carryIn)
  | _ => pure (f v e)

/-- The sums fit, so it is `f` that is done, if `f` is what the action does with its
byte. -/
theorem checkedEffect_eq {mnemonic : Mnemonic} {f : UInt8 → Effect → Effect}
    (h : mnemonic.action? = some (.take f) ∨ ∃ change, mnemonic.action? = some (.modify change f))
    (v : UInt8) (e : Effect) : mnemonic.checkedEffect f v e = pure (f v e) := by
  cases mnemonic
  case adc | sbc =>
    obtain h | ⟨change, h⟩ := h
    · cases h
      rw [checkedEffect, checkedAdd_eq]
      rfl
    · cases h
  case rra | isb =>
    obtain h | ⟨change, h⟩ := h
    · cases h
    · cases h
      rw [checkedEffect, checkedAdd_eq]
      rfl
  all_goals rfl

/-- The action of an instruction, on a machine whose PC is past it. An operand that
cannot be used counts as zero where a byte is read and as the last result where
one is replaced; otherwise nothing is done. -/
def checkedRun (mnemonic : Mnemonic) (action : Action) (operand : Operand) (m : Machine) :
    Checked Outcome :=
  match action with
  | .take f => do
    let v ← Checked.expect (operand.byte? m) 0 (.noByte operand)
    return ⟨← mnemonic.checkedEffect f v ⟨m.regs, none, none⟩, m.bus, 0⟩
  | .store value =>
    operand.atAddress m fun a => { m with bus := m.bus.write a (value m.regs) }
  | .modify change next => do
    let new ← Checked.expect (Action.replacement? change operand m)
      (m.regs.lastResult, ⟨m.regs, none, none⟩, m.bus) (.noPlace operand)
    return ⟨← mnemonic.checkedEffect next new.1 new.2.1, new.2.2, 0⟩
  | .internal f => return .ofMachine { m with regs := f m.regs }
  | .push value => return .ofMachine (m.push (value m.regs))
  | .pull f => return .ofMachine { m.pop.2 with regs := f m.pop.2.regs m.pop.1 }
  | .branch flag expected =>
    match operand with
    | .relative distance => return Action.branchBy distance flag expected m
    | _ => ⟨.ofMachine m, [.noDistance operand]⟩
  | .jump => operand.atAddress m fun a => { m with regs := m.regs.setPc a }
  | .callSubroutine => operand.atAddress m fun a => Action.call a m
  | .returnFromSubroutine => return .ofMachine (Action.leaveSubroutine m)
  | .returnFromInterrupt => return .ofMachine (Action.leaveInterrupt m)
  | .softwareInterrupt => return .ofMachine (Interrupt.brk.enter m)

/-- **The checks of an action fail exactly where it has no outcome**, whatever operand
it is given. -/
theorem checkedRun_agrees {mnemonic : Mnemonic} {action : Action}
    (h : mnemonic.action? = some action) (operand : Operand) (m : Machine) :
    (mnemonic.checkedRun action operand m).Agrees (action.run operand m) := by
  unfold checkedRun
  cases action with
  | take f =>
    simp only [checkedEffect_eq (.inl h), Checked.pure_bind]
    exact (Checked.agrees_expect ..).map _
  | modify change next =>
    simp only [checkedEffect_eq (.inr ⟨change, h⟩), Checked.pure_bind]
    exact (Checked.agrees_expect ..).map _
  | store value | jump | callSubroutine => exact Checked.agrees_expect ..
  | branch flag expected =>
    cases operand with
    | relative distance => rfl
    | _ => exact List.cons_ne_nil _ _
  | _ => rfl

end Mnemonic

/-! ### The flags of an instruction -/

namespace Effect

/-- Stores a produced flag where `flags` has it. One that was not produced stays as
it is. -/
def checkedFlag (flags mask : UInt8) (produced : Option Bool) (r : Registers) :
    Checked Registers :=
  Checked.expect (storeFlag flags mask produced r) r (.notProduced mask)

def checkedSettle (flags : UInt8) (e : Effect) : Checked Registers :=
  checkedFlag flags Flag.carry e.carry (deriveResultFlags flags e.regs) >>=
    checkedFlag flags Flag.overflow e.overflow

theorem checkedSettle_agrees (flags : UInt8) (e : Effect) :
    (e.checkedSettle flags).Agrees (e.settle flags) :=
  (Checked.agrees_expect ..).bind fun _ => Checked.agrees_expect ..

end Effect

/-! ### An instruction -/

/-- An instruction on a machine whose PC is past it, flags included. -/
def Mnemonic.checkedExecute (mnemonic : Mnemonic) (action : Action) (operand : Operand)
    (m : Machine) : Checked (Machine × UInt8) := do
  let outcome ← mnemonic.checkedRun action operand m
  let regs ← outcome.effect.checkedSettle mnemonic.pendingFlags
  return (⟨regs, outcome.bus⟩, outcome.branchCycles)

theorem Mnemonic.checkedExecute_agrees {mnemonic : Mnemonic} {action : Action}
    (h : mnemonic.action? = some action) (operand : Operand) (m : Machine) :
    (mnemonic.checkedExecute action operand m).Agrees (mnemonic.execute operand m) := by
  rw [execute, h]
  exact (checkedRun_agrees h operand m).bind fun outcome =>
    (outcome.effect.checkedSettle_agrees mnemonic.pendingFlags).bind fun _ => rfl

namespace Opcode

/-- The instruction at PC, which takes its operand byte by byte. -/
def checkedExecute (op : Opcode) (action : Action) (m : Machine) : Checked (Machine × Cycles) := do
  let taken := op.mode.take (m.advancePc 1)
  let done ← op.mnemonic.checkedExecute action taken.1.operand taken.2
  return (done.1, ⟨op.cycles, op.access.indexingCycles op.mode taken.1.crossed, done.2⟩)

/-- **The checks of an instruction fail exactly where it has no outcome.** -/
theorem checkedExecute_agrees {op : Opcode} {action : Action}
    (h : op.mnemonic.action? = some action) (m : Machine) :
    (op.checkedExecute action m).Agrees (op.execute m) :=
  (Mnemonic.checkedExecute_agrees h ..).bind fun _ => rfl

/-- The matrix has a place for every byte. -/
theorem exists_row (byte : UInt8) :
    ∃ row, matrix[byte.toNat / 16]? = some row ∧ byte.toNat % 16 < row.size := by
  have hrows : ∀ row ∈ matrix, row.size = 16 := by decide +kernel
  have hbyte := byte.toNat_lt
  have hrow : byte.toNat / 16 < matrix.size := show byte.toNat / 16 < 16 by omega
  refine ⟨_, Array.getElem?_eq_getElem hrow, ?_⟩
  rw [hrows _ (Array.getElem_mem hrow)]
  omega

end Opcode

namespace Machine

/-- The instruction at PC. One that no family has is refused. -/
def checkedInstruction (undocumented : Bool) (m : Machine) :
    Checked (Except HaltReason (Machine × Cycles)) :=
  let byte := m.bus.read m.regs.pc
  let refused := .error (.illegalOpcode byte m.regs.pc)
  match Opcode.allowed? undocumented byte with
  | none => pure refused
  | some op =>
    match op.mnemonic.action? with
    | none => ⟨refused, [.unclaimed op.mnemonic]⟩
    | some action => return .ok (← op.checkedExecute action m)

/-- An opcode that is not refused stands in the matrix, and so has an outcome. -/
theorem checkedInstruction_eq (undocumented : Bool) (m : Machine) :
    m.checkedInstruction undocumented = pure (m.instruction undocumented) := by
  unfold checkedInstruction
  cases hop : Opcode.allowed? undocumented (m.bus.read m.regs.pc) with
  | none => simp only [hop, instruction_of_refused hop]
  | some op =>
    have haction := op.mnemonic.action?_eq
    obtain ⟨n, cycles, hexecute, hok⟩ := instruction_of_allowed hop
    have hagrees := Opcode.checkedExecute_agrees haction m
    rw [hexecute] at hagrees
    have hdone : op.checkedExecute op.mnemonic.action m = pure (n, cycles) := hagrees
    simp only [hop, haction, hdone, hok, Checked.pure_bind]

end Machine

/-! ### A step -/

namespace Computer

/-- An interrupt entry or an instruction. -/
def checkedWork (cpu : Processor) (m : Machine) : Checked (Except HaltReason (Machine × Nat)) :=
  match cpu.lines.next (m.regs.isSet Flag.irqDisable) with
  | some kind => return .ok (kind.enter m, interruptCycles)
  | none => do
    match ← m.checkedInstruction cpu.config.undocumentedOpcodes with
    | .error reason => return .error reason
    | .ok done => return .ok (done.1, ← done.2.checkedTotal)

theorem checkedWork_eq (cpu : Processor) (m : Machine) :
    checkedWork cpu m = pure (work cpu m) := by
  unfold checkedWork work
  cases cpu.lines.next (m.regs.isSet Flag.irqDisable) with
  | some kind => rfl
  | none =>
    simp only [Machine.checkedInstruction_eq, Checked.pure_bind]
    cases m.instruction cpu.config.undocumentedOpcodes with
    | error reason => rfl
    | ok done => simp only [Cycles.checkedTotal_eq, Checked.pure_bind, Except.map]

/-- One instruction or interrupt entry, with its checks. -/
def checkedAdvance (c : Computer) : Checked (Except HaltReason Bool × Computer) := do
  let c := c.openStep
  return c.conclude (← checkedWork c.cpu ⟨c.cpu.regs, c.bus⟩)

theorem checkedAdvance_eq (c : Computer) : c.checkedAdvance = pure c.advance := by
  unfold checkedAdvance
  simp only [checkedWork_eq, Checked.pure_bind]
  rfl

/-- A step with its checks. -/
def checkedStep (c : Computer) : Checked (Except HaltReason Bool × Computer) :=
  match c.cpu.phase with
  | .halted => pure (.ok false, c)
  | .reset => c.reset.checkedAdvance
  | .fetching | .executing => c.checkedAdvance

theorem checkedStep_eq (c : Computer) : c.checkedStep = pure c.step := by
  unfold checkedStep step
  cases c.cpu.phase with
  | halted => rfl
  | reset => exact c.reset.checkedAdvance_eq
  | fetching | executing => exact c.checkedAdvance_eq

/-- **Every step passes its checks.** Whatever the registers, the configuration, the
interrupt lines and the bus, a checked step meets no defect and does what the
step does. No slot lies outside the memory and no byte outside the matrix. -/
theorem step_passes_checks (c : Computer) :
    c.checkedStep.defects = [] ∧ c.checkedStep.value = c.step ∧
      (∀ slot : UInt16, slot.toNat < Cells.count 16) ∧
      ∀ byte : UInt8, ∃ row, Opcode.matrix[byte.toNat / 16]? = some row ∧
        byte.toNat % 16 < row.size := by
  rw [checkedStep_eq]
  exact ⟨rfl, rfl, UInt16.toNat_lt, Opcode.exists_row⟩

end Computer
end Cpu6502
