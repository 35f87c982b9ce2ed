/-
# The instruction set

What every mnemonic does. The instructions fall into families, which are asked
in turn; the first that has the mnemonic answers (`Mnemonic.action?`). Each
mnemonic has a family, so its action is what that family answers
(`Mnemonic.action?_eq`).

The undocumented combinations change a byte in memory and hand the new byte to
a documented instruction's work: SLO shifts and then ORs, RRA rotates and then
adds, and so on, so they share the definitions of their two halves.

Key definitions: `Mnemonic.families`, `Mnemonic.action`, `Mnemonic.execute`.
Key theorems: `Mnemonic.action?_eq`, `Mnemonic.execute_eq`.
-/
import Cpu6502.Action
import Cpu6502.Mnemonic

namespace Cpu6502

/-- Puts a byte, combined with A, into A. -/
def Effect.combineA (f : UInt8 → UInt8 → UInt8) (v : UInt8) (e : Effect) : Effect :=
  e.update fun r => r.setA (f r.a v)

/-- Work on the registers that needs no byte more. -/
def Effect.keep (_ : UInt8) (e : Effect) : Effect := e

namespace Mnemonic

/-! ### Families

Each family of instructions answers for its own mnemonics. -/

def loadOrStore : Mnemonic → Option Action
  | lda => some (.take fun v e => e.update (·.setA v))
  | ldx => some (.take fun v e => e.update (·.setX v))
  | ldy => some (.take fun v e => e.update (·.setY v))
  | lax => some (.take fun v e => e.update fun r => (r.setA v).setX v)
  | sta => some (.store (·.a))
  | stx => some (.store (·.x))
  | sty => some (.store (·.y))
  | sax => some (.store fun r => r.a &&& r.x)
  | _ => none

def logic : Mnemonic → Option Action
  | and => some (.take (Effect.combineA (· &&& ·)))
  | ora => some (.take (Effect.combineA (· ||| ·)))
  | eor => some (.take (Effect.combineA (· ^^^ ·)))
  | bit => some (.take Effect.testBits)
  | _ => none

def arithmetic : Mnemonic → Option Action
  | adc => some (.take Effect.add)
  | sbc => some (.take Effect.subtract)
  | _ => none

def comparison : Mnemonic → Option Action
  | cmp => some (.take (Effect.compare (·.a)))
  | cpx => some (.take (Effect.compare (·.x)))
  | cpy => some (.take (Effect.compare (·.y)))
  | _ => none

def branching : Mnemonic → Option Action
  | bpl => some (.branch Flag.negative false)
  | bmi => some (.branch Flag.negative true)
  | bvc => some (.branch Flag.overflow false)
  | bvs => some (.branch Flag.overflow true)
  | bcc => some (.branch Flag.carry false)
  | bcs => some (.branch Flag.carry true)
  | bne => some (.branch Flag.zero false)
  | beq => some (.branch Flag.zero true)
  | _ => none

def modification : Mnemonic → Option Action
  | asl => some (.modify .shiftLeft Effect.keep)
  | lsr => some (.modify .shiftRight Effect.keep)
  | rol => some (.modify .rotateLeft Effect.keep)
  | ror => some (.modify .rotateRight Effect.keep)
  | inc => some (.modify .increment Effect.keep)
  | dec => some (.modify .decrement Effect.keep)
  | inx => some (.internal fun r => r.setX (r.x + 1))
  | iny => some (.internal fun r => r.setY (r.y + 1))
  | dex => some (.internal fun r => r.setX (r.x - 1))
  | dey => some (.internal fun r => r.setY (r.y - 1))
  | _ => none

/-- The undocumented combinations. -/
def combination : Mnemonic → Option Action
  | slo => some (.modify .shiftLeft (Effect.combineA (· ||| ·)))
  | rla => some (.modify .rotateLeft (Effect.combineA (· &&& ·)))
  | sre => some (.modify .shiftRight (Effect.combineA (· ^^^ ·)))
  | rra => some (.modify .rotateRight Effect.add)
  | dcp => some (.modify .decrement (Effect.compare (·.a)))
  | isb => some (.modify .increment Effect.subtract)
  | _ => none

def controlFlow : Mnemonic → Option Action
  | jmp => some .jump
  | jsr => some .callSubroutine
  | rts => some .returnFromSubroutine
  | rti => some .returnFromInterrupt
  | brk => some .softwareInterrupt
  | _ => none

/-- Transfers, pushes and pulls, single flags, and nothing. -/
def miscellaneous : Mnemonic → Option Action
  | tax => some (.internal fun r => r.setX r.a)
  | tay => some (.internal fun r => r.setY r.a)
  | txa => some (.internal fun r => r.setA r.x)
  | tya => some (.internal fun r => r.setA r.y)
  | tsx => some (.internal fun r => r.setX r.sp)
  | txs => some (.internal fun r => r.setSp r.x)
  | pha => some (.push (·.a))
  | php => some (.push (·.pushedStatus true))
  | pla => some (.pull Registers.setA)
  | plp => some (.pull Registers.setStatus)
  | clc => some (.internal (·.assign Flag.carry false))
  | sec => some (.internal (·.assign Flag.carry true))
  | cli => some (.internal (·.assign Flag.irqDisable false))
  | sei => some (.internal (·.assign Flag.irqDisable true))
  | cld => some (.internal (·.assign Flag.decimal false))
  | sed => some (.internal (·.assign Flag.decimal true))
  | clv => some (.internal (·.assign Flag.overflow false))
  | nop => some (.internal id)
  | _ => none

/-- The families in the order in which they are asked. -/
def families : List (Mnemonic → Option Action) :=
  [loadOrStore, logic, arithmetic, comparison, branching, modification, combination, controlFlow,
    miscellaneous]

/-! ### All instructions -/

/-- What the first family that has the instruction answers. -/
def action? (mnemonic : Mnemonic) : Option Action := families.findSome? (· mnemonic)

/-- Every instruction is in a family. -/
theorem isSome_action? (mnemonic : Mnemonic) : mnemonic.action?.isSome = true := by
  cases mnemonic <;> rfl

/-- What the instruction does. -/
def action (mnemonic : Mnemonic) : Action := mnemonic.action?.get mnemonic.isSome_action?

theorem action?_eq (mnemonic : Mnemonic) : mnemonic.action? = some mnemonic.action :=
  (Option.some_get _).symm

/-- Carries out the instruction on a machine whose PC is past it, flags
included. The second part is the extra cost of a branch. -/
def execute (mnemonic : Mnemonic) (operand : Operand) (m : Machine) : Option (Machine × UInt8) := do
  let action ← mnemonic.action?
  let outcome ← action.run operand m
  let regs ← outcome.effect.settle mnemonic.pendingFlags
  return (⟨regs, outcome.bus⟩, outcome.branchCycles)

/-- An instruction is its action and then the settling of its flags. -/
theorem execute_eq (mnemonic : Mnemonic) (operand : Operand) (m : Machine) :
    mnemonic.execute operand m = (mnemonic.action.run operand m).bind fun outcome =>
      (outcome.effect.settle mnemonic.autoFlags).map fun regs =>
        (⟨regs, outcome.bus⟩, outcome.branchCycles) := by
  simp only [execute, action?_eq, pendingFlags_eq, Option.map_eq_bind]
  rfl

end Mnemonic
end Cpu6502
