/-
# The undocumented combinations

SLO, RLA, SRE, RRA, DCP and ISB change a byte in memory and hand the new byte
to a documented instruction's work; LAX loads A and X. Each is exactly its two
documented halves executed one after the other (`combined_execute`), although
the halves settle their flags one by one: the second half finds in the status
byte the carry that a combination hands on directly, and its N and Z replace
those of the first.

Key definitions: `Mnemonic.halves`.
Key theorems: `Effect.settle_combineA`, `Effect.settle_add`,
`Effect.settle_compare`, `Effect.settle_subtract`, `combined_execute`.
-/
import Cpu6502.InstructionSet
import Cpu6502.Proofs.Flags
import Cpu6502.Proofs.Step

namespace Cpu6502

/-! ### Settling once and settling twice -/

namespace Effect

variable (r : Registers) (v : UInt8)

/-- A load of A and then a transfer to X. -/
theorem settle_load :
    (⟨(r.setA v).setX v, none, none⟩ : Effect).settle (Flag.negative ||| Flag.zero) =
      ((⟨r.setA v, none, none⟩ : Effect).settle (Flag.negative ||| Flag.zero)).bind fun r' =>
        (⟨r'.setX r'.a, none, none⟩ : Effect).settle (Flag.negative ||| Flag.zero) := by
  simp only [settle_result, Option.bind_some]
  simp only [Registers.setA, Registers.setX, Status.deriveResult_deriveResult]

/-- A shift or rotate and then AND, ORA or EOR. -/
theorem settle_combineA (f : UInt8 → UInt8 → UInt8) (carry : Bool) :
    (combineA f v ⟨r.setLastResult v, some carry, none⟩).settle
        (Flag.negative ||| Flag.zero ||| Flag.carry) =
      ((⟨r.setLastResult v, some carry, none⟩ : Effect).settle
        (Flag.negative ||| Flag.zero ||| Flag.carry)).bind fun r' =>
          (combineA f v ⟨r', none, none⟩).settle (Flag.negative ||| Flag.zero) := by
  simp only [combineA, update, settle_carry, settle_result, Option.bind_some]
  simp only [Registers.setA, Registers.setLastResult, Status.deriveResult_assign_carry,
    Status.deriveResult_deriveResult]

/-- A rotate and then ADC, which finds the carry of the rotate in P. -/
theorem settle_add (carry : Bool) :
    (add v ⟨r.setLastResult v, some carry, none⟩).settle
        (Flag.negative ||| Flag.overflow ||| Flag.zero ||| Flag.carry) =
      ((⟨r.setLastResult v, some carry, none⟩ : Effect).settle
        (Flag.negative ||| Flag.zero ||| Flag.carry)).bind fun r' =>
          (add v ⟨r', none, none⟩).settle
            (Flag.negative ||| Flag.overflow ||| Flag.zero ||| Flag.carry) := by
  have hcarry (p : UInt8) : Status.isSet (Status.assign p Flag.carry carry) Flag.carry = carry :=
    Status.isSet_assign_self p carry (by decide) (by decide)
  simp only [add, takeSum, carryIn, settle_carry, settle_overflow, Option.bind_some,
    Option.getD_some, Option.getD_none]
  simp only [Registers.setA, Registers.setLastResult, Registers.isSet, hcarry,
    Status.deriveResult_assign_carry, Status.deriveResult_deriveResult,
    Status.assign_carry_assign_carry]

/-- A count and then CMP. -/
theorem settle_compare :
    (compare (·.a) v ⟨r.setLastResult v, none, none⟩).settle
        (Flag.negative ||| Flag.zero ||| Flag.carry) =
      ((⟨r.setLastResult v, none, none⟩ : Effect).settle
        (Flag.negative ||| Flag.zero)).bind fun r' =>
          (compare (·.a) v ⟨r', none, none⟩).settle
            (Flag.negative ||| Flag.zero ||| Flag.carry) := by
  simp only [compare, settle_result, settle_carry, Option.bind_some]
  simp only [Registers.setLastResult, Status.deriveResult_deriveResult]

/-- A count and then SBC, which finds in P the carry from before the count. -/
theorem settle_subtract :
    (subtract v ⟨r.setLastResult v, none, none⟩).settle
        (Flag.negative ||| Flag.overflow ||| Flag.zero ||| Flag.carry) =
      ((⟨r.setLastResult v, none, none⟩ : Effect).settle
        (Flag.negative ||| Flag.zero)).bind fun r' =>
          (subtract v ⟨r', none, none⟩).settle
            (Flag.negative ||| Flag.overflow ||| Flag.zero ||| Flag.carry) := by
  have hcarry (p w : UInt8) : Status.isSet (Status.deriveResult p w) Flag.carry =
      Status.isSet p Flag.carry := Status.isSet_deriveResult_of_disjoint p w (by decide)
  simp only [subtract, takeSum, carryIn, settle_result, settle_overflow, Option.bind_some,
    Option.getD_none]
  simp only [Registers.setA, Registers.setLastResult, Registers.isSet, hcarry,
    Status.deriveResult_deriveResult]

end Effect

/-! ### Combinations -/

namespace Mnemonic

/-- The two documented instructions that a combination is made of: one that
replaces the byte in memory, one that takes the new byte. -/
def halves : Mnemonic → Option (Mnemonic × Mnemonic)
  | slo => some (asl, ora)
  | rla => some (rol, and)
  | sre => some (lsr, eor)
  | rra => some (ror, adc)
  | dcp => some (dec, cmp)
  | isb => some (inc, sbc)
  | _ => none

/-- The combination does what its halves do, `change` and then `next`, and
settles at once what they settle one after the other. -/
structure Composed (combined first second : Mnemonic) (change : Change)
    (next : UInt8 → Effect → Effect) : Prop where
  combined_action : combined.action = .modify change next
  first_action : first.action = .modify change Effect.keep
  second_action : second.action = .take next
  settle_isSome : ∀ (r : Registers) (carry : Bool) (v : UInt8),
    ((next (change carry v).value ⟨r.setLastResult (change carry v).value,
      (change carry v).carry, none⟩).settle combined.autoFlags).isSome = true
  settle_eq : ∀ (r : Registers) (carry : Bool) (v : UInt8),
    (next (change carry v).value ⟨r.setLastResult (change carry v).value,
        (change carry v).carry, none⟩).settle combined.autoFlags =
      ((⟨r.setLastResult (change carry v).value, (change carry v).carry, none⟩ : Effect).settle
        first.autoFlags).bind fun r' =>
          (next (change carry v).value ⟨r', none, none⟩).settle second.autoFlags

theorem composed_of_halves {combined first second : Mnemonic}
    (h : combined.halves = some (first, second)) :
    ∃ change next, Composed combined first second change next := by
  cases combined <;> simp only [halves, Option.some.injEq, Prod.mk.injEq, reduceCtorEq] at h <;>
    obtain ⟨rfl, rfl⟩ := h <;> refine ⟨_, _, rfl, rfl, rfl, fun _ _ _ => rfl, fun r _ _ => ?_⟩
  case slo | rla | sre => exact Effect.settle_combineA r _ _ _
  case rra => exact Effect.settle_add r _ _
  case dcp => exact Effect.settle_compare r _
  case isb => exact Effect.settle_subtract r _

/-! ### Executing on an address -/

theorem execute_modify {mnemonic : Mnemonic} {change : Change} {next : UInt8 → Effect → Effect}
    (h : mnemonic.action = .modify change next) (m : Machine) (ea : Address) :
    mnemonic.execute (.address ea) m =
      let new := change (m.regs.isSet Flag.carry) (m.bus.read ea)
      ((next new.value ⟨m.regs.setLastResult new.value, new.carry, none⟩).settle
        mnemonic.autoFlags).map fun regs => (⟨regs, m.bus.write ea new.value⟩, 0) := by
  rw [execute_eq, h]
  rfl

theorem execute_take {mnemonic : Mnemonic} {f : UInt8 → Effect → Effect}
    (h : mnemonic.action = .take f) (m : Machine) (ea : Address) :
    mnemonic.execute (.address ea) m =
      ((f (m.bus.read ea) ⟨m.regs, none, none⟩).settle mnemonic.autoFlags).map fun regs =>
        (⟨regs, m.bus⟩, 0) := by
  rw [execute_eq, h]
  rfl

/-- Combination and first half store the same byte, and on a writable address
the second half reads it back. -/
theorem Composed.execute {combined first second : Mnemonic} {change : Change}
    {next : UInt8 → Effect → Effect} (h : Composed combined first second change next) (m : Machine)
    (ea : Address) : ∃ v once half,
      combined.execute (.address ea) m = some (⟨once, m.bus.write ea v⟩, 0) ∧
      first.execute (.address ea) m = some (⟨half, m.bus.write ea v⟩, 0) ∧ half.lastResult = v ∧
      ((m.bus.locate ea).readOnly = false →
        second.execute (.address ea) ⟨half, m.bus.write ea v⟩ =
          some (⟨once, m.bus.write ea v⟩, 0)) := by
  obtain ⟨once, honce⟩ := Option.isSome_iff_exists.mp
    (h.settle_isSome m.regs (m.regs.isSet Flag.carry) (m.bus.read ea))
  obtain ⟨half, hhalf, hsecond⟩ := Option.bind_eq_some_iff.mp ((h.settle_eq _ _ _).symm.trans honce)
  refine ⟨(change (m.regs.isSet Flag.carry) (m.bus.read ea)).value, once, half, ?_, ?_, ?_,
    fun hw => ?_⟩
  · rw [execute_modify h.combined_action]
    simp only [honce, Option.map_some]
  · rw [execute_modify h.first_action]
    simp only [Effect.keep, hhalf, Option.map_some]
  · obtain ⟨p, rfl⟩ := Effect.settle_eq hhalf
    rfl
  · have hread (v : UInt8) : (m.bus.write ea v).read ea = v := by simp [Bus.read_write, hw]
    rw [execute_take h.second_action]
    simp only [hread, hsecond, Option.map_some]

theorem lax_execute (m : Machine) (ea : Address) :
    lax.execute (.address ea) m =
      (lda.execute (.address ea) m).bind fun done => tax.execute .implied done.1 := by
  have htax (n : Machine) : tax.execute .implied n =
      ((⟨n.regs.setX n.regs.a, none, none⟩ : Effect).settle (Flag.negative ||| Flag.zero)).map
        fun regs => (⟨regs, n.bus⟩, 0) := rfl
  have hlda : lda.execute (.address ea) m =
      ((⟨m.regs.setA (m.bus.read ea), none, none⟩ : Effect).settle
        (Flag.negative ||| Flag.zero)).map fun regs => (⟨regs, m.bus⟩, 0) := rfl
  have hlax : lax.execute (.address ea) m =
      ((⟨(m.regs.setA (m.bus.read ea)).setX (m.bus.read ea), none, none⟩ : Effect).settle
        (Flag.negative ||| Flag.zero)).map fun regs => (⟨regs, m.bus⟩, 0) := rfl
  rw [hlax, hlda, Effect.settle_load, Option.map_bind, Option.bind_map]
  simp only [Function.comp_def, htax]

end Mnemonic

open Mnemonic in
/-- **A combination is its two halves.** On a writable address SLO, RLA, SRE,
RRA, DCP and ISB leave the same registers, flags and bus as their documented
halves executed one after the other, and LAX does on any address; on a
protected address a combination is rejected as its first half is. RRA adds
with the bit that its rotate shifts out, and DCP and ISB leave the registers
that CMP and SBC with the new byte leave. -/
theorem combined_execute :
    (∀ combined first second : Mnemonic, combined.halves = some (first, second) →
      ∀ (m : Machine) (ea : Address),
        ((m.bus.locate ea).readOnly = false → ∃ n, combined.execute (.address ea) m = some (n, 0) ∧
          (first.execute (.address ea) m).bind (fun done => second.execute (.address ea) done.1) =
            some (n, 0)) ∧
        ((m.bus.locate ea).readOnly = true → ∃ n n',
          combined.execute (.address ea) m = some (n, 0) ∧
          first.execute (.address ea) m = some (n', 0) ∧ n.bus.fault = n'.bus.fault ∧
          n'.bus.fault = (m.bus.fault <|> some ⟨ea, n'.regs.lastResult⟩))) ∧
    (∀ (m : Machine) (ea : Address), ∃ n, lax.execute (.address ea) m = some (n, 0) ∧
      (lda.execute (.address ea) m).bind (fun done => tax.execute .implied done.1) = some (n, 0)) ∧
    (∀ (m : Machine) (ea : Address),
      (∃ n, rra.execute (.address ea) m = some (n, 0) ∧
        n.regs.a = (addWithCarry m.regs.a
          (Change.rotateRight (m.regs.isSet Flag.carry) (m.bus.read ea)).value
          (Status.isSet (m.bus.read ea) 0x01)).value) ∧
      (∃ n n', dcp.execute (.address ea) m = some (n, 0) ∧
        cmp.execute (.immediate (m.bus.read ea - 1)) m = some (n', 0) ∧ n.regs = n'.regs) ∧
      (∃ n n', isb.execute (.address ea) m = some (n, 0) ∧
        sbc.execute (.immediate (m.bus.read ea + 1)) m = some (n', 0) ∧ n.regs = n'.regs)) := by
  refine ⟨fun combined first second h m ea => ?_, fun m ea => ?_, fun m ea => ⟨?_, ?_, ?_⟩⟩
  · obtain ⟨change, next, hc⟩ := composed_of_halves h
    obtain ⟨v, once, half, honce, hhalf, hlast, hsecond⟩ := hc.execute m ea
    refine ⟨fun hw => ⟨_, honce, ?_⟩, fun hro => ⟨_, _, honce, hhalf, rfl, ?_⟩⟩
    · rw [hhalf]
      exact hsecond hw
    · simp only [Bus.write, hro, ↓reduceIte, hlast]
  · exact ⟨_, rfl, (lax_execute m ea).symm⟩
  · exact ⟨_, rfl, rfl⟩
  · exact ⟨_, _, rfl, rfl, rfl⟩
  · exact ⟨_, _, rfl, rfl, rfl⟩

/-- A console whose work memory has `$01` at `$0010`. -/
def rotateOne : Machine where
  regs := { Registers.powerOn {} with a := 0x10 }
  bus := (Bus.withMapping (Nrom.ofSize 16384).toMapping).poke 0x0010 0x01

open Mnemonic in
theorem combined_execute_rra :
    (rotateOne.bus.locate 0x0810).readOnly = false ∧ (rotateOne.bus.locate 0x8000).readOnly = true ∧
      (∃ n, rra.execute (.address 0x0810) rotateOne = some (n, 0) ∧
        (ror.execute (.address 0x0810) rotateOne).bind
          (fun done => adc.execute (.address 0x0810) done.1) = some (n, 0) ∧ n.regs.a = 0x11) ∧
      ∃ n n', rra.execute (.address 0x8000) rotateOne = some (n, 0) ∧
        ror.execute (.address 0x8000) rotateOne = some (n', 0) ∧ n.bus.fault = n'.bus.fault := by
  obtain ⟨n, hn, hhalves⟩ := (combined_execute.1 rra ror adc rfl rotateOne 0x0810).1 rfl
  obtain ⟨o, o', ho, ho', hfault, -⟩ := (combined_execute.1 rra ror adc rfl rotateOne 0x8000).2 rfl
  refine ⟨rfl, rfl, ⟨n, hn, hhalves, ?_⟩, o, o', ho, ho', hfault⟩
  have ha : (rra.execute (.address 0x0810) rotateOne).map (·.1.regs.a) = some 0x11 := by
    decide +kernel
  rw [hn] at ha
  simpa using ha

end Cpu6502
