/-
# Which flags a step changes

An instruction changes the flags that its opcode lists and no others
(`Opcode.execute_changesWithin`), and where it derives N and Z they describe
the byte that this very instruction produced (`Product`): the new value of a
register, the byte it put in the place of another, a difference or a common
part. An interrupt entry sets the interrupt-disable flag.

No opcode lists the break bit or the unused bit. So in a whole session the
unused bit stays set, and the break bit changes through a reset or through a
host's write to flags alone (`Computer.flag_discipline`).

Key definitions: `Status.ChangesWithin`, `Product`, `Mnemonic.product?`,
`Opcode.SetsFlags`.
Key theorems: `Effect.settle_changesWithin`, `Opcode.execute_changesWithin`,
`Opcode.execute_noted`, `Computer.step_changesWithin`,
`Computer.flag_discipline`.
-/
import Cpu6502.Proofs.Calculation
import Cpu6502.Proofs.Session

namespace Cpu6502

/-! ### Changes of the status byte -/

namespace Status

/-- From `p` to `q` no flag outside the mask changes. The unused bit, which
reads as one anyway, may be set but is not cleared. -/
structure ChangesWithin (mask p q : UInt8) : Prop where
  outside : ∀ bit ∈ Flag.all, bit ≠ Flag.unused → isSet mask bit = false → isSet q bit = isSet p bit
  unused : isSet p Flag.unused = true → isSet q Flag.unused = true

theorem isSet_and_not (p mask : UInt8) :
    ∀ bit ∈ Flag.all, isSet (p &&& ~~~mask) bit = (isSet p bit && !isSet mask bit) := by
  intro bit hmem
  have hall := forall_byte
    (P := fun mask => Flag.all.all fun bit => ~~~mask &&& bit == if isSet mask bit then 0 else bit)
    (by decide +kernel) mask
  have hbit := beq_iff_eq.mp (List.all_eq_true.mp hall bit hmem)
  rw [isSet_and, hbit]
  cases isSet mask bit <;> simp [isSet]

theorem unused_and : ∀ bit ∈ Flag.all, bit ≠ Flag.unused → Flag.unused &&& bit = 0 := by
  rw [Flag.forall_mem_all]
  decide

/-- The bits of a status byte are apart. -/
theorem eq_of_isSet : ∀ mask ∈ Flag.all, ∀ bit ∈ Flag.all, isSet mask bit = true → bit = mask := by
  refine Flag.forall_mem_all.mpr ⟨?_, ?_, ?_, ?_, ?_, ?_, ?_, ?_⟩ <;>
    exact Flag.forall_mem_all.mpr (by decide)

namespace ChangesWithin

variable {mask p q r : UInt8}

theorem refl (mask p : UInt8) : ChangesWithin mask p p := ⟨fun _ _ _ _ => rfl, id⟩

theorem trans (h : ChangesWithin mask p q) (h' : ChangesWithin mask q r) : ChangesWithin mask p r :=
  ⟨fun bit hmem hu hm => (h'.outside bit hmem hu hm).trans (h.outside bit hmem hu hm),
    fun hu => h'.unused (h.unused hu)⟩

/-- More flags may be listed. -/
theorem mono (h : ChangesWithin mask p q) {mask' : UInt8}
    (hm : ∀ bit ∈ Flag.all, isSet mask bit = true → isSet mask' bit = true) :
    ChangesWithin mask' p q := by
  refine ⟨fun bit hmem hu hoff => h.outside bit hmem hu ?_, h.unused⟩
  cases hon : isSet mask bit with
  | false => rfl
  | true => exact (hm bit hmem hon).symm.trans hoff

/-- A listed flag may be assigned. -/
theorem assign (bit : UInt8) (hmem : bit ∈ Flag.all) (hon : isSet mask bit = true) (p : UInt8)
    (on : Bool) : ChangesWithin mask p (assign p bit on) := by
  have hself : ChangesWithin bit p (Status.assign p bit on) :=
    ⟨fun other hother hu hoff => isSet_assign_of_disjoint p on (by simpa [isSet] using hoff)
      (unused_and other hother hu), fun hu => isSet_unused_assign bit (.inr hu)⟩
  refine hself.mono fun other hother hbit => ?_
  rwa [eq_of_isSet bit hmem other hother hbit]

/-- A program's load of P changes neither the break bit nor the unused bit. -/
theorem restore (p v : UInt8) : ChangesWithin Flag.arithmetic p (restore p v) := by
  have hbits (bit : UInt8) : isSet (Status.restore p v) bit =
      (isSet v (~~~(Flag.brk ||| Flag.unused) &&& bit) || isSet p (Flag.brk &&& bit) ||
        isSet Flag.unused bit) := by
    rw [Status.restore, isSet_or, isSet_or, isSet_and, isSet_and]
  constructor
  · simp only [Flag.all, List.forall_mem_cons, hbits]
    refine ⟨?_, ?_, ?_, ?_, ?_, ?_, ?_, ?_, by simp⟩
    case refine_5 =>
      intro _ _
      have hv : ~~~(Flag.brk ||| Flag.unused) &&& Flag.brk = 0 := by decide
      have hp : Flag.brk &&& Flag.brk = Flag.brk := by decide
      have hu : isSet Flag.unused Flag.brk = false := by decide
      have hz : isSet v 0 = false := by simp [isSet]
      rw [hv, hp, hu, hz, Bool.false_or, Bool.or_false]
    case refine_6 => exact fun h => absurd rfl h
    all_goals exact fun _ h => absurd h (by decide)
  · intro _
    rw [hbits]
    exact Bool.or_true _

/-- What programs see outside the mask stays as it was. -/
theorem status_eq (h : ChangesWithin mask p q) :
    (q ||| Flag.unused) &&& ~~~mask = (p ||| Flag.unused) &&& ~~~mask := by
  apply ext
  intro bit hmem
  rw [isSet_and_not _ _ bit hmem, isSet_and_not _ _ bit hmem, isSet_or, isSet_or]
  by_cases hu : bit = Flag.unused
  · rw [hu, show isSet Flag.unused Flag.unused = true from rfl, Bool.or_true, Bool.or_true]
  · cases hoff : isSet mask bit with
    | true => simp
    | false => rw [h.outside bit hmem hu hoff]

end ChangesWithin

end Status

/-! ### Settling -/

namespace Effect

open Status (ChangesWithin)

theorem storeFlag_changesWithin {flags mask : UInt8} (hmem : mask ∈ Flag.all)
    {produced : Option Bool} {r r' : Registers} (h : storeFlag flags mask produced r = some r') :
    ChangesWithin flags r.p r'.p := by
  unfold storeFlag at h
  split at h
  · rename_i hon
    obtain ⟨on, -, rfl⟩ := Option.map_eq_some_iff.mp h
    exact .assign mask hmem hon _ _
  · cases h
    exact .refl _ _

theorem assignListed_changesWithin (flags bit : UInt8) (hmem : bit ∈ Flag.all) (r : Registers)
    (on : Bool) :
    ChangesWithin flags r.p (if Status.isSet flags bit then r.assign bit on else r).p := by
  split
  · rename_i hon
    exact .assign bit hmem hon r.p on
  · exact .refl _ _

theorem deriveResultFlags_changesWithin (flags : UInt8) (r : Registers) :
    ChangesWithin flags r.p (deriveResultFlags flags r).p :=
  (assignListed_changesWithin flags Flag.negative (by decide) r _).trans
    (assignListed_changesWithin flags Flag.zero (by decide) _ _)

/-- Settling changes the derived flags only. -/
theorem settle_changesWithin {flags : UInt8} {e : Effect} {r : Registers}
    (h : e.settle flags = some r) : ChangesWithin flags e.regs.p r.p := by
  obtain ⟨r', hcarry, hoverflow⟩ := Option.bind_eq_some_iff.mp h
  exact ((deriveResultFlags_changesWithin flags e.regs).trans
    (storeFlag_changesWithin (by decide) hcarry)).trans
      (storeFlag_changesWithin (by decide) hoverflow)

theorem isSet_of_storeFlag {flags mask bits : UInt8} (hm : mask &&& bits = 0)
    (hu : Flag.unused &&& bits = 0) {produced : Option Bool} {r r' : Registers}
    (h : storeFlag flags mask produced r = some r') : r'.isSet bits = r.isSet bits := by
  unfold storeFlag at h
  split at h
  · obtain ⟨on, -, rfl⟩ := Option.map_eq_some_iff.mp h
    exact Status.isSet_assign_of_disjoint _ _ hm hu
  · cases h
    rfl

/-- Storing C and V leaves N and Z. -/
theorem isSet_of_settle {flags bits : UInt8} (hbits : (Flag.carry ||| Flag.overflow) &&& bits = 0)
    (hu : Flag.unused &&& bits = 0) {e : Effect} {r : Registers} (h : e.settle flags = some r) :
    r.isSet bits = (deriveResultFlags flags e.regs).isSet bits := by
  simp only [Status.or_and_distrib, UInt8.or_eq_zero_iff] at hbits
  obtain ⟨r', hcarry, hoverflow⟩ := Option.bind_eq_some_iff.mp h
  rw [isSet_of_storeFlag hbits.2 hu hoverflow, isSet_of_storeFlag hbits.1 hu hcarry]

/-- N, if it is derived, is the sign of the last result. -/
theorem settle_negative {flags : UInt8} {e : Effect} {r : Registers} (h : e.settle flags = some r)
    (hn : Status.isSet flags Flag.negative = true) :
    r.isSet Flag.negative = Status.isSet e.regs.lastResult 0x80 := by
  rw [isSet_of_settle (by decide) (by decide) h, deriveResultFlags]
  simp only [hn, ↓reduceIte]
  split
  · exact (Status.isSet_assign_of_disjoint _ _ (by decide) (by decide)).trans
      (Status.isSet_assign_self _ _ (by decide) (by decide))
  · exact Status.isSet_assign_self _ _ (by decide) (by decide)

/-- Z, if it is derived, says that the last result is zero. -/
theorem settle_zero {flags : UInt8} {e : Effect} {r : Registers} (h : e.settle flags = some r)
    (hz : Status.isSet flags Flag.zero = true) :
    r.isSet Flag.zero = (e.regs.lastResult == 0) := by
  have hlast : (if Status.isSet flags Flag.negative
      then e.regs.assign Flag.negative (Status.isSet e.regs.lastResult 0x80)
      else e.regs).lastResult = e.regs.lastResult := by split <;> rfl
  rw [isSet_of_settle (by decide) (by decide) h, deriveResultFlags]
  simp only [hz, ↓reduceIte, hlast]
  exact Status.isSet_assign_self _ _ (by decide) (by decide)

end Effect

/-! ### Actions and the status byte -/

namespace Action

open Status (ChangesWithin)

/-- Whatever the action does, it changes flags of the mask only. -/
def ChangesFlags (mask : UInt8) : Action → Prop
  | take f => ∀ v e, ChangesWithin mask e.regs.p (f v e).regs.p
  | modify _ next => ∀ v e, ChangesWithin mask e.regs.p (next v e).regs.p
  | internal f => ∀ r, ChangesWithin mask r.p (f r).p
  | pull f => ∀ r v, ChangesWithin mask r.p (f r v).p
  | returnFromInterrupt => ∀ p v, ChangesWithin mask p (Status.restore p v)
  | softwareInterrupt => ∀ p, ChangesWithin mask p (Status.assign p Flag.irqDisable true)
  | _ => True

theorem run_changesWithin {mask : UInt8} {action : Action} (hc : action.ChangesFlags mask)
    {operand : Operand} {m : Machine} {o : Outcome} (h : action.run operand m = some o) :
    ChangesWithin mask m.regs.p o.effect.regs.p := by
  cases action with
  | take f =>
    obtain ⟨v, -, rfl⟩ := Option.map_eq_some_iff.mp h
    exact hc v ⟨m.regs, none, none⟩
  | modify change next =>
    cases operand with
    | accumulator =>
      cases h
      let new := change (m.regs.isSet Flag.carry) m.regs.a
      exact hc new.value ⟨m.regs.setA new.value, new.carry, none⟩
    | address a =>
      cases h
      let new := change (m.regs.isSet Flag.carry) (m.bus.read a)
      exact hc new.value ⟨m.regs.setLastResult new.value, new.carry, none⟩
    | implied | immediate v | relative d => cases h
  | internal f =>
    cases h
    exact hc _
  | pull f =>
    cases h
    exact hc m.pop.2.regs _
  | returnFromInterrupt =>
    cases h
    exact hc _ _
  | softwareInterrupt =>
    cases h
    exact hc _
  | store value | jump | callSubroutine =>
    obtain ⟨a, -, rfl⟩ := Option.map_eq_some_iff.mp h
    exact .refl _ _
  | push value | returnFromSubroutine =>
    cases h
    exact .refl _ _
  | branch flag expected =>
    cases operand with
    | relative d =>
      cases h
      unfold branchBy
      split <;> exact .refl _ _
    | _ => cases h

end Action

namespace Mnemonic

open Status (ChangesWithin)

/-- The action of an instruction assigns the flags that are its own to assign. -/
theorem action_changesFlags (mnemonic : Mnemonic) :
    mnemonic.action.ChangesFlags mnemonic.manualFlags := by
  cases mnemonic
  case bit =>
    exact fun v e => (ChangesWithin.assign Flag.negative (by decide) rfl e.regs.p _).trans
      (.assign Flag.overflow (by decide) rfl _ _)
  case plp => exact fun r v => ChangesWithin.restore r.p v
  case rti => exact ChangesWithin.restore
  case brk => exact fun p => .assign Flag.irqDisable (by decide) rfl p true
  case clc => exact fun r => ChangesWithin.assign Flag.carry (by decide) rfl r.p false
  case sec => exact fun r => ChangesWithin.assign Flag.carry (by decide) rfl r.p true
  case cli => exact fun r => ChangesWithin.assign Flag.irqDisable (by decide) rfl r.p false
  case sei => exact fun r => ChangesWithin.assign Flag.irqDisable (by decide) rfl r.p true
  case cld => exact fun r => ChangesWithin.assign Flag.decimal (by decide) rfl r.p false
  case sed => exact fun r => ChangesWithin.assign Flag.decimal (by decide) rfl r.p true
  case clv => exact fun r => ChangesWithin.assign Flag.overflow (by decide) rfl r.p false
  case sta | stx | sty | sax | pha | php | jmp | jsr | rts | bcc | bcs | beq | bmi | bne | bpl |
      bvc | bvs => trivial
  case pla => exact fun r v => .refl _ _
  case tax | tay | txa | tya | tsx | txs | inx | iny | dex | dey | nop => exact fun r => .refl _ _
  all_goals exact fun v e => .refl _ _

theorem isSet_affected (mnemonic : Mnemonic) : ∀ bit ∈ Flag.all,
    Status.isSet (mnemonic.autoFlags ||| mnemonic.manualFlags) bit = true →
      Status.isSet Flag.arithmetic bit = true := by
  rw [Flag.forall_mem_all]
  cases mnemonic <;> decide

end Mnemonic

/-- **An instruction changes the flags that its opcode lists.** -/
theorem Opcode.execute_changesWithin {op : Opcode} {m n : Machine} {cycles : Cycles}
    (h : op.execute m = some (n, cycles)) :
    Status.ChangesWithin op.affectedFlags m.regs.p n.regs.p := by
  obtain ⟨o, ho, hregs, -, -⟩ := execute_outcome h
  have hmanual := Action.run_changesWithin op.mnemonic.action_changesFlags ho
  have hauto := Effect.settle_changesWithin hregs
  refine (hmanual.mono fun bit _ hon => ?_).trans (hauto.mono fun bit _ hon => ?_)
  · rw [affectedFlags, Status.isSet_or, manualFlags, hon, Bool.or_true]
  · rw [affectedFlags, Status.isSet_or, autoFlags, hon, Bool.true_or]

/-! ### The byte that an instruction produces -/

/-- A byte that N and Z describe, by where it is found. -/
inductive Product
  /-- The new value of a register. -/
  | register (read : Registers → UInt8)
  /-- The byte that takes the place of another, in memory or in A. -/
  | replaced
  /-- By what a register exceeds the operand, modulo 256. -/
  | difference (read : Registers → UInt8)
  /-- By what A exceeds the byte that is put in memory, modulo 256. -/
  | differenceReplaced
  /-- The common part of A and the operand. -/
  | common

/-- The byte, where an instruction in this mode leads from one machine to
another. -/
def Product.byte (mode : Mode) (m n : Machine) : Product → Option Nat
  | register read => some (read n.regs).toNat
  | replaced =>
    if mode = .accumulator then some n.regs.a.toNat else (mode.effective m).map n.bus.byteAt
  | difference read => (mode.delivered m).map fun v => (256 + (read m.regs).toNat - v) % 256
  | differenceReplaced =>
    (mode.effective m).map fun ea => (256 + m.regs.a.toNat - n.bus.byteAt ea) % 256
  | common => (mode.delivered m).map fun v => m.regs.a.toNat &&& v

/-- What an instruction produces, if N or Z describes it. -/
def Mnemonic.product? : Mnemonic → Option Product
  | lda | lax | txa | tya | pla | and | ora | eor | adc | sbc | slo | rla | sre | rra | isb =>
    some (.register (·.a))
  | ldx | tax | tsx | inx | dex => some (.register (·.x))
  | ldy | tay | iny | dey => some (.register (·.y))
  | asl | lsr | rol | ror | inc | dec => some .replaced
  | cmp => some (.difference (·.a))
  | cpx => some (.difference (·.x))
  | cpy => some (.difference (·.y))
  | dcp => some .differenceReplaced
  | bit => some .common
  | _ => none

theorem Mnemonic.product?_of_autoFlags {mnemonic : Mnemonic}
    (h : Status.isSet mnemonic.autoFlags (Flag.negative ||| Flag.zero) = true) :
    ∃ product, mnemonic.product? = some product := by
  cases mnemonic <;> first | exact ⟨_, rfl⟩ | cases h

/-- Whatever the action does, the last result is the register that this
reads. -/
def Action.Notes (read : Registers → UInt8) : Action → Prop
  | take f => ∀ v e, (f v e).regs.lastResult = read (f v e).regs
  | modify _ next => ∀ v e, (next v e).regs.lastResult = read (next v e).regs
  | internal f => ∀ r, (f r).lastResult = read (f r)
  | pull f => ∀ r v, (f r v).lastResult = read (f r v)
  | _ => False

theorem Action.run_notes {action : Action} {read : Registers → UInt8} (hn : action.Notes read)
    {operand : Operand} {m : Machine} {o : Outcome} (h : action.run operand m = some o) :
    o.effect.regs.lastResult = read o.effect.regs := by
  cases action with
  | take f =>
    obtain ⟨v, -, rfl⟩ := Option.map_eq_some_iff.mp h
    exact hn v _
  | modify change next =>
    cases operand with
    | accumulator | address a =>
      cases h
      exact hn _ _
    | implied | immediate v | relative d => cases h
  | internal f =>
    cases h
    exact hn _
  | pull f =>
    cases h
    exact hn _ _
  | _ => exact hn.elim

/-- The register is neither P nor the count of cycles. -/
def Registers.Plain (read : Registers → UInt8) : Prop :=
  ∀ (r : Registers) (p : UInt8) (cycles : UInt64),
    read { r with p := p, totalCycles := cycles } = read r

namespace Mnemonic

/-- How an instruction comes to its product. -/
inductive Produces (mnemonic : Mnemonic) : Product → Prop
  | register (read : Registers → UInt8) (ha : mnemonic.action.Notes read)
      (hp : Registers.Plain read) : Produces mnemonic (.register read)
  | replaced (change : Change) (ha : mnemonic.action = .modify change Effect.keep) :
      Produces mnemonic .replaced
  | difference (read : Registers → UInt8) (ha : mnemonic.action = .take (Effect.compare read))
      (hr : ∀ r d, read (r.advancePc d) = read r) (hm : mnemonic.access = .read) :
      Produces mnemonic (.difference read)
  | differenceReplaced (change : Change)
      (ha : mnemonic.action = .modify change (Effect.compare (·.a)))
      (hm : mnemonic.calculation? = some .compareA) : Produces mnemonic .differenceReplaced
  | common (ha : mnemonic.action = .take Effect.testBits) (hm : mnemonic.access = .read) :
      Produces mnemonic .common

theorem produces {mnemonic : Mnemonic} {product : Product}
    (h : mnemonic.product? = some product) : mnemonic.Produces product := by
  cases mnemonic <;> cases h
  case lda | lax | and | ora | eor | adc | sbc | slo | rla | sre | rra | isb | pla | ldx | ldy =>
    exact .register _ (fun _ _ => rfl) fun _ _ _ => rfl
  case txa | tya | tax | tsx | inx | dex | tay | iny | dey =>
    exact .register _ (fun _ => rfl) fun _ _ _ => rfl
  case asl | lsr | rol | ror | inc | dec => exact .replaced _ rfl
  case cmp | cpx | cpy => exact .difference _ rfl (fun _ _ => rfl) rfl
  case dcp => exact .differenceReplaced _ rfl rfl
  case bit => exact .common rfl rfl

end Mnemonic

namespace Opcode

theorem toNat_difference (a v : UInt8) : (a - v).toNat = (256 + a.toNat - v.toNat) % 256 := by
  have hlt := v.toNat_lt
  rw [UInt8.toNat_sub]
  omega

theorem mode_ne_accumulator_of_reads {byte : UInt8} {op : Opcode} (hd : decode? byte = some op)
    (h : op.mnemonic.access = .read) : op.mode ≠ .accumulator := by
  have hop := forall_decode? (P := fun op => op.mnemonic.access != .read ||
    op.mode != .accumulator) (by decide +kernel) hd
  simpa [h] using hop

/-- The write of an instruction that replaces a byte in memory. -/
theorem writes_of_modify {op : Opcode} {m : Machine} {change : Change}
    {next : UInt8 → Effect → Effect} (ha : op.mnemonic.action = .modify change next) {a : Address}
    (hoperand : (op.mode.resolve m).operand = .address a) :
    op.writes m = [⟨a, (change (m.regs.isSet Flag.carry) (m.bus.read a)).value⟩] := by
  have hpush : op.mnemonic.isPush = false := by
    revert ha
    cases op.mnemonic <;> first | exact fun _ => rfl | exact fun h => nomatch h
  rw [op.writes_of_not_isPush hpush]
  cases op.mnemonic.storing hpush with
  | replace change' next' f ha' hf hs =>
    cases ha.symm.trans ha'
    rw [stores_of_address hoperand ((hs _ _).trans (congrArg some (hf _ _).symm))]
  | store value ha' _ _ => cases ha.symm.trans ha'
  | quiet hquiet _ =>
    rw [ha] at hquiet
    exact hquiet.elim

/-- The byte that takes the place of another is then there. -/
theorem byteAt_of_modify {byte : UInt8} {op : Opcode} {m n : Machine} {cycles : Cycles}
    (hd : decode? byte = some op) (h : op.execute m = some (n, cycles))
    (haccepted : m.bus.firstRejected (op.writes m) = none) {change : Change}
    {next : UInt8 → Effect → Effect} (ha : op.mnemonic.action = .modify change next) {a : Address}
    (hoperand : (op.mode.resolve m).operand = .address a) :
    n.bus.byteAt a.toNat = (change (m.regs.isSet Flag.carry) (m.bus.read a)).value.toNat := by
  have hwritten := execute_bus hd h
  rw [writes_of_modify ha hoperand] at hwritten haccepted
  rw [← n.bus.toNat_read rfl, hwritten, Bus.read_writeAll_singleton haccepted]

theorem mode_ne_accumulator_of_address {mode : Mode} {m : Machine} {a : Address}
    (h : (mode.resolve m).operand = .address a) : mode ≠ .accumulator := by
  rintro rfl
  cases h

/-- **The last result is the product.** -/
theorem execute_noted {byte : UInt8} {op : Opcode} {m n : Machine} {cycles : Cycles}
    (hd : decode? byte = some op) (h : op.execute m = some (n, cycles))
    (haccepted : m.bus.firstRejected (op.writes m) = none) {product : Product}
    (hp : op.mnemonic.product? = some product) :
    product.byte op.mode m n = some n.regs.lastResult.toNat := by
  obtain ⟨o, ho, hregs, -, -⟩ := execute_outcome h
  obtain ⟨p, hn⟩ := Effect.settle_eq hregs
  have hlast : n.regs.lastResult = o.effect.regs.lastResult := by rw [hn]
  cases Mnemonic.produces hp with
  | register read ha hplain =>
    have hread : read n.regs = read o.effect.regs := by
      rw [hn]
      exact hplain o.effect.regs p o.effect.regs.totalCycles
    rw [Product.byte, hread, hlast, Action.run_notes ha ho]
  | replaced change ha =>
    rw [ha] at ho
    cases hoperand : (op.mode.resolve m).operand with
    | accumulator =>
      rw [hoperand] at ho
      cases ho
      rw [Product.byte, if_pos (Mode.accumulator_of_operand hoperand), hn]
      rfl
    | address a =>
      have hbyte := byteAt_of_modify hd h haccepted ha hoperand
      rw [hoperand] at ho
      cases ho
      rw [Product.byte, if_neg (mode_ne_accumulator_of_address hoperand),
        Mode.effective_of_address hoperand, Option.map_some, hbyte, hlast]
      rfl
    | implied | immediate v | relative d =>
      rw [hoperand] at ho
      cases ho
  | difference read ha hpc hm =>
    rw [ha] at ho
    obtain ⟨v, hv, rfl⟩ := Option.map_eq_some_iff.mp ho
    have hregister : read (op.past m).regs = read m.regs := hpc _ _
    have hdifference : n.regs.lastResult = read m.regs - v :=
      hlast.trans (congrArg (· - v) hregister)
    rw [Product.byte, Mode.delivered_of_byte? (mode_ne_accumulator_of_reads hd hm) rfl hv,
      Option.map_some, hdifference, toNat_difference]
  | differenceReplaced change ha hm =>
    rw [ha] at ho
    obtain ⟨a, hoperand⟩ := operand_of_modify (mode_ne_accumulator hd hm) ho
    have hbyte := byteAt_of_modify hd h haccepted ha hoperand
    rw [hoperand] at ho
    cases ho
    rw [Product.byte, Mode.effective_of_address hoperand, Option.map_some, hbyte, hlast,
      ← toNat_difference]
    rfl
  | common ha hm =>
    rw [ha] at ho
    obtain ⟨v, hv, rfl⟩ := Option.map_eq_some_iff.mp ho
    rw [Product.byte, Mode.delivered_of_byte? (mode_ne_accumulator_of_reads hd hm) rfl hv,
      Option.map_some, hlast]
    exact congrArg some (UInt8.toNat_and _ _).symm

/-- What an instruction does to the flags. -/
structure SetsFlags (op : Opcode) (m n : Machine) : Prop where
  /-- Flags that the opcode does not list stay as they were. -/
  others : n.regs.status &&& ~~~op.affectedFlags = m.regs.status &&& ~~~op.affectedFlags
  /-- N and Z, where they are derived, are bit 7 and the zero test of the
  product. -/
  result : Status.isSet op.autoFlags (Flag.negative ||| Flag.zero) = true →
    ∃ product v, op.mnemonic.product? = some product ∧ product.byte op.mode m n = some v ∧
      v < 256 ∧
      (Status.isSet op.autoFlags Flag.negative = true →
        n.regs.isSet Flag.negative = v.testBit 7) ∧
      (Status.isSet op.autoFlags Flag.zero = true → n.regs.isSet Flag.zero = (v == 0))
  /-- BIT copies N and V from the operand. -/
  bit : op.mnemonic = .bit → ∃ v, op.mode.delivered m = some v ∧
    n.regs.isSet Flag.negative = v.testBit 7 ∧ n.regs.isSet Flag.overflow = v.testBit 6

theorem isSet_negative_eq (v : UInt8) : Status.isSet v Flag.negative = v.toNat.testBit 7 :=
  forall_byte (P := fun v => Status.isSet v Flag.negative = v.toNat.testBit 7) (by decide +kernel) v

theorem isSet_overflow_eq (v : UInt8) : Status.isSet v Flag.overflow = v.toNat.testBit 6 :=
  forall_byte (P := fun v => Status.isSet v Flag.overflow = v.toNat.testBit 6) (by decide +kernel) v

theorem beq_zero_eq (v : UInt8) : (v == 0) = (v.toNat == 0) :=
  forall_byte (P := fun v => (v == 0) = (v.toNat == 0)) (by decide +kernel) v

/-- N and V after BIT. Only Z is derived. -/
theorem execute_bit {byte : UInt8} {op : Opcode} {m n : Machine} {cycles : Cycles}
    (hd : decode? byte = some op) (h : op.execute m = some (n, cycles))
    (hbit : op.mnemonic = .bit) : ∃ v, op.mode.delivered m = some v ∧
      n.regs.isSet Flag.negative = v.testBit 7 ∧ n.regs.isSet Flag.overflow = v.testBit 6 := by
  have hmode := mode_ne_accumulator_of_reads hd (by rw [hbit]; rfl)
  obtain ⟨o, ho, hregs, -, -⟩ := execute_outcome h
  rw [hbit] at ho hregs
  obtain ⟨v, hv, rfl⟩ := Option.map_eq_some_iff.mp ho
  have hauto := Effect.settle_changesWithin hregs
  refine ⟨v.toNat, Mode.delivered_of_byte? hmode rfl hv, ?_, ?_⟩
  · rw [← isSet_negative_eq]
    refine (hauto.outside Flag.negative (by decide) (by decide) (by decide)).trans ?_
    exact (Status.isSet_assign_of_disjoint _ _ (by decide) (by decide)).trans
      (Status.isSet_assign_self _ _ (by decide) (by decide))
  · rw [← isSet_overflow_eq]
    refine (hauto.outside Flag.overflow (by decide) (by decide) (by decide)).trans ?_
    exact Status.isSet_assign_self _ _ (by decide) (by decide)

/-- **What an instruction does to the flags.** -/
theorem execute_setsFlags {byte : UInt8} {op : Opcode} {m n : Machine} {cycles : Cycles}
    (hd : decode? byte = some op) (h : op.execute m = some (n, cycles))
    (haccepted : m.bus.firstRejected (op.writes m) = none) : op.SetsFlags m n where
  others := (execute_changesWithin h).status_eq
  result hauto := by
    obtain ⟨product, hp⟩ := Mnemonic.product?_of_autoFlags hauto
    obtain ⟨o, -, hregs, -, -⟩ := execute_outcome h
    obtain ⟨p, hn⟩ := Effect.settle_eq hregs
    have hlast : n.regs.lastResult = o.effect.regs.lastResult := by rw [hn]
    refine ⟨product, _, hp, execute_noted hd h haccepted hp, UInt8.toNat_lt _, fun hon => ?_,
      fun hon => ?_⟩
    · rw [Effect.settle_negative hregs hon, hlast]
      exact isSet_negative_eq _
    · rw [Effect.settle_zero hregs hon, hlast]
      exact beq_zero_eq _
  bit := execute_bit hd h

end Opcode

/-- Where the bytes at the addresses and the registers are, no matter how many
cycles were counted, the product is. -/
theorem Mnemonic.byte_product {mnemonic : Mnemonic} {product : Product}
    (hp : mnemonic.product? = some product) (mode : Mode) (m : Machine) {n n' : Machine}
    {total : Nat} (hr : n'.regs = n.regs.addCycles total)
    (hb : ∀ a, n'.bus.read a = n.bus.read a) :
    product.byte mode m n' = product.byte mode m n := by
  have hbyte : n'.bus.byteAt = n.bus.byteAt := funext fun k => by rw [Bus.byteAt, hb, Bus.byteAt]
  cases produces hp with
  | register read ha hplain =>
    have hread : read n'.regs = read n.regs := by
      rw [hr]
      exact hplain n.regs n.regs.p _
    rw [Product.byte, Product.byte, hread]
  | replaced change ha => rw [Product.byte, Product.byte, hbyte, hr, Registers.addCycles]
  | difference read ha hr hm => rfl
  | differenceReplaced change ha hm => rw [Product.byte, Product.byte, hbyte]
  | common ha hm => rfl

/-! ### Steps -/

namespace Computer

open Status (ChangesWithin)

/-- What a step that executes an instruction does to the flags. -/
theorem step_setsFlags {c c' : Computer} (hs : c.bus.AtRest)
    (hi : c.started.cpu.lines.next (c.started.cpu.regs.isSet Flag.irqDisable) = none)
    (h : c.step = (.ok true, c')) :
    ∃ op, Opcode.decode? (c.found.bus.read c.found.regs.pc) = some op ∧
      op.SetsFlags c.found ⟨c'.cpu.regs, c'.bus⟩ := by
  obtain ⟨op, n, cycles, hop, he, hcpu, hbus⟩ := step_ok_execute hs hi h
  have hregs : c'.cpu.regs = n.regs.addCycles cycles.total := by rw [hcpu]; rfl
  have hread (a : Address) : c'.bus.read a = n.bus.read a := by rw [← hbus]; rfl
  have haccepted : c.found.bus.firstRejected (op.writes c.found) = none := by
    rw [← step_ok_writes hs hi h hop]
    exact (step_ok_issued hs h).1
  obtain ⟨hothers, hresult, hbit⟩ := Opcode.execute_setsFlags hop he haccepted
  have hp : c'.cpu.regs.p = n.regs.p := by rw [hregs]; rfl
  have hset (mask : UInt8) : c'.cpu.regs.isSet mask = n.regs.isSet mask := by
    rw [Registers.isSet, hp, Registers.isSet]
  refine ⟨op, hop, ⟨?_, fun hauto => ?_, fun hmnemonic => ?_⟩⟩
  · simp only [Registers.status, hp]
    exact hothers
  · obtain ⟨product, v, hproduct, hv, hlt, hn, hz⟩ := hresult hauto
    refine ⟨product, v, hproduct, ?_, hlt, fun hon => (hset _).trans (hn hon),
      fun hon => (hset _).trans (hz hon)⟩
    rw [← hv]
    exact Mnemonic.byte_product hproduct op.mode c.found hregs hread
  · obtain ⟨v, hv, hn, ho⟩ := hbit hmnemonic
    exact ⟨v, hv, (hset _).trans hn, (hset _).trans ho⟩

/-- What a step that serves an interrupt does to them. -/
theorem step_status_of_interrupt {c c' : Computer} (hs : c.bus.AtRest) {kind : Interrupt}
    (hi : c.started.cpu.lines.next (c.started.cpu.regs.isSet Flag.irqDisable) = some kind)
    (h : c.step = (.ok true, c')) :
    c'.cpu.regs.status = c.found.regs.status ||| Flag.irqDisable := by
  obtain ⟨hcpu, -⟩ := step_ok_enter hs hi h
  have hp : c'.cpu.regs.p = c.found.regs.p ||| Flag.irqDisable := by rw [hcpu]; rfl
  rw [Registers.status, hp, Registers.status, UInt8.or_assoc, UInt8.or_comm Flag.irqDisable,
    ← UInt8.or_assoc]

theorem work_changesWithin {cpu : Processor} {m n : Machine} {cycles : Nat}
    (h : work cpu m = .ok (n, cycles)) : ChangesWithin Flag.arithmetic m.regs.p n.regs.p := by
  unfold work at h
  cases hnext : cpu.lines.next (m.regs.isSet Flag.irqDisable) with
  | some kind =>
    rw [hnext] at h
    cases h
    exact ChangesWithin.assign Flag.irqDisable (by decide) (by decide) m.regs.p true
  | none =>
    rw [hnext] at h
    simp only at h
    cases hx : m.instruction cpu.config.undocumentedOpcodes with
    | error reason =>
      rw [hx] at h
      cases h
    | ok done =>
      rw [hx] at h
      cases h
      obtain ⟨op, -, he⟩ := Machine.instruction_eq_ok hx
      exact (Opcode.execute_changesWithin he).mono op.mnemonic.isSet_affected

/-- However a step ends, it changes neither the break bit nor the unused bit. -/
theorem step_changesWithin (c : Computer) :
    ChangesWithin Flag.arithmetic c.started.cpu.regs.p c.step.2.cpu.regs.p := by
  have hstep := step_stepped c
  generalize c.step.1 = answer at hstep
  generalize c.step.2 = c' at hstep ⊢
  cases hstep with
  | idle hp =>
    rw [started_of_isHalted hp]
    exact .refl _ _
  | done m cycles _ hw _ => exact work_changesWithin hw
  | refused | rejected => exact .refl _ _

theorem runFrom_changesWithin {c : Computer} (hp : c.cpu.phase ≠ .reset) (count limit : Nat) :
    ChangesWithin Flag.arithmetic c.cpu.regs.p (runFrom count limit c).2.cpu.regs.p := by
  suffices (runFrom count limit c).2.cpu.phase ≠ .reset ∧
      ChangesWithin Flag.arithmetic c.cpu.regs.p (runFrom count limit c).2.cpu.regs.p from this.2
  refine runFrom_keeps (P := fun d => d.cpu.phase ≠ .reset ∧
    ChangesWithin Flag.arithmetic c.cpu.regs.p d.cpu.regs.p) (fun {d} hd => ?_)
    ⟨hp, .refl _ _⟩ count limit
  have hstep := step_changesWithin d
  rw [started_of_phase hd.1] at hstep
  exact ⟨d.step_phase, hd.2.trans hstep⟩

/-! ### Sessions -/

/-- A request that is neither a reset nor a write to flags changes neither the
break bit nor the unused bit. -/
theorem answer_changesWithin {c : Computer} {request : Request} (hf : request.setsFlags = false)
    (hr : request.resets c.cpu.phase = false) :
    ChangesWithin Flag.arithmetic c.cpu.regs.p (c.answer request).2.cpu.regs.p := by
  cases request with
  | reset => cases hr
  | step =>
    have hstep := step_changesWithin c
    rw [started_of_phase (by simpa [Request.resets] using hr)] at hstep
    exact hstep
  | run limit =>
    cases limit with
    | zero => exact .refl _ _
    | succ limit =>
      exact runFrom_changesWithin (by simpa [Request.resets] using hr) 0 (limit + 1)
  | set setter =>
    cases setter with
    | status v => exact .restore c.cpu.regs.p v
    | flags mask on | raw f => cases hf
    | a v | x v | y v | sp v | pc v => exact .refl _ _
  | triggerNmi | setIrqLine asserted | traceLine | disassemble pc | access op
  | arrange arrangement => exact .refl _ _

/-- The unused bit is set after a reset. -/
theorem isSet_unused_powerOn (config : Config) :
    (Registers.powerOn config).isSet Flag.unused = true := by
  rw [Registers.isSet, Registers.powerOn, Status.isSet_or]
  exact Bool.or_true _

theorem isSet_unused_started {c : Computer} (h : c.cpu.regs.isSet Flag.unused = true) :
    c.started.cpu.regs.isSet Flag.unused = true := by
  unfold started
  split
  · exact isSet_unused_powerOn c.cpu.config
  · exact h

/-- No request clears the unused bit, unless it writes past the setters. -/
theorem isSet_unused_answer {c : Computer} (h : c.cpu.regs.isSet Flag.unused = true)
    {request : Request} (hr : request.isRawSet = false) :
    (c.answer request).2.cpu.regs.isSet Flag.unused = true := by
  cases request with
  | reset => exact isSet_unused_powerOn c.cpu.config
  | step => exact c.step_changesWithin.unused (isSet_unused_started h)
  | run limit =>
    cases limit with
    | zero => exact h
    | succ limit =>
      have hrun := (runFrom_changesWithin c.started_phase 0 (limit + 1)).unused
        (isSet_unused_started h)
      rw [← runFrom_started] at hrun
      exact hrun
  | set setter =>
    cases setter with
    | status v => exact (ChangesWithin.restore c.cpu.regs.p v).unused h
    | flags mask on => exact Status.isSet_unused_assign mask (.inr h)
    | raw f => cases hr
    | a v | x v | y v | sp v | pc v => exact h
  | triggerNmi | setIrqLine asserted | traceLine | disassemble pc | access op
  | arrange arrangement => exact h

theorem isSet_unused_session {c : Computer} (h : c.cpu.regs.isSet Flag.unused = true)
    {requests : List Request} (hr : ∀ request ∈ requests, request.isRawSet = false) :
    (c.session requests).2.cpu.regs.isSet Flag.unused = true :=
  after_keeps (P := fun d => d.cpu.regs.isSet Flag.unused = true)
    (fun hd hr => isSet_unused_answer hd hr) h hr

/-- **What may change a flag.** A step that serves an interrupt sets I and
changes no other flag. A step that executes an instruction changes the flags
that the opcode lists, and N and Z describe what it produced. So in a session
that begins at power-on, and in which the host writes registers by the setters
only, the unused bit is always set, and the break bit changes by a reset or a
host's write to flags alone. -/
theorem flag_discipline :
    (∀ c c' : Computer, c.bus.AtRest → c.step = (.ok true, c') →
      (∀ kind, c.started.cpu.lines.next (c.found.regs.isSet Flag.irqDisable) = some kind →
        c'.cpu.regs.status = c.found.regs.status ||| Flag.irqDisable) ∧
      (c.started.cpu.lines.next (c.found.regs.isSet Flag.irqDisable) = none →
        ∃ op, Opcode.decode? (c.found.bus.read c.found.regs.pc) = some op ∧
          op.SetsFlags c.found ⟨c'.cpu.regs, c'.bus⟩)) ∧
    ∀ (config : Config) (bus : Bus) (requests : List Request) (c : Computer),
      (∀ request ∈ requests, request.isRawSet = false) →
      ((⟨.powerOn config, bus⟩ : Computer).session requests).2 = c →
        c.cpu.regs.isSet Flag.unused = true ∧
        ∀ request : Request, request.setsFlags = false → request.resets c.cpu.phase = false →
          (c.answer request).2.cpu.regs.isSet Flag.brk = c.cpu.regs.isSet Flag.brk := by
  refine ⟨fun c c' hs h => ⟨fun kind hi => step_status_of_interrupt hs hi h,
    fun hi => step_setsFlags hs hi h⟩, ?_⟩
  rintro config bus requests c hraw rfl
  refine ⟨isSet_unused_session (isSet_unused_powerOn config) hraw, fun request hf hr => ?_⟩
  exact (answer_changesWithin hf hr).outside Flag.brk (by decide) (by decide) (by decide)

/-- `DCP $10` on the byte `$01` with A at `$80`: it stores `$00`, and the
difference is negative. V, the break bit, D and Z are set before. -/
def decrementAndCompare : Computer where
  cpu := { Processor.powerOn {} with
    regs := { Registers.powerOn {} with a := 0x80, pc := 0x0200, p := 0x7A }
    phase := .fetching }
  bus := ((Bus.withMapping .flat).load 0x0200 [0xC7, 0x10]).poke 0x0010 0x01

/-- The host sets the break bit of a computer that was just reset. -/
def markBroken : List Request := [.reset, .set (.flags Flag.brk true), .setIrqLine true]

theorem flag_discipline_dcp : ∃ c', decrementAndCompare.step = (.ok true, c') ∧
    c'.bus.byteAt 0x0010 = 0x00 ∧ c'.cpu.regs.isSet Flag.negative = true ∧
    c'.cpu.regs.isSet Flag.zero = false ∧ c'.cpu.regs.status &&& 0x7C = 0x78 ∧
    (((⟨.powerOn {}, .withMapping .flat⟩ : Computer).session markBroken).2.answer
      (.set (.status 0x00))).2.cpu.regs.isSet Flag.brk = true := by
  have hstep : decrementAndCompare.step = (.ok true, decrementAndCompare.step.2) := Prod.ext rfl rfl
  have hdcp : Opcode.decode? (decrementAndCompare.found.bus.read
      decrementAndCompare.found.regs.pc) = some ⟨.dcp, .zeroPage, 5, false⟩ := by decide +kernel
  have hstored : decrementAndCompare.step.2.bus.byteAt 0x0010 = 0x00 := by decide +kernel
  obtain ⟨op, hop, hothers, hresult, -⟩ :=
    (flag_discipline.1 decrementAndCompare _ ⟨rfl, rfl⟩ hstep).2 rfl
  cases hop.symm.trans hdcp
  obtain ⟨product, v, hp, hv, -, hn, hz⟩ := hresult (by decide)
  cases hp
  have hdifference : Product.byte .zeroPage decrementAndCompare.found
      ⟨decrementAndCompare.step.2.cpu.regs, decrementAndCompare.step.2.bus⟩ .differenceReplaced =
        some 0x80 := by decide +kernel
  cases hv.symm.trans hdifference
  refine ⟨_, hstep, hstored, hn rfl, hz rfl, hothers.trans (by decide), ?_⟩
  exact ((flag_discipline.2 {} (.withMapping .flat) markBroken _ (by decide) rfl).2
    (.set (.status 0x00)) rfl rfl).trans rfl

end Computer

end Cpu6502
