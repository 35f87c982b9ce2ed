/-
# A mode matters by the byte it delivers

An instruction that reads or replaces a byte does not know where the byte was.
Two of them with one mnemonic, whatever their modes, leave the same registers and
flags from the same registers and flags if their modes deliver the same byte, and
put the same byte in its place (`Computer.Performs.agree`,
`Computer.Performs.replaces_alike`). PC, the cycle count and the memory around play
no part, nor does the unused bit of P, which programs always see set.

A is no place in memory: a shift of A leaves in A what a shift of the same byte in
memory leaves there, with the same flags (`Computer.Performs.shift_alike`).

The reason is that work on the registers treats registers alike that programs
cannot tell apart (`Effect.Respects`), and that all these instructions hand their
byte to such work, changed or not (`Mnemonic.Uses`).

Key definitions: `Registers.Agree`, `Effect.Respects`, `Mnemonic.Uses`,
`Computer.Replaces`.
Key theorems: `Effect.settle_agree`, `Opcode.execute_agree`,
`Computer.modes_agree`.
-/
import Cpu6502.Proofs.Shifts

namespace Cpu6502

/-! ### Status bytes that differ in the unused bit -/

namespace Status

variable {p q : UInt8}

theorem isSet_of_or_unused (h : p ||| Flag.unused = q ||| Flag.unused) {mask : UInt8}
    (hu : Flag.unused &&& mask = 0) : isSet p mask = isSet q mask := by
  have hunused : isSet Flag.unused mask = false := by rw [isSet, hu]; rfl
  have hor := congrArg (isSet · mask) h
  simpa only [isSet_or, hunused, Bool.or_false] using hor

theorem assign_or_unused (p mask : UInt8) (on : Bool) :
    assign p mask on ||| Flag.unused = assign (p ||| Flag.unused) mask on ||| Flag.unused := by
  apply UInt8.toBitVec_inj.1
  apply BitVec.eq_of_getLsbD_eq
  intro i hi
  cases on <;> simp [assign, set, clear, hi] <;> grind

theorem assign_congr (h : p ||| Flag.unused = q ||| Flag.unused) (mask : UInt8) (on : Bool) :
    assign p mask on ||| Flag.unused = assign q mask on ||| Flag.unused := by
  rw [assign_or_unused, h, ← assign_or_unused]

theorem afterComparison_congr (h : p ||| Flag.unused = q ||| Flag.unused) (difference : UInt8)
    (carry : Bool) : afterComparison p difference carry ||| Flag.unused =
      afterComparison q difference carry ||| Flag.unused :=
  assign_congr (assign_congr (assign_congr h _ _) _ _) _ _

end Status

/-! ### Registers that programs cannot tell apart -/

namespace Registers

/-- The registers agree but for A, PC and the cycle count; of P counts what
programs see. -/
structure AgreeButA (r s : Registers) : Prop where
  x : r.x = s.x
  y : r.y = s.y
  sp : r.sp = s.sp
  status : r.status = s.status
  lastResult : r.lastResult = s.lastResult

/-- The registers agree but for PC and the cycle count. -/
structure Agree (r s : Registers) : Prop extends AgreeButA r s where
  a : r.a = s.a

variable {r s : Registers}

theorem AgreeButA.isSet (h : r.AgreeButA s) {mask : UInt8} (hu : Flag.unused &&& mask = 0) :
    r.isSet mask = s.isSet mask :=
  Status.isSet_of_or_unused h.status hu

namespace Agree

theorem setA (h : r.Agree s) (v : UInt8) : (r.setA v).Agree (s.setA v) :=
  ⟨⟨h.x, h.y, h.sp, h.status, rfl⟩, rfl⟩

theorem setX (h : r.Agree s) (v : UInt8) : (r.setX v).Agree (s.setX v) :=
  ⟨⟨rfl, h.y, h.sp, h.status, rfl⟩, h.a⟩

theorem setY (h : r.Agree s) (v : UInt8) : (r.setY v).Agree (s.setY v) :=
  ⟨⟨h.x, rfl, h.sp, h.status, rfl⟩, h.a⟩

theorem setLastResult (h : r.Agree s) (v : UInt8) : (r.setLastResult v).Agree (s.setLastResult v) :=
  ⟨⟨h.x, h.y, h.sp, h.status, rfl⟩, h.a⟩

theorem assign (h : r.Agree s) (mask : UInt8) (on : Bool) :
    (r.assign mask on).Agree (s.assign mask on) :=
  ⟨⟨h.x, h.y, h.sp, Status.assign_congr h.status mask on, h.lastResult⟩, h.a⟩

theorem assignWhen (h : r.Agree s) (when : Prop) [Decidable when] (mask : UInt8) (on : Bool) :
    (if when then r.assign mask on else r).Agree (if when then s.assign mask on else s) := by
  split
  · exact h.assign mask on
  · exact h

/-- PC and the cycle count may be anywhere. -/
theorem moved (h : r.Agree s) (d d' : UInt16) : (r.advancePc d).Agree (s.advancePc d') :=
  ⟨⟨h.x, h.y, h.sp, h.status, h.lastResult⟩, h.a⟩

theorem counted (h : r.Agree s) (n n' : Nat) : (r.addCycles n).Agree (s.addCycles n') :=
  ⟨⟨h.x, h.y, h.sp, h.status, h.lastResult⟩, h.a⟩

end Agree
end Registers

/-! ### Work on the registers -/

namespace Effect

/-- Agreeing registers with the same carry and overflow produced. -/
structure Agree (e f : Effect) : Prop where
  regs : e.regs.Agree f.regs
  carry : e.carry = f.carry
  overflow : e.overflow = f.overflow

/-- Work with a byte that leaves agreement where it finds it. -/
def Respects (work : UInt8 → Effect → Effect) : Prop :=
  ∀ (v : UInt8) {e f : Effect}, e.Agree f → (work v e).Agree (work v f)

theorem Agree.carryIn {e f : Effect} (h : e.Agree f) : e.carryIn = f.carryIn := by
  rw [Effect.carryIn, Effect.carryIn, h.carry, h.regs.isSet (by decide)]

theorem Agree.takeSum {e f : Effect} (h : e.Agree f) (s : Sum) : (e.takeSum s).Agree (f.takeSum s) :=
  ⟨h.regs.setA s.value, rfl, rfl⟩

theorem respects_keep : Respects keep := fun _ _ _ h => h

theorem respects_combineA (g : UInt8 → UInt8 → UInt8) : Respects (combineA g) := by
  intro v e f h
  refine ⟨?_, h.carry, h.overflow⟩
  simp only [combineA, update, h.regs.a]
  exact h.regs.setA _

theorem respects_add : Respects add := by
  intro v e f h
  rw [add, add, h.regs.a, h.carryIn]
  exact h.takeSum _

theorem respects_subtract : Respects subtract := by
  intro v e f h
  rw [subtract, subtract, h.regs.a, h.carryIn]
  exact h.takeSum _

theorem respects_compare {register : Registers → UInt8}
    (hr : ∀ {r s : Registers}, r.Agree s → register r = register s) : Respects (compare register) := by
  intro v e f h
  rw [compare, compare, hr h.regs]
  exact ⟨h.regs.setLastResult _, rfl, h.overflow⟩

theorem respects_testBits : Respects testBits := by
  intro v e f h
  refine ⟨?_, h.carry, h.overflow⟩
  simp only [testBits, update, h.regs.a]
  exact ((h.regs.setLastResult _).assign _ _).assign _ _

theorem deriveResultFlags_agree {r s : Registers} (h : r.Agree s) (flags : UInt8) :
    (deriveResultFlags flags r).Agree (deriveResultFlags flags s) := by
  have hnegative := h.assignWhen (Status.isSet flags Flag.negative = true) Flag.negative
    (Status.isSet s.lastResult 0x80)
  simp only [deriveResultFlags, h.lastResult, hnegative.lastResult]
  exact hnegative.assignWhen _ _ _

theorem storeFlag_agree {r s : Registers} (h : r.Agree s) (flags mask : UInt8)
    (produced : Option Bool) :
    Option.Rel Registers.Agree (storeFlag flags mask produced r)
      (storeFlag flags mask produced s) := by
  unfold storeFlag
  split
  · cases produced with
    | none => exact .none
    | some on => exact .some (h.assign mask on)
  · exact .some h

/-- **The flags of agreeing effects** are settled alike. -/
theorem settle_agree {e f : Effect} (h : e.Agree f) (flags : UInt8) :
    Option.Rel Registers.Agree (e.settle flags) (f.settle flags) := by
  have hcarry := storeFlag_agree (deriveResultFlags_agree h.regs flags) flags Flag.carry f.carry
  unfold settle
  rw [h.carry, h.overflow]
  revert hcarry
  generalize storeFlag flags Flag.carry f.carry (deriveResultFlags flags e.regs) = r
  generalize storeFlag flags Flag.carry f.carry (deriveResultFlags flags f.regs) = s
  rintro (⟨hr⟩ | _)
  · exact storeFlag_agree hr flags Flag.overflow f.overflow
  · exact .none

end Effect

/-! ### Instructions -/

namespace Mnemonic

/-- How an instruction uses the byte that its mode delivers. -/
inductive Uses (mnemonic : Mnemonic) : Prop
  /-- It works with the byte. -/
  | takes (work : UInt8 → Effect → Effect) (ha : mnemonic.action = .take work)
      (hw : Effect.Respects work)
  /-- It puts another byte in its place and works with that one. -/
  | replaces (change : Change) (next : UInt8 → Effect → Effect)
      (ha : mnemonic.action = .modify change next) (hn : Effect.Respects next)
  /-- It is NOP, which has no use for it. -/
  | ignores (h : mnemonic = .nop)

theorem uses {mnemonic : Mnemonic}
    (h : mnemonic.access = .read ∨ mnemonic.access = .readModifyWrite) : mnemonic.Uses := by
  cases mnemonic
  case lda => exact .takes _ rfl fun v _ _ h => ⟨h.regs.setA v, h.carry, h.overflow⟩
  case ldx => exact .takes _ rfl fun v _ _ h => ⟨h.regs.setX v, h.carry, h.overflow⟩
  case ldy => exact .takes _ rfl fun v _ _ h => ⟨h.regs.setY v, h.carry, h.overflow⟩
  case lax => exact .takes _ rfl fun v _ _ h => ⟨(h.regs.setA v).setX v, h.carry, h.overflow⟩
  case and | ora | eor => exact .takes _ rfl (Effect.respects_combineA _)
  case bit => exact .takes _ rfl Effect.respects_testBits
  case adc => exact .takes _ rfl Effect.respects_add
  case sbc => exact .takes _ rfl Effect.respects_subtract
  case cmp => exact .takes _ rfl (Effect.respects_compare (·.a))
  case cpx => exact .takes _ rfl (Effect.respects_compare (·.x))
  case cpy => exact .takes _ rfl (Effect.respects_compare (·.y))
  case inc | dec | asl | lsr | rol | ror => exact .replaces _ _ rfl Effect.respects_keep
  case slo | rla | sre => exact .replaces _ _ rfl (Effect.respects_combineA _)
  case rra => exact .replaces _ _ rfl Effect.respects_add
  case isb => exact .replaces _ _ rfl Effect.respects_subtract
  case dcp => exact .replaces _ _ rfl (Effect.respects_compare (·.a))
  case nop => exact .ignores rfl
  all_goals simp [access] at h

theorem action_of_readModifyWrite {mnemonic : Mnemonic} (h : mnemonic.access = .readModifyWrite) :
    ∃ change next, mnemonic.action = .modify change next := by
  cases mnemonic <;> first | exact ⟨_, _, rfl⟩ | cases h

end Mnemonic

theorem Shift.of_mnemonic {mnemonic : Mnemonic} (h : mnemonic ∈ [.asl, .lsr, .rol, .ror]) :
    ∃ shift : Shift, mnemonic = shift.mnemonic := by
  simp only [List.mem_cons, List.not_mem_nil, or_false] at h
  obtain rfl | rfl | rfl | rfl := h
  · exact ⟨.asl, rfl⟩
  · exact ⟨.lsr, rfl⟩
  · exact ⟨.rol, rfl⟩
  · exact ⟨.ror, rfl⟩

theorem Mode.read_of_delivered {mode : Mode} {m : Machine} {a : Address} {v : UInt8}
    (ha : (mode.resolve m).operand = .address a) (h : mode.delivered m = some v.toNat) :
    m.bus.read a = v := by
  rw [delivered_of_address ha] at h
  exact UInt8.toNat_inj.mp (Option.some_inj.mp h)

namespace Opcode

section
variable {op op' : Opcode} {m m' : Machine} (hm : op.mnemonic = op'.mnemonic)
  (hu : op.mnemonic.Uses) (hmode : op.mode ≠ .accumulator) (hmode' : op'.mode ≠ .accumulator)
  (hv : op.mnemonic ≠ .nop → op.mode.delivered m = op'.mode.delivered m')
  (hr : m.regs.Agree m'.regs)
include hm hu hmode hmode' hv hr

/-- The action leaves agreeing effects: with the same byte it changes the
registers in the same way. -/
theorem run_agree {o o' : Outcome}
    (h : op.mnemonic.action.run (op.mode.resolve m).operand (op.past m) = some o)
    (h' : op'.mnemonic.action.run (op'.mode.resolve m').operand (op'.past m') = some o') :
    o.effect.Agree o'.effect := by
  have hpast : (op.past m).regs.Agree (op'.past m').regs := hr.moved _ _
  rw [← hm] at h'
  cases hu with
  | takes work ha hw =>
    have hdelivered := hv fun hnop => by cases ha.symm.trans (congrArg Mnemonic.action hnop)
    rw [ha] at h h'
    obtain ⟨v, hbyte, rfl⟩ := Option.map_eq_some_iff.mp h
    obtain ⟨v', hbyte', rfl⟩ := Option.map_eq_some_iff.mp h'
    rw [Mode.delivered_of_byte? hmode rfl hbyte, Mode.delivered_of_byte? hmode' rfl hbyte',
      Option.some_inj, UInt8.toNat_inj] at hdelivered
    rw [hdelivered]
    exact hw v' ⟨hpast, rfl, rfl⟩
  | replaces change next ha hn =>
    have hdelivered := hv fun hnop => by cases ha.symm.trans (congrArg Mnemonic.action hnop)
    rw [ha] at h h'
    obtain ⟨a, hoperand⟩ := operand_of_modify hmode h
    obtain ⟨a', hoperand'⟩ := operand_of_modify hmode' h'
    have hbyte : (op.past m).bus.read a = (op'.past m').bus.read a' :=
      Mode.read_of_delivered (m := m) hoperand
        (hdelivered.trans (Mode.delivered_of_address hoperand'))
    have hcarry : (op.past m).regs.isSet Flag.carry = (op'.past m').regs.isSet Flag.carry :=
      hpast.isSet (by decide)
    rw [hoperand, Action.run, Action.replace_address, hbyte, hcarry] at h
    rw [hoperand'] at h'
    cases h
    cases h'
    exact hn _ ⟨hpast.setLastResult _, rfl, rfl⟩
  | ignores hnop =>
    rw [hnop] at h h'
    cases h
    cases h'
    exact ⟨hpast, rfl, rfl⟩

/-- **Two instructions that are delivered the same byte** leave agreeing
registers. -/
theorem execute_agree {n n' : Machine} {cycles cycles' : Cycles}
    (h : op.execute m = some (n, cycles)) (h' : op'.execute m' = some (n', cycles')) :
    n.regs.Agree n'.regs := by
  obtain ⟨o, ho, hregs, -, -⟩ := execute_outcome h
  obtain ⟨o', ho', hregs', -, -⟩ := execute_outcome h'
  have hsettled := Effect.settle_agree (run_agree hm hu hmode hmode' hv hr ho ho')
    op.mnemonic.autoFlags
  rw [hregs, hm, hregs'] at hsettled
  cases hsettled with
  | some hagree => exact hagree

end
end Opcode

/-! ### Steps -/

namespace Computer

/-- The one write of the step puts this byte at the effective address, and there
it is afterwards. -/
structure Replaces (c : Computer) (op : Opcode) (c' : Computer) (a : Address) (w : UInt8) :
    Prop where
  effective : op.mode.effective c.found = some a.toNat
  issued : c.issued = [⟨a, w⟩]
  stored : c'.bus.read a = w

namespace Performs

variable {c c' d d' : Computer} {op op' : Opcode}

/-- An instruction that replaces a byte outside A stores the changed byte. -/
theorem replaces (h : c.Performs op c') {change : Change} {next : UInt8 → Effect → Effect}
    (ha : op.mnemonic.action = .modify change next) (hmode : op.mode ≠ .accumulator) :
    ∃ a, (op.mode.resolve c.found).operand = .address a ∧
      c.Replaces op c' a (change (c.found.regs.isSet Flag.carry) (c.found.bus.read a)).value := by
  obtain ⟨n, cycles, he, -⟩ := h.execute
  obtain ⟨o, ho, -, -, -⟩ := Opcode.execute_outcome he
  rw [ha] at ho
  obtain ⟨a, hoperand⟩ := Opcode.operand_of_modify hmode ho
  have hwrites := Opcode.writes_of_modify ha hoperand
  have hread := h.read (by simp [hwrites])
  rw [hwrites] at hread
  exact ⟨a, hoperand,
    { effective := Mode.effective_of_address hoperand
      issued := (step_ok_writes h.atRest h.undisturbed h.step h.decoded).trans hwrites
      stored := hread _ List.mem_cons_self }⟩

section
variable (h : c.Performs op c') (h' : d.Performs op' d') (hm : op.mnemonic = op'.mnemonic)
  (hmode : op.mode ≠ .accumulator) (hmode' : op'.mode ≠ .accumulator)
  (hv : op.mnemonic ≠ .nop → op.mode.delivered c.found = op'.mode.delivered d.found)
  (hr : c.found.regs.Agree d.found.regs)
include h h' hm hmode hmode' hv hr

/-- With the same byte delivered, the registers agree after the step as they did
before it. -/
theorem agree (hu : op.mnemonic.Uses) : c'.cpu.regs.Agree d'.cpu.regs := by
  obtain ⟨n, cycles, he, hregs⟩ := h.execute
  obtain ⟨n', cycles', he', hregs'⟩ := h'.execute
  rw [hregs, hregs']
  exact (Opcode.execute_agree hm hu hmode hmode' hv hr he he').counted _ _

/-- A byte that is replaced is replaced by the same. -/
theorem replaces_alike (haccess : op.access = .readModifyWrite) :
    ∃ a a' w, c.Replaces op c' a w ∧ d.Replaces op' d' a' w := by
  obtain ⟨change, next, ha⟩ := Mnemonic.action_of_readModifyWrite haccess
  have hdelivered := hv fun hnop => by cases ha.symm.trans (congrArg Mnemonic.action hnop)
  obtain ⟨a, hoperand, hreplaces⟩ := h.replaces ha hmode
  obtain ⟨a', hoperand', hreplaces'⟩ := h'.replaces (hm ▸ ha) hmode'
  rw [Mode.read_of_delivered hoperand (hdelivered.trans (Mode.delivered_of_address hoperand')),
    hr.isSet (by decide)] at hreplaces
  exact ⟨a, a', _, hreplaces, hreplaces'⟩

end

/-- An instruction on A writes nothing. -/
theorem bus_of_accumulator (h : c.Performs op c') (hp : op.mnemonic.isPush = false)
    (hmode : op.mode = .accumulator) : c'.bus = { c.bus with fault := none } := by
  have hissued : c.issued = [] := by
    rw [step_ok_writes h.atRest h.undisturbed h.step h.decoded, op.writes_of_not_isPush hp,
      Opcode.stores, hmode]
    rfl
  exact step_ok_quiet h.atRest h.step hissued

/-- A shift of A does to A and to the flags what it does to the same byte in
memory. -/
theorem shift_alike {shift : Shift} (h : c.Performs op c') (h' : d.Performs op' d')
    (hm : op.mnemonic = shift.mnemonic) (hm' : op'.mnemonic = shift.mnemonic)
    (hmode : op.mode ≠ .accumulator) (hmode' : op'.mode = .accumulator)
    (hv : op.mode.delivered c.found = some d.found.regs.a.toNat)
    (hr : c.found.regs.AgreeButA d.found.regs) :
    c'.cpu.regs.AgreeButA d'.cpu.regs ∧ c'.cpu.regs.a = c.found.regs.a ∧
      ∃ a, c.Replaces op c' a d'.cpu.regs.a := by
  obtain ⟨n, cycles, he, hregs⟩ := h.execute
  obtain ⟨n', cycles', he', hregs'⟩ := h'.execute
  obtain ⟨a, hoperand, hreplaces⟩ := h.replaces (hm ▸ shift.action_mnemonic) hmode
  have hshifted := Opcode.execute_shift he hm hoperand
  have hshifted' := Opcode.execute_shift_accumulator he' hm' hmode'
  rw [Mode.read_of_delivered hoperand hv, hr.isSet (by decide)] at hreplaces hshifted
  rw [hregs, hregs', hshifted, hshifted']
  exact ⟨⟨hr.x, hr.y, hr.sp, Status.afterComparison_congr hr.status _ _, rfl⟩, rfl, a, hreplaces⟩

end Performs

/-- **The mode matters only through the byte it delivers.** Two steps with one
mnemonic, neither on A, from registers that agree and with the same byte delivered,
leave registers that agree, and replace the byte, if they do, by the same. NOP has
no use for a byte, so that it needs none. A step that shifts A does the same
to A and to the flags as one that shifts an equal byte in memory; the one spares
the memory and the other A. -/
theorem modes_agree {c c' d d' : Computer} {op op' : Opcode} (h : c.Performs op c')
    (h' : d.Performs op' d') (hm : op.mnemonic = op'.mnemonic) (hmode : op.mode ≠ .accumulator) :
    (op.access = .read ∨ op.access = .readModifyWrite → op'.mode ≠ .accumulator →
      (op.mnemonic ≠ .nop → op.mode.delivered c.found = op'.mode.delivered d.found) →
      c.found.regs.Agree d.found.regs →
        c'.cpu.regs.Agree d'.cpu.regs ∧ (op.access = .readModifyWrite →
          ∃ a a' w, c.Replaces op c' a w ∧ d.Replaces op' d' a' w)) ∧
    (op.mnemonic ∈ [.asl, .lsr, .rol, .ror] → op'.mode = .accumulator →
      op.mode.delivered c.found = some d.found.regs.a.toNat →
      c.found.regs.AgreeButA d.found.regs →
        c'.cpu.regs.AgreeButA d'.cpu.regs ∧ c'.cpu.regs.a = c.found.regs.a ∧
        (∃ a, c.Replaces op c' a d'.cpu.regs.a) ∧ d'.bus = { d.bus with fault := none }) := by
  constructor
  · intro haccess hmode' hv hr
    exact ⟨h.agree h' hm hmode hmode' hv hr (Mnemonic.uses haccess),
      h.replaces_alike h' hm hmode hmode' hv hr⟩
  · intro hshift hmode' hv hr
    obtain ⟨shift, hmnemonic⟩ := Shift.of_mnemonic hshift
    have hp : op'.mnemonic.isPush = false := by
      rw [← hm, hmnemonic]
      cases shift <;> rfl
    obtain ⟨hagree, ha, hreplaces⟩ :=
      h.shift_alike h' hmnemonic (hm.symm.trans hmnemonic) hmode hmode' hv hr
    exact ⟨hagree, ha, hreplaces, h'.bus_of_accumulator hp hmode'⟩

/-- A rotate of the byte `$03`, in A or in this place, with the carry set. -/
def rotateThree (mapping : Mapping) (a p : UInt8) (code : List UInt8) (place : Address) :
    Computer where
  cpu := { Processor.powerOn {} with
    regs := { Registers.powerOn {} with a := a, x := 0x20, pc := 0x0200, p := p }
    phase := .fetching }
  bus := ((Bus.withMapping mapping).load 0x0200 code).poke place 0x03

/-- `ROR $0810`, where work memory repeats the byte at `$0010`; the unused bit of P
is clear. -/
def rotateMirrored : Computer :=
  rotateThree (Nrom.ofSize 16384).toMapping 0x55 0x01 [0x6E, 0x10, 0x08] 0x0010

/-- `ROR $02F0,X`. -/
def rotateIndexed : Computer := rotateThree .flat 0x55 0x21 [0x7E, 0xF0, 0x02] 0x0310

/-- `ROR A`. -/
def rotateA : Computer := rotateThree .flat 0x03 0x21 [0x6A] 0x0310

theorem modes_agree_rotate : ∃ c' d' e', rotateMirrored.Performs ⟨.ror, .absolute, 6, true⟩ c' ∧
    rotateIndexed.Performs ⟨.ror, .absoluteX, 6, true⟩ d' ∧
    rotateA.Performs ⟨.ror, .accumulator, 2, true⟩ e' ∧
    c'.cpu.regs.Agree d'.cpu.regs ∧ c'.cpu.regs.AgreeButA e'.cpu.regs ∧
    (∃ a a' w, rotateMirrored.Replaces ⟨.ror, .absolute, 6, true⟩ c' a w ∧
      rotateIndexed.Replaces ⟨.ror, .absoluteX, 6, true⟩ d' a' w) ∧
    ∃ a, rotateMirrored.Replaces ⟨.ror, .absolute, 6, true⟩ c' a e'.cpu.regs.a := by
  have hmirrored : rotateMirrored.Performs ⟨.ror, .absolute, 6, true⟩ rotateMirrored.step.2 :=
    .of_step rfl ⟨rfl, rfl⟩ rfl (by decide +kernel)
  have hindexed : rotateIndexed.Performs ⟨.ror, .absoluteX, 6, true⟩ rotateIndexed.step.2 :=
    .of_step rfl ⟨rfl, rfl⟩ rfl (by decide +kernel)
  have hA : rotateA.Performs ⟨.ror, .accumulator, 2, true⟩ rotateA.step.2 :=
    .of_step rfl ⟨rfl, rfl⟩ rfl (by decide +kernel)
  obtain ⟨hagree, hreplaces⟩ := (modes_agree hmirrored hindexed rfl (by decide)).1 (.inr rfl)
    (by decide) (fun _ => by decide +kernel) ⟨⟨rfl, rfl, rfl, rfl, rfl⟩, rfl⟩
  obtain ⟨hshift, -, hinA, -⟩ := (modes_agree hmirrored hA rfl (by decide)).2 (by decide) rfl
    (by decide +kernel) ⟨rfl, rfl, rfl, rfl, rfl⟩
  exact ⟨_, _, _, hmirrored, hindexed, hA, hagree, hshift, hreplaces rfl, hinA⟩

end Computer
end Cpu6502
