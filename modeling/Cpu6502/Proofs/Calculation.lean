/-
# Adding, subtracting and comparing

A byte is a number from 0 to 255 or, read as signed, from -128 to 127. The
instructions that add, subtract and compare are exact in both readings: the
result is the exact one modulo 256, the carry says whether the unsigned
result fits, and the overflow whether the signed one does not
(`addWithCarry_overflow`, `subtractWithBorrow_overflow`).

Eight instructions calculate, in three ways (`Calculation`). Five of them take
the byte that their mode delivers, three a byte that they have just changed in
memory. However the byte and the carry come in, a step with one of them leaves
the registers and flags of the exact arithmetic, and the decimal flag changes
nothing but itself (`Computer.step_calculation`).

Key definitions: `FitsSigned`, `Calculation`, `Calculation.Holds`,
`Mode.delivered`, `Computer.flipDecimal`.
Key theorems: `addWithCarry_overflow`, `subtractWithBorrow_overflow`,
`Calculation.holds_settled`, `Opcode.execute_calculation`,
`Opcode.execute_flipDecimal`,
`Computer.step_calculation`.
-/
import Cpu6502.Proofs.Writes

namespace Cpu6502

/-! ### Exact sums and differences -/

/-- The number is the value of a signed byte. -/
def FitsSigned (n : Int) : Prop := -128 ≤ n ∧ n ≤ 127

instance (n : Int) : Decidable (FitsSigned n) := inferInstanceAs (Decidable (_ ∧ _))

theorem msb_eq_decide (v : UInt8) : v.toBitVec.msb = decide (128 ≤ v.toNat) :=
  v.toBitVec.msb_eq_decide

/-- The sign bit of a byte. -/
theorem Status.isSet_sign (v : UInt8) : isSet v 0x80 = v.toBitVec.msb :=
  forall_byte (P := fun v => isSet v 0x80 = v.toBitVec.msb) (by decide +kernel) v

theorem addWithCarry_value (a v : UInt8) (c : Bool) :
    (addWithCarry a v c).value.toNat = (a.toNat + v.toNat + c.toNat) % 256 := by
  have hvalue := (addWithCarry a v c).value.toNat_lt
  rw [← addWithCarry_toNat]
  omega

theorem addWithCarry_carry (a v : UInt8) (c : Bool) :
    (addWithCarry a v c).carry = true ↔ 256 ≤ a.toNat + v.toNat + c.toNat := by
  have hvalue := (addWithCarry a v c).value.toNat_lt
  have hcarry := (addWithCarry a v c).carry.toNat_le
  rw [← addWithCarry_toNat, ← Bool.toNat_eq_one]
  omega

/-- The signed sum overflows exactly when no signed byte has its value. -/
theorem addWithCarry_overflow (a v : UInt8) (c : Bool) : (addWithCarry a v c).overflow = true ↔
    ¬ FitsSigned (signed a.toNat + signed v.toNat + c.toNat) := by
  have ha := a.toNat_lt
  have hv := v.toNat_lt
  have hc := c.toNat_le
  have hvalue := addWithCarry_value a v c
  have hoverflow : (addWithCarry a v c).overflow = true ↔
      Status.isSet ((a ^^^ (addWithCarry a v c).value) &&& (v ^^^ (addWithCarry a v c).value))
        0x80 = true := by
    rw [Status.isSet, bne_iff_ne]
    exact decide_eq_true_iff
  rw [hoverflow, Status.isSet_sign]
  simp only [UInt8.toBitVec_and, UInt8.toBitVec_xor, BitVec.msb_and, BitVec.msb_xor, msb_eq_decide,
    hvalue, Bool.and_eq_true, bne_iff_ne, ne_eq, decide_eq_decide, FitsSigned, signed]
  split <;> split <;> omega

/-- The complement of a byte is what it lacks to the greatest one. -/
theorem toNat_complement (v : UInt8) : (~~~v).toNat = 255 - v.toNat := UInt8.toNat_not v

theorem subtractWithBorrow_value (a v : UInt8) (c : Bool) :
    ((subtractWithBorrow a v c).value.toNat : Int) =
      (a.toNat - v.toNat - (1 - c.toNat)) % 256 := by
  have hv := v.toNat_lt
  rw [subtractWithBorrow, addWithCarry_value, toNat_complement]
  omega

/-- The carry of a difference says that there is no borrow. -/
theorem subtractWithBorrow_carry (a v : UInt8) (c : Bool) :
    (subtractWithBorrow a v c).carry = true ↔
      0 ≤ (a.toNat - v.toNat - (1 - c.toNat) : Int) := by
  have hv := v.toNat_lt
  rw [subtractWithBorrow, addWithCarry_carry, toNat_complement]
  omega

theorem subtractWithBorrow_overflow (a v : UInt8) (c : Bool) :
    (subtractWithBorrow a v c).overflow = true ↔
      ¬ FitsSigned (signed a.toNat - signed v.toNat - (1 - c.toNat)) := by
  have hv := v.toNat_lt
  have hcomplement : signed (255 - v.toNat) = -1 - signed v.toNat := by
    unfold signed
    split <;> split <;> omega
  rw [subtractWithBorrow, addWithCarry_overflow, toNat_complement, hcomplement]
  simp only [FitsSigned]
  omega

/-! ### The three ways to calculate -/

/-- What is calculated: a sum or a difference that goes to A, or how a
register compares. -/
inductive Calculation
  | sum
  | difference
  | compareA
  | compareX
  | compareY

/-- What an instruction calculates. -/
def Mnemonic.calculation? : Mnemonic → Option Calculation
  | adc | rra => some .sum
  | sbc | isb => some .difference
  | cmp | dcp => some .compareA
  | cpx => some .compareX
  | cpy => some .compareY
  | _ => none

/-- `r` holds in A the sum of what was there before, a byte and a carry, with
its flags. -/
structure Registers.HoldsSum (r : Registers) (before : UInt8) (v c : Nat) : Prop where
  a : r.a.toNat = (before.toNat + v + c) % 256
  carry : r.isSet Flag.carry = true ↔ 256 ≤ before.toNat + v + c
  overflow : r.isSet Flag.overflow = true ↔
    ¬ FitsSigned (signed before.toNat + signed v + c)
  negative : r.isSet Flag.negative = true ↔ 128 ≤ r.a.toNat
  zero : r.isSet Flag.zero = true ↔ r.a.toNat = 0

/-- `r` holds in A what was there before less a byte, and less one without
carry, with its flags. -/
structure Registers.HoldsDifference (r : Registers) (before : UInt8) (v c : Nat) : Prop where
  a : (r.a.toNat : Int) = (before.toNat - v - (1 - c)) % 256
  carry : r.isSet Flag.carry = true ↔ 0 ≤ (before.toNat - v - (1 - c) : Int)
  overflow : r.isSet Flag.overflow = true ↔
    ¬ FitsSigned (signed before.toNat - signed v - (1 - c))
  negative : r.isSet Flag.negative = true ↔ 128 ≤ r.a.toNat
  zero : r.isSet Flag.zero = true ↔ r.a.toNat = 0

/-- `r` has the flags of comparing the byte `register` with `v`; A and V are
as before. -/
structure Registers.HoldsComparison (r : Registers) (register : UInt8) (v : Nat)
    (before : Registers) : Prop where
  a : r.a = before.a
  carry : r.isSet Flag.carry = true ↔ v ≤ register.toNat
  overflow : r.isSet Flag.overflow = before.isSet Flag.overflow
  negative : r.isSet Flag.negative = true ↔ 128 ≤ (register.toNat - v : Int) % 256
  zero : r.isSet Flag.zero = true ↔ register.toNat = v

/-- What no calculation changes. -/
structure Registers.Spares (r r' : Registers) : Prop where
  x : r'.x = r.x
  y : r'.y = r.y
  sp : r'.sp = r.sp
  irqDisable : r'.isSet Flag.irqDisable = r.isSet Flag.irqDisable
  decimal : r'.isSet Flag.decimal = r.isSet Flag.decimal
  brk : r'.isSet Flag.brk = r.isSet Flag.brk

namespace Calculation

/-- What the calculation with a byte and a carry makes of the registers. -/
def Holds (kind : Calculation) (r r' : Registers) (v c : Nat) : Prop :=
  match kind with
  | sum => r'.HoldsSum r.a v c
  | difference => r'.HoldsDifference r.a v c
  | compareA => r'.HoldsComparison r.a v r
  | compareX => r'.HoldsComparison r.x v r
  | compareY => r'.HoldsComparison r.y v r

/-- The calculation as work on the registers. -/
def effect : Calculation → UInt8 → Effect → Effect
  | sum => Effect.add
  | difference => Effect.subtract
  | compareA => Effect.compare (·.a)
  | compareX => Effect.compare (·.x)
  | compareY => Effect.compare (·.y)

/-- The flags that are derived from the calculation. -/
def flags : Calculation → UInt8
  | sum | difference => Flag.negative ||| Flag.overflow ||| Flag.zero ||| Flag.carry
  | _ => Flag.negative ||| Flag.zero ||| Flag.carry

end Calculation

/-! ### The flags of a calculation -/

namespace Status

/-- The status byte after a sum or a difference. -/
def afterSum (p : UInt8) (s : Sum) : UInt8 :=
  assign (assign (deriveResult p s.value) Flag.carry s.carry) Flag.overflow s.overflow

/-- The status byte after a comparison that gives this difference. -/
def afterComparison (p difference : UInt8) (carry : Bool) : UInt8 :=
  assign (deriveResult p difference) Flag.carry carry

theorem isSet_afterSum (p : UInt8) (s : Sum) :
    isSet (afterSum p s) Flag.carry = s.carry ∧ isSet (afterSum p s) Flag.overflow = s.overflow ∧
      isSet (afterSum p s) Flag.negative = isSet s.value 0x80 ∧
      isSet (afterSum p s) Flag.zero = (s.value == 0) := by
  simp (disch := decide) only [afterSum, isSet_assign_self, isSet_assign_of_disjoint,
    isSet_negative_deriveResult, isSet_zero_deriveResult, and_self]

theorem isSet_afterComparison (p difference : UInt8) (carry : Bool) :
    isSet (afterComparison p difference carry) Flag.carry = carry ∧
      isSet (afterComparison p difference carry) Flag.overflow = isSet p Flag.overflow ∧
      isSet (afterComparison p difference carry) Flag.negative = isSet difference 0x80 ∧
      isSet (afterComparison p difference carry) Flag.zero = (difference == 0) := by
  simp (disch := decide) only [afterComparison, isSet_assign_self, isSet_assign_of_disjoint,
    isSet_negative_deriveResult, isSet_zero_deriveResult, isSet_deriveResult_of_disjoint, and_self]

/-- The flags that a calculation spares. -/
theorem isSet_afterSum_spared (p : UInt8) (s : Sum) :
    ∀ bit ∈ [Flag.irqDisable, Flag.decimal, Flag.brk], isSet (afterSum p s) bit = isSet p bit := by
  simp (disch := decide) only [List.forall_mem_cons, afterSum, isSet_assign_of_disjoint,
    isSet_deriveResult_of_disjoint]
  simp

theorem isSet_afterComparison_spared (p difference : UInt8) (carry : Bool) :
    ∀ bit ∈ [Flag.irqDisable, Flag.decimal, Flag.brk],
      isSet (afterComparison p difference carry) bit = isSet p bit := by
  simp (disch := decide) only [List.forall_mem_cons, afterComparison, isSet_assign_of_disjoint,
    isSet_deriveResult_of_disjoint]
  simp

end Status

namespace Registers

/-- The registers once a sum or a difference is settled. -/
def afterSum (r : Registers) (s : Sum) : Registers :=
  { r with a := s.value, lastResult := s.value, p := Status.afterSum r.p s }

/-- The registers once a comparison is settled. -/
def afterComparison (r : Registers) (register v : UInt8) : Registers :=
  { r with
    lastResult := register - v
    p := Status.afterComparison r.p (register - v) (decide (v ≤ register)) }

theorem negative_iff {r : Registers} {v : UInt8}
    (h : Status.isSet r.p Flag.negative = Status.isSet v 0x80) :
    r.isSet Flag.negative = true ↔ 128 ≤ v.toNat := by
  rw [isSet, h, Status.isSet_sign, msb_eq_decide, decide_eq_true_iff]

theorem zero_iff {r : Registers} {v : UInt8} (h : Status.isSet r.p Flag.zero = (v == 0)) :
    r.isSet Flag.zero = true ↔ v.toNat = 0 := by
  rw [isSet, h, beq_iff_eq, ← UInt8.toNat_inj]
  rfl

theorem holdsSum_afterSum (r : Registers) (a v : UInt8) (c : Bool) :
    (r.afterSum (addWithCarry a v c)).HoldsSum a v.toNat c.toNat := by
  obtain ⟨hc, hv, hn, hz⟩ := Status.isSet_afterSum r.p (addWithCarry a v c)
  exact
    { a := addWithCarry_value a v c
      carry := (Bool.eq_iff_iff.mp hc).trans (addWithCarry_carry a v c)
      overflow := (Bool.eq_iff_iff.mp hv).trans (addWithCarry_overflow a v c)
      negative := negative_iff hn
      zero := zero_iff hz }

theorem holdsDifference_afterSum (r : Registers) (a v : UInt8) (c : Bool) :
    (r.afterSum (subtractWithBorrow a v c)).HoldsDifference a v.toNat c.toNat := by
  obtain ⟨hc, hv, hn, hz⟩ := Status.isSet_afterSum r.p (subtractWithBorrow a v c)
  exact
    { a := subtractWithBorrow_value a v c
      carry := (Bool.eq_iff_iff.mp hc).trans (subtractWithBorrow_carry a v c)
      overflow := (Bool.eq_iff_iff.mp hv).trans (subtractWithBorrow_overflow a v c)
      negative := negative_iff hn
      zero := zero_iff hz }

section
variable (r : Registers) (pc : Address) (last : UInt8)

/-- PC and the last result play no part in a comparison. -/
theorem holdsComparison_afterComparison (register v : UInt8) :
    (((r.setPc pc).setLastResult last).afterComparison register v).HoldsComparison register
      v.toNat r := by
  obtain ⟨hc, hv, hn, hz⟩ :=
    Status.isSet_afterComparison r.p (register - v) (decide (v ≤ register))
  have hregister := register.toNat_lt
  have hlt := v.toNat_lt
  have hdifference : (register - v).toNat = (256 - v.toNat + register.toNat) % 256 :=
    UInt8.toNat_sub ..
  generalize hr : ((r.setPc pc).setLastResult last).afterComparison register v = r'
  have hp : r'.p = Status.afterComparison r.p (register - v) (decide (v ≤ register)) := by
    rw [← hr]
    rfl
  rw [← hp] at hc hv hn hz
  exact
    { a := by rw [← hr]; rfl
      carry := (Bool.eq_iff_iff.mp hc).trans (by rw [decide_eq_true_iff, UInt8.le_iff_toNat_le])
      overflow := hv
      negative := (negative_iff hn).trans (by omega)
      zero := (zero_iff hz).trans (by omega) }

theorem spares_afterSum (s : Sum) :
    r.Spares (((r.setPc pc).setLastResult last).afterSum s) where
  x := rfl
  y := rfl
  sp := rfl
  irqDisable := Status.isSet_afterSum_spared r.p s _ (by simp)
  decimal := Status.isSet_afterSum_spared r.p s _ (by simp)
  brk := Status.isSet_afterSum_spared r.p s _ (by simp)

theorem spares_afterComparison (register v : UInt8) :
    r.Spares (((r.setPc pc).setLastResult last).afterComparison register v) where
  x := rfl
  y := rfl
  sp := rfl
  irqDisable := Status.isSet_afterComparison_spared r.p _ _ _ (by simp)
  decimal := Status.isSet_afterComparison_spared r.p _ _ _ (by simp)
  brk := Status.isSet_afterComparison_spared r.p _ _ _ (by simp)

end

end Registers

/-! ### Settling a calculation -/

namespace Calculation

/-- The registers once the calculation with a byte and a carry is settled. -/
def settled (kind : Calculation) (r : Registers) (v : UInt8) (carry : Bool) : Registers :=
  match kind with
  | sum => r.afterSum (addWithCarry r.a v carry)
  | difference => r.afterSum (subtractWithBorrow r.a v carry)
  | compareA => r.afterComparison r.a v
  | compareX => r.afterComparison r.x v
  | compareY => r.afterComparison r.y v

/-- An instruction calculates with a carry of its own, or else the one in P. -/
theorem settle_eq (kind : Calculation) (r : Registers) (v : UInt8) (carry : Option Bool) :
    (kind.effect v ⟨r, carry, none⟩).settle kind.flags =
      some (kind.settled r v (carry.getD (r.isSet Flag.carry))) := by
  cases kind <;> rfl

/-- What is settled is what the exact arithmetic says, wherever PC is and
whatever result was noted before. -/
theorem holds_settled (kind : Calculation) (r : Registers) (pc : Address) (last v : UInt8)
    (carry : Bool) :
    kind.Holds r (kind.settled ((r.setPc pc).setLastResult last) v carry) v.toNat carry.toNat ∧
      r.Spares (kind.settled ((r.setPc pc).setLastResult last) v carry) := by
  cases kind with
  | sum => exact ⟨Registers.holdsSum_afterSum _ _ v carry, r.spares_afterSum pc last _⟩
  | difference =>
    exact ⟨Registers.holdsDifference_afterSum _ _ v carry, r.spares_afterSum pc last _⟩
  | compareA | compareX | compareY =>
    exact ⟨r.holdsComparison_afterComparison pc last _ v, r.spares_afterComparison pc last _ v⟩

/-- Counting cycles is no part of a calculation. -/
theorem holds_addCycles (kind : Calculation) {r r' : Registers} {v c : Nat}
    (h : kind.Holds r r' v c) (n : Nat) : kind.Holds r (r'.addCycles n) v c := by
  cases kind <;> exact ⟨h.a, h.carry, h.overflow, h.negative, h.zero⟩

end Calculation

/-! ### Instructions that calculate -/

namespace Mnemonic

/-- The carry that goes into the calculation: the one in P, but RRA's is the
bit that its rotate shifts out of the byte `v`. -/
def carryUsed (carry : Bool) (v : Nat) : Mnemonic → Nat
  | rra => v % 2
  | _ => carry.toNat

/-- The number that goes into the calculation, where `v` is delivered: the
byte that takes its place, if it is replaced, else itself. -/
def numberUsed (carry : Bool) (v : Nat) (mnemonic : Mnemonic) : Nat :=
  (mnemonic.replaced? carry v).getD v

/-- How a calculation comes to its byte and its carry. -/
inductive Calculates (mnemonic : Mnemonic) (kind : Calculation) : Prop
  /-- It takes the delivered byte and the carry in P. -/
  | taken (ha : mnemonic.action = .take kind.effect)
      (hv : ∀ carry v, mnemonic.replaced? carry v = none)
      (hc : ∀ carry v, mnemonic.carryUsed carry v = carry.toNat)
  /-- It changes the delivered byte in memory first, and the carry of the
  change, if there is one, counts. -/
  | changed (change : Change) (ha : mnemonic.action = .modify change kind.effect)
      (hv : ∀ carry (v : UInt8),
        mnemonic.replaced? carry v.toNat = some (change carry v).value.toNat)
      (hc : ∀ carry (v : UInt8),
        mnemonic.carryUsed carry v.toNat = ((change carry v).carry.getD carry).toNat)

theorem toNat_shiftedOut (v : UInt8) : (v &&& 0x01 != 0).toNat = v.toNat % 2 :=
  forall_byte (P := fun v => (v &&& 0x01 != 0).toNat = v.toNat % 2) (by decide +kernel) v

theorem calculates {mnemonic : Mnemonic} {kind : Calculation}
    (h : mnemonic.calculation? = some kind) :
    mnemonic.Calculates kind ∧ mnemonic.autoFlags = kind.flags := by
  cases mnemonic <;> cases h
  case adc | sbc | cmp | cpx | cpy => exact ⟨.taken rfl (fun _ _ => rfl) fun _ _ => rfl, rfl⟩
  case rra =>
    refine ⟨.changed _ rfl (fun carry v => ?_) (fun _ v => (toNat_shiftedOut v).symm), rfl⟩
    exact congrArg some (Change.computes_rotateRight carry v).symm
  case dcp =>
    refine ⟨.changed _ rfl (fun carry v => ?_) (fun _ _ => rfl), rfl⟩
    exact congrArg some (Change.computes_decrement carry v).symm
  case isb =>
    refine ⟨.changed _ rfl (fun carry v => ?_) (fun _ _ => rfl), rfl⟩
    exact congrArg some (Change.computes_increment carry v).symm

end Mnemonic

/-- The byte that a mode delivers: the one after the opcode, or the one at the
effective address. -/
def Mode.delivered (mode : Mode) (m : Machine) : Option Nat :=
  if mode = .immediate then some (m.codeByte 1) else (mode.effective m).map m.bus.byteAt

theorem Mode.delivered_of_address {mode : Mode} {m : Machine} {a : Address}
    (h : (mode.resolve m).operand = .address a) :
    mode.delivered m = some (m.bus.read a).toNat := by
  have hmode : mode ≠ .immediate := by
    rintro rfl
    cases h
  rw [delivered, if_neg hmode, effective_of_address h, Option.map_some, m.bus.toNat_read rfl]

/-- An operand that is a byte was delivered, unless it was in the accumulator. -/
theorem Mode.delivered_of_byte? {mode : Mode} (hmode : mode ≠ .accumulator) {m past : Machine}
    (hbus : past.bus = m.bus) {v : UInt8}
    (h : (mode.resolve m).operand.byte? past = some v) : mode.delivered m = some v.toNat := by
  cases hoperand : (mode.resolve m).operand with
  | address a =>
    rw [hoperand] at h
    cases h
    rw [delivered_of_address hoperand, hbus]
  | immediate w =>
    rw [hoperand] at h
    cases h
    cases mode with
    | immediate =>
      cases hoperand
      exact congrArg some m.toNat_codeByte_one.symm
    | _ => cases hoperand
  | accumulator => exact absurd (accumulator_of_operand hoperand) hmode
  | implied | relative d =>
    rw [hoperand] at h
    cases h

namespace Opcode

/-- Nothing is calculated with a byte from the accumulator. -/
theorem mode_ne_accumulator {byte : UInt8} {op : Opcode} (hd : decode? byte = some op)
    {kind : Calculation} (hk : op.mnemonic.calculation? = some kind) : op.mode ≠ .accumulator := by
  have hop := forall_decode? (P := fun op => op.mnemonic.calculation?.isNone ||
    op.mode != .accumulator) (by decide +kernel) hd
  simpa [hk] using hop

/-- **What an instruction calculates.** -/
theorem execute_calculation {byte : UInt8} {op : Opcode} {m n : Machine} {cycles : Cycles}
    (hd : decode? byte = some op) {kind : Calculation}
    (hk : op.mnemonic.calculation? = some kind) (h : op.execute m = some (n, cycles)) :
    ∃ v, op.mode.delivered m = some v ∧
      kind.Holds m.regs n.regs (op.mnemonic.numberUsed (m.regs.isSet Flag.carry) v)
        (op.mnemonic.carryUsed (m.regs.isSet Flag.carry) v) ∧ m.regs.Spares n.regs ∧
      ∀ w, op.mnemonic.replaced? (m.regs.isSet Flag.carry) v = some w →
        w < 256 ∧ ∃ ea, op.mode.effective m = some ea ∧ m.bus.byteAt ea = v := by
  have hmode := mode_ne_accumulator hd hk
  obtain ⟨o, ho, hregs, -, -⟩ := execute_outcome h
  obtain ⟨hcalculates, hflags⟩ := Mnemonic.calculates hk
  rw [hflags] at hregs
  cases hcalculates with
  | taken haction hnumber hcarry =>
    rw [haction] at ho
    obtain ⟨v, hv, rfl⟩ := Option.map_eq_some_iff.mp ho
    have hsettled := Option.some_inj.mp ((kind.settle_eq _ _ _).symm.trans hregs)
    obtain ⟨hholds, hspares⟩ := kind.holds_settled m.regs (op.past m).regs.pc m.regs.lastResult v
      (m.regs.isSet Flag.carry)
    rw [← hsettled]
    refine ⟨v.toNat, Mode.delivered_of_byte? hmode rfl hv, ?_, hspares, fun w hw => ?_⟩
    · rw [Mnemonic.numberUsed, hnumber, hcarry]
      exact hholds
    · rw [hnumber] at hw
      cases hw
  | changed change haction hnumber hcarry =>
    rw [haction] at ho
    obtain ⟨a, hoperand⟩ := operand_of_modify hmode ho
    rw [hoperand] at ho
    cases ho
    have hsettled := Option.some_inj.mp ((kind.settle_eq _ _ _).symm.trans hregs)
    obtain ⟨hholds, hspares⟩ := kind.holds_settled m.regs (op.past m).regs.pc
      (change (m.regs.isSet Flag.carry) (m.bus.read a)).value
      (change (m.regs.isSet Flag.carry) (m.bus.read a)).value
      ((change (m.regs.isSet Flag.carry) (m.bus.read a)).carry.getD (m.regs.isSet Flag.carry))
    rw [← hsettled]
    refine ⟨_, Mode.delivered_of_address hoperand, ?_, hspares, fun w hw => ?_⟩
    · rw [Mnemonic.numberUsed, hnumber, hcarry]
      exact hholds
    · rw [hnumber] at hw
      cases hw
      exact ⟨UInt8.toNat_lt _, a.toNat, Mode.effective_of_address hoperand,
        (m.bus.toNat_read rfl).symm⟩

end Opcode

/-! ### The decimal flag -/

namespace Status

/-- Flipping bits outside the mask of an assignment may come before or after. -/
theorem assign_xor (p : UInt8) {mask bits : UInt8} (on : Bool) (h : mask &&& bits = 0)
    (hu : Flag.unused &&& bits = 0) :
    assign (p ^^^ bits) mask on = assign p mask on ^^^ bits := by
  have hbit (i : Nat) : (mask &&& bits).toBitVec.getLsbD i = false := by rw [h]; simp
  have hubit (i : Nat) : (Flag.unused &&& bits).toBitVec.getLsbD i = false := by rw [hu]; simp
  simp only [UInt8.toBitVec_and, BitVec.getLsbD_and] at hbit hubit
  apply UInt8.toBitVec_inj.1
  apply BitVec.eq_of_getLsbD_eq
  intro i hi
  specialize hbit i
  specialize hubit i
  cases on <;> simp [assign, set, clear, hi] <;> grind

theorem isSet_xor (p : UInt8) {mask bits : UInt8} (h : bits &&& mask = 0) :
    isSet (p ^^^ bits) mask = isSet p mask := by
  have hand : (p ^^^ bits) &&& mask = p &&& mask := by
    have hbit (i : Nat) : (bits &&& mask).toBitVec.getLsbD i = false := by rw [h]; simp
    simp only [UInt8.toBitVec_and, BitVec.getLsbD_and] at hbit
    apply UInt8.toBitVec_inj.1
    apply BitVec.eq_of_getLsbD_eq
    intro i hi
    specialize hbit i
    simp only [UInt8.toBitVec_and, UInt8.toBitVec_xor, BitVec.getLsbD_and, BitVec.getLsbD_xor]
    grind
  rw [isSet, hand, isSet]

theorem afterSum_xor_decimal (p : UInt8) (s : Sum) :
    afterSum (p ^^^ Flag.decimal) s = afterSum p s ^^^ Flag.decimal := by
  simp (disch := decide) only [afterSum, deriveResult, assign_xor]

theorem afterComparison_xor_decimal (p difference : UInt8) (carry : Bool) :
    afterComparison (p ^^^ Flag.decimal) difference carry =
      afterComparison p difference carry ^^^ Flag.decimal := by
  simp (disch := decide) only [afterComparison, deriveResult, assign_xor]

end Status

/-- The registers with the decimal flag the other way. -/
def Registers.flipDecimal (r : Registers) : Registers := { r with p := r.p ^^^ Flag.decimal }

/-- The machine with the decimal flag the other way. -/
def Machine.flipDecimal (m : Machine) : Machine := { m with regs := m.regs.flipDecimal }

/-- The computer with the decimal flag the other way. -/
def Computer.flipDecimal (c : Computer) : Computer :=
  { c with cpu := c.cpu.updateRegs Registers.flipDecimal }

namespace Registers

theorem isSet_flipDecimal (r : Registers) {mask : UInt8} (h : Flag.decimal &&& mask = 0) :
    r.flipDecimal.isSet mask = r.isSet mask :=
  Status.isSet_xor r.p h

theorem afterSum_flipDecimal (r : Registers) (s : Sum) :
    r.flipDecimal.afterSum s = (r.afterSum s).flipDecimal := by
  simp only [flipDecimal, afterSum, Status.afterSum_xor_decimal]

theorem afterComparison_flipDecimal (r : Registers) (register v : UInt8) :
    r.flipDecimal.afterComparison register v = (r.afterComparison register v).flipDecimal := by
  simp only [flipDecimal, afterComparison, Status.afterComparison_xor_decimal]

end Registers

/-- Where the decimal flag is flipped, nothing but the decimal flag of the
result flips. -/
theorem Calculation.settled_flipDecimal (kind : Calculation) (r : Registers) (v : UInt8)
    (carry : Bool) :
    kind.settled r.flipDecimal v carry = (kind.settled r v carry).flipDecimal := by
  cases kind with
  | sum | difference => exact r.afterSum_flipDecimal _
  | compareA | compareX | compareY => exact r.afterComparison_flipDecimal _ v

/-- So it is with the flags settled and the bus as the instruction leaves it. -/
theorem Calculation.settle_flipDecimal (kind : Calculation) (r : Registers) (v : UInt8)
    (carry : Option Bool) (bus : Bus) :
    (((kind.effect v ⟨r.flipDecimal, carry, none⟩).settle kind.flags).map fun regs =>
        ((⟨regs, bus⟩ : Machine), (0 : UInt8))) =
      (((kind.effect v ⟨r, carry, none⟩).settle kind.flags).map fun regs =>
        ((⟨regs, bus⟩ : Machine), (0 : UInt8))).map fun done => (done.1.flipDecimal, done.2) := by
  rw [kind.settle_eq, kind.settle_eq, r.isSet_flipDecimal (by decide), kind.settled_flipDecimal]
  rfl

theorem Mnemonic.execute_flipDecimal {mnemonic : Mnemonic} {kind : Calculation}
    (hk : mnemonic.calculation? = some kind) (operand : Operand) (m : Machine) :
    mnemonic.execute operand m.flipDecimal =
      (mnemonic.execute operand m).map fun done => (done.1.flipDecimal, done.2) := by
  obtain ⟨hcalculates, hflags⟩ := calculates hk
  have hcarry : m.flipDecimal.regs.isSet Flag.carry = m.regs.isSet Flag.carry :=
    m.regs.isSet_flipDecimal (by decide)
  rw [execute_eq, execute_eq, hflags]
  cases hcalculates with
  | taken ha _ _ =>
    have hbyte : operand.byte? m.flipDecimal = operand.byte? m := by cases operand <;> rfl
    rw [ha, Action.run, Action.run, hbyte]
    cases operand.byte? m with
    | none => rfl
    | some v => exact kind.settle_flipDecimal m.regs v none m.bus
  | changed change ha _ _ =>
    rw [ha, Action.run, Action.run]
    cases operand with
    | address a =>
      rw [Action.replace_address, Action.replace_address, hcarry]
      exact kind.settle_flipDecimal
        (m.regs.setLastResult (change (m.regs.isSet Flag.carry) (m.bus.read a)).value) _ _ _
    | accumulator =>
      rw [Action.replace_accumulator, Action.replace_accumulator, hcarry]
      exact kind.settle_flipDecimal
        (m.regs.setA (change (m.regs.isSet Flag.carry) m.regs.a).value) _ _ _
    | implied | immediate v | relative d => rfl

namespace Opcode

theorem execute_flipDecimal {op : Opcode} {kind : Calculation}
    (hk : op.mnemonic.calculation? = some kind) (m : Machine) :
    op.execute m.flipDecimal = (op.execute m).map fun done => (done.1.flipDecimal, done.2) := by
  have hresolve : op.mode.resolve m.flipDecimal = op.mode.resolve m := by cases op.mode <;> rfl
  have hpast : op.past m.flipDecimal = (op.past m).flipDecimal := rfl
  rw [execute_eq, execute_eq, hresolve, hpast, Mnemonic.execute_flipDecimal hk, Option.map_map,
    Option.map_map]
  rfl

end Opcode

theorem Machine.instruction_flipDecimal {m : Machine} {op : Opcode}
    (hop : Opcode.decode? (m.bus.read m.regs.pc) = some op) {kind : Calculation}
    (hk : op.mnemonic.calculation? = some kind) (undocumented : Bool) :
    m.flipDecimal.instruction undocumented =
      (m.instruction undocumented).map fun done => (done.1.flipDecimal, done.2) := by
  have hbyte : m.flipDecimal.bus.read m.flipDecimal.regs.pc = m.bus.read m.regs.pc := rfl
  simp only [instruction, hbyte]
  cases hallowed : Opcode.allowed? undocumented (m.bus.read m.regs.pc) with
  | none => rfl
  | some op' =>
    cases hop.symm.trans (Option.filter_eq_some_iff.mp hallowed).1
    rw [Option.bind_some, Option.bind_some, Opcode.execute_flipDecimal hk]
    cases op.execute m <;> rfl

/-! ### Steps -/

namespace Computer

/-- The decimal flag decides on nothing but itself in the work of an
instruction that calculates. -/
theorem work_flipDecimal {cpu : Processor} {m n : Machine} {cycles : Nat}
    (hi : cpu.lines.next (m.regs.isSet Flag.irqDisable) = none) {op : Opcode}
    (hop : Opcode.decode? (m.bus.read m.regs.pc) = some op) {kind : Calculation}
    (hk : op.mnemonic.calculation? = some kind) (hw : work cpu m = .ok (n, cycles)) :
    work (cpu.updateRegs Registers.flipDecimal) m.flipDecimal = .ok (n.flipDecimal, cycles) := by
  have hmasked : m.flipDecimal.regs.isSet Flag.irqDisable = m.regs.isSet Flag.irqDisable :=
    m.regs.isSet_flipDecimal (by decide)
  unfold work at hw ⊢
  simp only [hi] at hw
  simp only [Processor.updateRegs, hmasked, hi, Machine.instruction_flipDecimal hop hk]
  cases hx : m.instruction cpu.config.undocumentedOpcodes with
  | error reason =>
    rw [hx] at hw
    cases hw
  | ok done =>
    rw [hx] at hw
    cases hw
    rfl

section
variable {c c' : Computer} (hs : c.bus.AtRest)
  (hi : c.started.cpu.lines.next (c.started.cpu.regs.isSet Flag.irqDisable) = none)
  (h : c.step = (.ok true, c')) {op : Opcode}
  (hop : Opcode.decode? (c.found.bus.read c.found.regs.pc) = some op)
include hs hi h hop

/-- A byte that an instruction replaces in memory is there after the step. -/
theorem step_ok_replaced {ea v w : Nat} (he : op.mode.effective c.found = some ea)
    (hv : c.found.bus.byteAt ea = v)
    (hw : op.mnemonic.replaced? (c.found.regs.isSet Flag.carry) v = some w) (hlt : w < 256) :
    c'.bus.byteAt ea = w := by
  obtain ⟨haccepted, hread⟩ := step_ok_issued hs h
  have hwrites : c.issued = [⟨UInt16.ofNat ea, UInt8.ofNat w⟩] := by
    rw [step_ok_writes hs hi h hop, op.writes_of_not_isPush (Mnemonic.isPush_of_replaced? hw)]
    simp only [Opcode.stores, he, hv, Mnemonic.stored?_of_replaced? hw]
  have hwritable : (c.bus.locate (UInt16.ofNat ea)).readOnly = false := by
    simpa [hwrites, Bus.firstRejected] using haccepted
  rw [hwrites] at hread
  rw [Bus.byteAt, hread, Bus.writeAll, List.foldl_cons, List.foldl_nil, Bus.read_write,
    if_pos ⟨hwritable, rfl⟩, UInt8.toNat_ofNat_of_lt' hlt]

theorem step_flipDecimal {kind : Calculation} (hk : op.mnemonic.calculation? = some kind) :
    c.started.flipDecimal.step = (.ok true, c'.flipDecimal) := by
  cases stepped_of_eq h with
  | done m cycles hp hw hf =>
    have hopened : Opcode.decode? (c.started.opened.bus.read c.started.opened.regs.pc) = some op :=
      (congrArg Opcode.decode? (opened_read hs _)).trans hop
    have hwork := work_flipDecimal (m := c.started.opened) hi hopened hk hw
    have hh := started_isHalted hp
    have hphase := c.started_phase
    generalize c.started = d at hwork hh hphase
    have hstarted : d.flipDecimal.started = d.flipDecimal := started_of_phase hphase
    have hflip : work d.flipDecimal.started.cpu d.flipDecimal.started.opened =
        .ok (m.flipDecimal, cycles) := by
      rw [hstarted]
      exact hwork
    rw [step_of_work (c := d.flipDecimal) hh hflip hf, hstarted]
    rfl

/-- **What a step calculates.** A step that executes an instruction which adds,
subtracts or compares takes the byte that its mode delivers, or the one it
puts in its place, and leaves what the exact arithmetic says. A byte that is
replaced is in memory afterwards, and with the decimal flag the other way the
step does the same. -/
theorem step_calculation {kind : Calculation} (hk : op.mnemonic.calculation? = some kind) :
    ∃ v, op.mode.delivered c.found = some v ∧
      kind.Holds c.found.regs c'.cpu.regs
        (op.mnemonic.numberUsed (c.found.regs.isSet Flag.carry) v)
        (op.mnemonic.carryUsed (c.found.regs.isSet Flag.carry) v) ∧
      c.found.regs.Spares c'.cpu.regs ∧
      (∀ w, op.mnemonic.replaced? (c.found.regs.isSet Flag.carry) v = some w →
        ∃ ea, op.mode.effective c.found = some ea ∧ c'.bus.byteAt ea = w) ∧
      c.started.flipDecimal.step = (.ok true, c'.flipDecimal) := by
  obtain ⟨op', n, cycles, hop', he, hcpu, -⟩ := step_ok_execute hs hi h
  cases hop.symm.trans hop'
  obtain ⟨v, hv, hholds, hspares, hstored⟩ := Opcode.execute_calculation hop hk he
  have hregs : c'.cpu.regs = n.regs.addCycles cycles.total := by rw [hcpu]; rfl
  rw [hregs]
  refine ⟨v, hv, kind.holds_addCycles hholds _, ?_, fun w hw => ?_,
    step_flipDecimal hs hi h hop hk⟩
  · obtain ⟨hx, hy, hsp, hirq, hd, hb⟩ := hspares
    exact ⟨hx, hy, hsp, hirq, hd, hb⟩
  · obtain ⟨hlt, ea, hea, hbyte⟩ := hstored w hw
    exact ⟨ea, hea, step_ok_replaced hs hi h hop hea hbyte hw hlt⟩

end

/-- `RRA $02F0,X` on the byte `$FF` with carry clear and D set: the rotate
leaves `$7F` and shifts out the carry of the sum. -/
def rotateAndAdd : Computer where
  cpu := { Processor.powerOn {} with
    regs := { Registers.powerOn {} with a := 0x10, x := 0x10, pc := 0x0200, p := 0x28 }
    phase := .fetching }
  bus := ((Bus.withMapping .flat).load 0x0200 [0x7F, 0xF0, 0x02]).poke 0x0300 0xFF

theorem step_calculation_rra : ∃ c', rotateAndAdd.step = (.ok true, c') ∧
    c'.bus.byteAt 0x0300 = 0x7F ∧ c'.cpu.regs.a.toNat = 0x90 ∧
    c'.cpu.regs.isSet Flag.overflow = true ∧
    rotateAndAdd.started.flipDecimal.step = (.ok true, c'.flipDecimal) := by
  have hstep : rotateAndAdd.step = (.ok true, rotateAndAdd.step.2) := Prod.ext rfl rfl
  have hrra : Opcode.decode? (rotateAndAdd.found.bus.read rotateAndAdd.found.regs.pc) =
      some ⟨.rra, .absoluteX, 6, false⟩ := by decide +kernel
  have hadds : Mnemonic.rra.calculation? = some .sum := rfl
  obtain ⟨v, hv, hsum, -, hstored, hdecimal⟩ := step_calculation ⟨rfl, rfl⟩ rfl hstep hrra hadds
  have hdelivered : Mode.delivered .absoluteX rotateAndAdd.found = some 0xFF := by decide +kernel
  cases hv.symm.trans hdelivered
  obtain ⟨ea, hea, hbyte⟩ := hstored 0x7F (by decide +kernel)
  have heffective : Mode.effective .absoluteX rotateAndAdd.found = some 0x0300 := by decide +kernel
  cases hea.symm.trans heffective
  refine ⟨rotateAndAdd.step.2, hstep, hbyte, ?_, ?_, hdecimal⟩
  · exact hsum.a.trans (by decide +kernel)
  · exact hsum.overflow.mpr (by decide +kernel)

end Computer

end Cpu6502
