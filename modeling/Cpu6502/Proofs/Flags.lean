/-
# The status byte, flag by flag

A status byte is what its eight bits say (`Status.ext`), and an assignment
changes the bits of its mask and no others, except that it may set the unused
bit (`Status.isSet_assign_self`, `Status.isSet_assign_of_disjoint`). From this
the status that an instruction settles is read off: for each set of flags
that instructions derive there is one lemma (`Effect.settle_result`,
`Effect.settle_carry`, `Effect.settle_overflow`).

Key definitions: `Flag.all`, `Registers.deriveResult`.
Key theorems: `forall_byte`, `Status.ext`, `Status.isSet_assign_of_disjoint`,
`Registers.isSet_unused_deriveResult`.
-/
import Cpu6502.Effect

namespace Cpu6502

/-- A property of all bytes, checked one by one. -/
theorem forall_byte {P : UInt8 → Prop} (h : ∀ i : Fin 256, P (UInt8.ofNat i.val)) (v : UInt8) :
    P v := by
  have hv := h ⟨v.toNat, v.toNat_lt⟩
  rwa [UInt8.ofNat_toNat] at hv

/-- The eight bits of the status byte. -/
def Flag.all : List UInt8 :=
  [carry, zero, irqDisable, decimal, brk, unused, overflow, negative]

theorem Flag.forall_mem_all {P : UInt8 → Prop} : (∀ bit ∈ all, P bit) ↔
    P carry ∧ P zero ∧ P irqDisable ∧ P decimal ∧ P brk ∧ P unused ∧ P overflow ∧ P negative := by
  simp [all]

namespace Status

/-! ### Assignments -/

theorem assign_and_of_disjoint (p : UInt8) {mask bits : UInt8} (on : Bool) (h : mask &&& bits = 0)
    (hu : Flag.unused &&& bits = 0) : assign p mask on &&& bits = p &&& bits := by
  have hbit (i : Nat) : (mask &&& bits).toBitVec.getLsbD i = false := by rw [h]; simp
  have hubit (i : Nat) : (Flag.unused &&& bits).toBitVec.getLsbD i = false := by rw [hu]; simp
  simp only [UInt8.toBitVec_and, BitVec.getLsbD_and] at hbit hubit
  apply UInt8.toBitVec_inj.1
  apply BitVec.eq_of_getLsbD_eq
  intro i hi
  specialize hbit i
  specialize hubit i
  cases on <;> simp [assign, set, clear, hi] <;> grind

theorem assign_and_self (p : UInt8) {mask : UInt8} (on : Bool) (hu : Flag.unused &&& mask = 0) :
    assign p mask on &&& mask = if on then mask else 0 := by
  have hubit (i : Nat) : (Flag.unused &&& mask).toBitVec.getLsbD i = false := by rw [hu]; simp
  simp only [UInt8.toBitVec_and, BitVec.getLsbD_and] at hubit
  apply UInt8.toBitVec_inj.1
  apply BitVec.eq_of_getLsbD_eq
  intro i hi
  specialize hubit i
  cases on <;> simp [assign, set, clear, hi] <;> grind

/-- An assignment leaves the flags outside its mask as they are. -/
theorem isSet_assign_of_disjoint (p : UInt8) {mask bits : UInt8} (on : Bool)
    (h : mask &&& bits = 0) (hu : Flag.unused &&& bits = 0) :
    isSet (assign p mask on) bits = isSet p bits := by
  simp only [isSet, assign_and_of_disjoint p on h hu]

/-- An assigned flag has the assigned value. -/
theorem isSet_assign_self (p : UInt8) {mask : UInt8} (on : Bool) (hm : mask ≠ 0)
    (hu : Flag.unused &&& mask = 0) : isSet (assign p mask on) mask = on := by
  simp only [isSet, assign_and_self p on hu]
  cases on <;> simp [hm]

theorem or_and_distrib (a b bits : UInt8) : (a ||| b) &&& bits = a &&& bits ||| b &&& bits := by
  apply UInt8.toBitVec_inj.1
  apply BitVec.eq_of_getLsbD_eq
  intro i hi
  simp [Bool.and_or_distrib_right]

theorem isSet_or (a b bits : UInt8) : isSet (a ||| b) bits = (isSet a bits || isSet b bits) := by
  rw [Bool.eq_iff_iff]
  simp only [isSet, or_and_distrib, bne_iff_ne, Bool.or_eq_true, ne_eq, UInt8.or_eq_zero_iff,
    Decidable.not_and_iff_not_or_not]

theorem isSet_and (p mask bits : UInt8) : isSet (p &&& mask) bits = isSet p (mask &&& bits) := by
  simp only [isSet, UInt8.and_assoc]

/-- Clearing a flag sets the unused bit, and no assignment clears it. -/
theorem isSet_unused_assign {p : UInt8} (mask : UInt8) {on : Bool}
    (h : on = false ∨ isSet p Flag.unused = true) :
    isSet (assign p mask on) Flag.unused = true := by
  cases on with
  | false =>
    simp only [assign, clear, Bool.false_eq_true, ↓reduceIte, isSet_or]
    exact Bool.or_true _
  | true => simp_all [assign, set, isSet_or]

/-! ### A status byte is its bits -/

/-- The byte with the bits that a test accepts. -/
def ofFlags (test : UInt8 → Bool) : UInt8 :=
  Flag.all.foldl (fun p bit => if test bit then p ||| bit else p) 0

theorem ofFlags_isSet (p : UInt8) : ofFlags (isSet p) = p :=
  forall_byte (P := fun p => ofFlags (isSet p) = p) (by decide +kernel) p

/-- Status bytes with the same bits are equal. -/
theorem ext {p q : UInt8} (h : ∀ bit ∈ Flag.all, isSet p bit = isSet q bit) : p = q := by
  have hfold : ofFlags (isSet p) = ofFlags (isSet q) := by
    simp only [ofFlags, Flag.all, List.forall_mem_cons] at h ⊢
    simp only [List.foldl_cons, List.foldl_nil, h]
  rw [← ofFlags_isSet p, hfold, ofFlags_isSet]

/-! ### N and Z -/

/-- N and Z derived from a result. -/
def deriveResult (p result : UInt8) : UInt8 :=
  assign (assign p Flag.negative (isSet result 0x80)) Flag.zero (result == 0)

theorem isSet_negative_deriveResult (p v : UInt8) :
    isSet (deriveResult p v) Flag.negative = isSet v 0x80 := by
  simp (disch := decide) only [deriveResult, isSet_assign_of_disjoint, isSet_assign_self]

theorem isSet_zero_deriveResult (p v : UInt8) : isSet (deriveResult p v) Flag.zero = (v == 0) := by
  simp (disch := decide) only [deriveResult, isSet_assign_self]

theorem isSet_deriveResult_of_disjoint (p v : UInt8) {bits : UInt8}
    (h : (Flag.negative ||| Flag.zero ||| Flag.unused) &&& bits = 0) :
    isSet (deriveResult p v) bits = isSet p bits := by
  simp only [or_and_distrib, UInt8.or_eq_zero_iff] at h
  obtain ⟨⟨hn, hz⟩, hu⟩ := h
  rw [deriveResult, isSet_assign_of_disjoint _ _ hz hu, isSet_assign_of_disjoint _ _ hn hu]

/-- A byte is not negative and zero at once, so one of the two flags is
cleared and the unused bit set. -/
theorem isSet_unused_deriveResult (p v : UInt8) : isSet (deriveResult p v) Flag.unused = true := by
  apply isSet_unused_assign
  by_cases hz : v = 0
  · exact .inr (isSet_unused_assign _ (.inl (by rw [hz]; rfl)))
  · exact .inl (by simpa using hz)

/-- Of two results the later one counts. -/
theorem deriveResult_deriveResult (p v w : UInt8) :
    deriveResult (deriveResult p v) w = deriveResult p w := by
  apply ext
  simp (disch := decide) only [Flag.all, List.forall_mem_cons, isSet_negative_deriveResult,
    isSet_zero_deriveResult, isSet_unused_deriveResult, isSet_deriveResult_of_disjoint]
  simp

/-- N and Z may be derived before or after the carry is assigned. -/
theorem deriveResult_assign_carry (p v : UInt8) (on : Bool) :
    deriveResult (assign p Flag.carry on) v = assign (deriveResult p v) Flag.carry on := by
  apply ext
  simp (disch := decide) only [Flag.all, List.forall_mem_cons, isSet_negative_deriveResult,
    isSet_zero_deriveResult, isSet_unused_deriveResult, isSet_deriveResult_of_disjoint,
    isSet_assign_self, isSet_assign_of_disjoint,
    isSet_unused_assign Flag.carry (.inr (isSet_unused_deriveResult p v))]
  simp

/-- Of two carries the later one counts. -/
theorem assign_carry_assign_carry (p v : UInt8) (first second : Bool) :
    assign (assign (deriveResult p v) Flag.carry first) Flag.carry second =
      assign (deriveResult p v) Flag.carry second := by
  have hu (on : Bool) : isSet (assign (deriveResult p v) Flag.carry on) Flag.unused = true :=
    isSet_unused_assign Flag.carry (.inr (isSet_unused_deriveResult p v))
  apply ext
  simp (disch := decide) only [Flag.all, List.forall_mem_cons, isSet_assign_self,
    isSet_assign_of_disjoint, hu, isSet_unused_assign Flag.carry (.inr (hu first))]
  simp

end Status

/-! ### Settling -/

namespace Effect

theorem storeFlag_eq {flags mask : UInt8} {produced : Option Bool} {r r' : Registers}
    (h : storeFlag flags mask produced r = some r') : ∃ p, r' = { r with p := p } := by
  unfold storeFlag at h
  split at h
  · obtain ⟨on, -, rfl⟩ := Option.map_eq_some_iff.mp h
    exact ⟨_, rfl⟩
  · cases h
    exact ⟨_, rfl⟩

theorem deriveResultFlags_eq (flags : UInt8) (r : Registers) :
    ∃ p, deriveResultFlags flags r = { r with p := p } := by
  unfold deriveResultFlags
  split <;> split <;> exact ⟨_, rfl⟩

/-- Settling writes the status byte and nothing else. -/
theorem settle_eq {flags : UInt8} {e : Effect} {r : Registers} (h : e.settle flags = some r) :
    ∃ p, r = { e.regs with p := p } := by
  obtain ⟨r1, h1, h2⟩ := Option.bind_eq_some_iff.mp h
  obtain ⟨p0, e0⟩ := deriveResultFlags_eq flags e.regs
  obtain ⟨p1, rfl⟩ := storeFlag_eq h1
  obtain ⟨p2, rfl⟩ := storeFlag_eq h2
  rw [e0]
  exact ⟨_, rfl⟩

theorem settle_result (e : Effect) :
    e.settle (Flag.negative ||| Flag.zero) =
      some { e.regs with p := Status.deriveResult e.regs.p e.regs.lastResult } := rfl

theorem settle_carry (r : Registers) (carry : Bool) (overflow : Option Bool) :
    (⟨r, some carry, overflow⟩ : Effect).settle (Flag.negative ||| Flag.zero ||| Flag.carry) =
      some { r with
        p := Status.assign (Status.deriveResult r.p r.lastResult) Flag.carry carry } := rfl

theorem settle_overflow (r : Registers) (carry overflow : Bool) :
    (⟨r, some carry, some overflow⟩ : Effect).settle
        (Flag.negative ||| Flag.overflow ||| Flag.zero ||| Flag.carry) =
      some { r with
        p := Status.assign (Status.assign (Status.deriveResult r.p r.lastResult) Flag.carry carry)
          Flag.overflow overflow } := rfl

end Effect
end Cpu6502
