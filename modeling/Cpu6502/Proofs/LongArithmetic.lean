/-
# Adding and subtracting numbers of several bytes

CLC, and then for each pair of bytes, the low ones first, LDA of the one and ADC
of the other: this adds two numbers of any length, and SEC with SBC subtracts
them. Each ADC or SBC is exact up to a carry of 256 (`Computer.Takes.combine`),
the steps up to the next one spare the carry, and so the bytes and the last
carry make up the exact sum or difference (`Computer.Combines.value`). The
signed overflow is that of the last pair (`Computer.Combines.overflow`).

A carry counts for one in a sum. In a difference it counts for nothing, and its
absence for minus one (`Combination.carried`); with this sums and differences
are one case.

Key definitions: `Combination`, `Computer.Takes`, `Computer.Moves`,
`Computer.Combines`.
Key theorems: `Computer.Takes.combine`, `Computer.Combines.value`,
`Computer.Combines.overflow`, `Computer.long_arithmetic`.
-/
import Cpu6502.Proofs.LittleEndian
import Cpu6502.Proofs.Trail
import Mathlib.Logic.Relation

namespace Cpu6502

/-! ### Sums and differences -/

/-- The two ways to combine numbers. -/
inductive Combination
  | addition
  | subtraction

namespace Combination

/-- The instruction that combines A with a byte. -/
def mnemonic : Combination → Mnemonic
  | addition => .adc
  | subtraction => .sbc

/-- The instruction that begins a chain. -/
def opening : Combination → Mnemonic
  | addition => .clc
  | subtraction => .sec

/-- The exact result. -/
def exact (x y : Int) : Combination → Int
  | addition => x + y
  | subtraction => x - y

/-- What the carry adds to the result. -/
def carried (carry : Bool) : Combination → Int
  | addition => carry.toNat
  | subtraction => carry.toNat - 1

/-- Low bytes and the rest combine apart. -/
theorem exact_cons (kind : Combination) (x y : Int) (xs ys : Int) :
    kind.exact (x + 256 * xs) (y + 256 * ys) = kind.exact x y + 256 * kind.exact xs ys := by
  cases kind <;> simp only [exact] <;> ring

/-- What one instruction does with the bytes `x` in A and `y`. -/
structure Digit (kind : Combination) (x y : UInt8) (carry : Bool) (r : Registers) : Prop where
  value : r.a.toNat + 256 * kind.carried (r.isSet Flag.carry) =
    kind.exact x.toNat y.toNat + kind.carried carry
  overflow : r.isSet Flag.overflow = true ↔
    ¬ FitsSigned (kind.exact (signed x.toNat) (signed y.toNat) + kind.carried carry)
  negative : r.isSet Flag.negative = true ↔ 128 ≤ r.a.toNat

section
variable {n total x y : Nat} {carry : Bool} (hlt : total < 256 ^ n)
include hlt

/-- A result with room for `n` bytes and the carry after it: together they are
the sum. -/
theorem total_of_addition
    (h : (total : Int) + 256 ^ n * addition.carried carry = addition.exact x y) :
    total = (x + y) % 256 ^ n ∧ (carry = true ↔ 256 ^ n ≤ x + y) := by
  have hexact : (total : Int) + 256 ^ n * carry.toNat = x + y := h
  have hsum : total + 256 ^ n * carry.toNat = x + y := by exact_mod_cast hexact
  rw [← hsum]
  constructor
  · rw [Nat.add_mul_mod_self_left, Nat.mod_eq_of_lt hlt]
  · cases carry <;> simp
    omega

/-- Or, with a missing carry for a borrow, the difference. -/
theorem total_of_subtraction
    (h : (total : Int) + 256 ^ n * subtraction.carried carry = subtraction.exact x y) :
    (total : Int) = (x - y) % 256 ^ n ∧ (carry = true ↔ y ≤ x) := by
  have hltInt : (total : Int) < 256 ^ n := by exact_mod_cast hlt
  have hdifference : (total : Int) + 256 ^ n * (carry.toNat - 1) = x - y := h
  constructor
  · rw [← hdifference, Int.add_mul_emod_self_left, Int.emod_eq_of_lt (by positivity) hltInt]
  · cases carry <;> simp at hdifference ⊢ <;> omega

end

end Combination

/-- A byte and a carry of 256 make up the value whose remainder and whose size they
tell. -/
theorem value_eq_of_carry {b : Nat} {v : Int} {carry : Bool} (hb : (b : Int) = v % 256)
    (hcarry : carry = true ↔ 256 ≤ v) (hv : 0 ≤ v) (hlt : v < 512) :
    b + 256 * (carry.toNat : Int) = v := by
  cases carry with
  | false =>
    have hsmall : v < 256 := by simpa using hcarry
    simp only [Bool.toNat_false]
    omega
  | true =>
    have hlarge : 256 ≤ v := hcarry.mp rfl
    simp only [Bool.toNat_true]
    omega

theorem Registers.HoldsSum.digit {r : Registers} {x y : UInt8} {carry : Bool}
    (h : r.HoldsSum x y.toNat carry.toNat) : Combination.addition.Digit x y carry r where
  value := by
    have hx := x.toNat_lt
    have hy := y.toNat_lt
    have hc := carry.toNat_le
    have hvalue := h.a
    exact value_eq_of_carry (v := x.toNat + y.toNat + carry.toNat) (by omega)
      (h.carry.trans (by omega)) (by omega) (by omega)
  overflow := h.overflow
  negative := h.negative

theorem Registers.HoldsDifference.digit {r : Registers} {x y : UInt8} {carry : Bool}
    (h : r.HoldsDifference x y.toNat carry.toNat) : Combination.subtraction.Digit x y carry r where
  value := by
    have hx := x.toNat_lt
    have hy := y.toNat_lt
    have hc := carry.toNat_le
    have hvalue := h.a
    -- the missing carry is a borrow of 256
    have hexact := value_eq_of_carry (b := r.a.toNat)
      (v := x.toNat - y.toNat - (1 - carry.toNat) + 256) (by omega) (h.carry.trans (by omega))
      (by omega) (by omega)
    simp only [Combination.carried, Combination.exact]
    omega
  overflow := by
    have hsame : signed x.toNat - signed y.toNat - (1 - carry.toNat) =
        signed x.toNat - signed y.toNat + (carry.toNat - 1) := by omega
    exact hsame ▸ h.overflow
  negative := h.negative

/-! ### The steps of a chain -/

namespace Computer

/-- The step executes an instruction with this mnemonic, whose mode delivers
this byte. -/
def Takes (c : Computer) (mnemonic : Mnemonic) (v : UInt8) (d : Computer) : Prop :=
  ∃ op, c.Performs op d ∧ op.mnemonic = mnemonic ∧ op.mode.delivered c.found = some v.toNat

/-- Steps that execute stores, or loads of X and Y. -/
def Moves : Computer → Computer → Prop :=
  Relation.ReflTransGen fun c d => ∃ mnemonic ∈ [.sta, .stx, .sty, .ldx, .ldy], c.Does mnemonic d

/-- The pairs of bytes are combined one after the other, each after moves and a
load of its first byte; the computers are those right after a pair is combined. -/
inductive Combines (kind : Combination) : List (UInt8 × UInt8) → List Computer → Computer → Prop
  | nil (c : Computer) : Combines kind [] [] c
  | cons {x y : UInt8} {pairs : List (UInt8 × UInt8)} {results : List Computer}
      {c d e f : Computer} (moves : c.Moves d) (load : d.Takes .lda x e)
      (combine : e.Takes kind.mnemonic y f) (rest : Combines kind pairs results f) :
      Combines kind ((x, y) :: pairs) (f :: results) c

theorem Does.spares_carry {c d : Computer} {mnemonic : Mnemonic} (h : c.Does mnemonic d)
    (hm : mnemonic ∈ [.lda, .sta, .stx, .sty, .ldx, .ldy]) :
    d.found.regs.isSet Flag.carry = c.found.regs.isSet Flag.carry := by
  obtain ⟨op, hop, rfl⟩ := h
  rw [hop.found]
  refine hop.flag (by decide) (by decide) ?_
  have haffected : ∀ mnemonic ∈ [Mnemonic.lda, .sta, .stx, .sty, .ldx, .ldy],
      Status.isSet (mnemonic.autoFlags ||| mnemonic.manualFlags) Flag.carry = false := by decide
  exact haffected _ hm

theorem Moves.carry {c d : Computer} (h : c.Moves d) :
    d.found.regs.isSet Flag.carry = c.found.regs.isSet Flag.carry := by
  induction h with
  | refl => rfl
  | tail _ hstep ih =>
    obtain ⟨mnemonic, hm, hdoes⟩ := hstep
    exact (hdoes.spares_carry (List.mem_cons_of_mem _ hm)).trans ih

end Computer

theorem Opcode.execute_lda {byte : UInt8} {op : Opcode} {m n : Machine} {cycles : Cycles}
    (hd : decode? byte = some op) (h : op.execute m = some (n, cycles))
    (hm : op.mnemonic = .lda) : op.mode.delivered m = some n.regs.a.toNat := by
  have hmode : op.mode ≠ .accumulator := mode_ne_accumulator_of_reads hd (by rw [hm]; rfl)
  obtain ⟨o, ho, hregs, -, -⟩ := execute_outcome h
  obtain ⟨p, hn⟩ := Effect.settle_eq hregs
  rw [hm] at ho
  obtain ⟨v, hv, rfl⟩ := Option.map_eq_some_iff.mp ho
  rw [hn, Mode.delivered_of_byte? hmode rfl hv]
  rfl

namespace Computer.Takes

variable {c d : Computer} {v : UInt8}

theorem does {mnemonic : Mnemonic} (h : c.Takes mnemonic v d) : c.Does mnemonic d := by
  obtain ⟨op, hop, hm, -⟩ := h
  exact ⟨op, hop, hm⟩

theorem found {mnemonic : Mnemonic} (h : c.Takes mnemonic v d) :
    d.found = ⟨d.cpu.regs, d.bus⟩ := by
  obtain ⟨op, hop, -, -⟩ := h
  exact hop.found

theorem load (h : c.Takes .lda v d) : d.found.regs.a = v := by
  obtain ⟨op, hop, hm, hv⟩ := h
  obtain ⟨n, cycles, he, hregs⟩ := hop.execute
  have hbyte := hv.symm.trans (Opcode.execute_lda hop.decoded he hm)
  rw [hop.found, hregs]
  exact UInt8.toNat_inj.mp (Option.some.inj hbyte).symm

/-- **One pair of bytes** is combined exactly, with the carry before and the
carry after. -/
theorem combine {kind : Combination} (h : c.Takes kind.mnemonic v d) :
    kind.Digit c.found.regs.a v (c.found.regs.isSet Flag.carry) d.cpu.regs := by
  obtain ⟨op, hop, hm, hv⟩ := h
  obtain ⟨n, cycles, he, hregs⟩ := hop.execute
  rw [hregs]
  cases kind with
  | addition =>
    have hsum : op.mnemonic.calculation? = some .sum := by rw [hm]; rfl
    obtain ⟨w, hw, hholds, -, -⟩ := Opcode.execute_calculation hop.decoded hsum he
    cases hv.symm.trans hw
    rw [hm] at hholds
    exact (Calculation.sum.holds_addCycles hholds cycles.total).digit
  | subtraction =>
    have hdifference : op.mnemonic.calculation? = some .difference := by rw [hm]; rfl
    obtain ⟨w, hw, hholds, -, -⟩ := Opcode.execute_calculation hop.decoded hdifference he
    cases hv.symm.trans hw
    rw [hm] at hholds
    exact (Calculation.difference.holds_addCycles hholds cycles.total).digit

end Computer.Takes

/-! ### Chains -/

namespace Computer.Combines

variable {kind : Combination} {pairs : List (UInt8 × UInt8)} {results : List Computer}
  {c : Computer}

theorem length_eq (h : Combines kind pairs results c) : results.length = pairs.length := by
  induction h with
  | nil c => rfl
  | cons moves load combine rest ih => rw [List.length_cons, List.length_cons, ih]

theorem found (h : Combines kind pairs results c) :
    ∀ d ∈ results, d.found = ⟨d.cpu.regs, d.bus⟩ := by
  induction h with
  | nil c => exact List.forall_mem_nil _
  | cons moves load combine rest ih => exact List.forall_mem_cons.mpr ⟨combine.found, ih⟩

/-- The digit that the first combination of a chain makes. -/
theorem digit {x y : UInt8} {d e f : Computer} (moves : c.Moves d) (load : d.Takes .lda x e)
    (combine : e.Takes kind.mnemonic y f) :
    kind.Digit x y (c.found.regs.isSet Flag.carry) f.cpu.regs := by
  have hcarry := load.does.spares_carry List.mem_cons_self
  have hdigit := combine.combine
  rwa [load.load, hcarry, moves.carry] at hdigit

/-- **The bytes in A and the last carry make up the exact result.** -/
theorem value (h : Combines kind pairs results c) :
    (littleEndian (results.map (·.cpu.regs.a)) : Int) +
        256 ^ pairs.length * kind.carried ((results.getLastD c).found.regs.isSet Flag.carry) =
      kind.exact (littleEndian (pairs.map Prod.fst)) (littleEndian (pairs.map Prod.snd)) +
        kind.carried (c.found.regs.isSet Flag.carry) := by
  induction h with
  | nil c => cases kind <;> simp [Combination.exact]
  | @cons x y pairs results c d e f moves load combine rest ih =>
    have hdigit := (digit moves load combine).value
    have hfound : f.found.regs = f.cpu.regs := by rw [combine.found]
    rw [hfound] at ih
    simp only [List.map_cons, littleEndian_cons, List.length_cons, List.getLastD_cons,
      Nat.cast_add, Nat.cast_mul, Nat.cast_ofNat, kind.exact_cons, pow_succ]
    calc _ = (f.cpu.regs.a.toNat : Int) + 256 * (littleEndian (results.map (·.cpu.regs.a)) +
          256 ^ pairs.length *
            kind.carried ((results.getLastD f).found.regs.isSet Flag.carry)) := by ring
      _ = f.cpu.regs.a.toNat + 256 * kind.carried (f.cpu.regs.isSet Flag.carry) +
          256 * kind.exact (littleEndian (pairs.map Prod.fst))
            (littleEndian (pairs.map Prod.snd)) := by rw [ih]; ring
      _ = _ := by rw [hdigit]; ring

/-- The last pair decides on V, and on N, which is the top bit of the result. -/
theorem overflow (h : Combines kind pairs results c) (hne : pairs ≠ []) :
    ((results.getLastD c).cpu.regs.isSet Flag.overflow = true ↔
      ¬ FitsSignedIn pairs.length
        (kind.exact (signedOf pairs.length (littleEndian (pairs.map Prod.fst)))
            (signedOf pairs.length (littleEndian (pairs.map Prod.snd))) +
          kind.carried (c.found.regs.isSet Flag.carry))) ∧
    ((results.getLastD c).cpu.regs.isSet Flag.negative = true ↔
      256 ^ pairs.length ≤ 2 * littleEndian (results.map (·.cpu.regs.a))) := by
  induction h with
  | nil c => exact absurd rfl hne
  | @cons x y pairs results c d e f moves load combine rest ih =>
    have hdigit := digit moves load combine
    rw [List.getLastD_cons, List.map_cons, List.map_cons, List.map_cons, littleEndian_cons,
      littleEndian_cons, littleEndian_cons, List.length_cons]
    cases pairs with
    | nil =>
      cases rest
      have hoverflow := hdigit.overflow
      rw [← signedOf_one, ← signedOf_one, ← fitsSignedIn_one] at hoverflow
      refine ⟨hoverflow, hdigit.negative.trans ?_⟩
      simp
      omega
    | cons pair pairs =>
      obtain ⟨hoverflow, hnegative⟩ := ih (by simp)
      have hfound : f.found.regs = f.cpu.regs := by rw [combine.found]
      have hlength : 0 < (pair :: pairs).length := by simp
      have hvalue := hdigit.value
      constructor
      · have hsplit (v : Int) : kind.exact x.toNat y.toNat + 256 * v +
            kind.carried (c.found.regs.isSet Flag.carry) = f.cpu.regs.a.toNat +
              256 * (v + kind.carried (f.cpu.regs.isSet Flag.carry)) := by linarith
        rw [hoverflow, hfound, signedOf_cons hlength, signedOf_cons hlength, kind.exact_cons,
          hsplit, fitsSignedIn_cons hlength]
      · have ha := f.cpu.regs.a.toNat_lt
        rw [hnegative, Nat.pow_succ, pow_eq_two_mul hlength]
        omega

end Computer.Combines

namespace Computer

/-- CLC and SEC make the carry count for nothing. -/
theorem Does.carried_opening {kind : Combination} {c d : Computer} (h : c.Does kind.opening d) :
    kind.carried (d.found.regs.isSet Flag.carry) = 0 := by
  obtain ⟨op, hop, hm⟩ := h
  obtain ⟨n, cycles, he, hregs⟩ := hop.execute
  obtain ⟨o, ho, hsettled, -, -⟩ := Opcode.execute_outcome he
  have hset (on : Bool) (hn : (op.past c.found).regs.assign Flag.carry on = n.regs) :
      (n.regs.addCycles cycles.total).isSet Flag.carry = on := by
    rw [← hn]
    exact Status.isSet_assign_self _ on (by decide) (by decide)
  rw [hop.found, hregs]
  rw [hm] at ho hsettled
  cases kind with
  | addition =>
    cases ho
    rw [hset false (Option.some.inj hsettled)]
    rfl
  | subtraction =>
    cases ho
    rw [hset true (Option.some.inj hsettled)]
    rfl

section
variable {c₀ c last : Computer} {pairs : List (UInt8 × UInt8)} {results : List Computer}

theorem Combines.outcome {kind : Combination} (hopen : c₀.Does kind.opening c)
    (hchain : Combines kind pairs results c) (hlast : results.getLast? = some last) :
    (littleEndian (results.map (·.cpu.regs.a)) : Int) +
        256 ^ pairs.length * kind.carried (last.cpu.regs.isSet Flag.carry) =
      kind.exact (littleEndian (pairs.map Prod.fst)) (littleEndian (pairs.map Prod.snd)) ∧
    (last.cpu.regs.isSet Flag.overflow = true ↔ ¬ FitsSignedIn pairs.length
      (kind.exact (signedOf pairs.length (littleEndian (pairs.map Prod.fst)))
        (signedOf pairs.length (littleEndian (pairs.map Prod.snd))))) ∧
    last.cpu.regs.isSet Flag.negative =
      (littleEndian (results.map (·.cpu.regs.a))).testBit (8 * pairs.length - 1) := by
  have hgetLast : results.getLastD c = last := by
    rw [List.getLastD_eq_getLast?, hlast]
    rfl
  have hfound := hchain.found last (List.mem_of_getLast? hlast)
  have hcarried := hopen.carried_opening
  have hvalue := hchain.value
  rw [hgetLast, hfound, hcarried, add_zero] at hvalue
  have hne : pairs ≠ [] := by
    rintro rfl
    cases hchain
    cases hlast
  obtain ⟨hoverflow, hnegative⟩ := hchain.overflow hne
  rw [hgetLast, hcarried, add_zero] at hoverflow
  rw [hgetLast] at hnegative
  have hlength := List.length_pos_iff.mpr hne
  have hlt := littleEndian_lt (results.map (·.cpu.regs.a))
  rw [List.length_map, hchain.length_eq] at hlt
  exact ⟨hvalue, hoverflow,
    Bool.eq_iff_iff.mpr (hnegative.trans (testBit_top hlength hlt).symm)⟩

/-- **Numbers of any length are added and subtracted exactly.** Let the bytes of
two numbers be given in pairs, the low ones first. After CLC, loading the one
byte and adding the other, pair after pair, leaves in A the bytes of the sum;
after the last pair the carry says whether the sum has no room, V whether the
signed sum has none, and N is the top bit. After SEC it is so with the
difference, and the carry says that it is not negative. Loads of X and Y and
stores may come in between, and the decimal flag plays no part. -/
theorem long_arithmetic (hlast : results.getLast? = some last) {n X Y : Nat}
    (hn : pairs.length = n) (hX : littleEndian (pairs.map Prod.fst) = X)
    (hY : littleEndian (pairs.map Prod.snd) = Y) :
    (c₀.Does .clc c → Combines .addition pairs results c →
      results.length = n ∧
      littleEndian (results.map (·.cpu.regs.a)) = (X + Y) % 256 ^ n ∧
      (last.cpu.regs.isSet Flag.carry = true ↔ 256 ^ n ≤ X + Y) ∧
      (last.cpu.regs.isSet Flag.overflow = true ↔
        ¬ FitsSignedIn n (signedOf n X + signedOf n Y)) ∧
      last.cpu.regs.isSet Flag.negative = ((X + Y) % 256 ^ n).testBit (8 * n - 1)) ∧
    (c₀.Does .sec c → Combines .subtraction pairs results c →
      results.length = n ∧
      (littleEndian (results.map (·.cpu.regs.a)) : Int) = (X - Y) % 256 ^ n ∧
      (last.cpu.regs.isSet Flag.carry = true ↔ Y ≤ X) ∧
      (last.cpu.regs.isSet Flag.overflow = true ↔
        ¬ FitsSignedIn n (signedOf n X - signedOf n Y)) ∧
      last.cpu.regs.isSet Flag.negative =
        ((X - Y : Int) % 256 ^ n).toNat.testBit (8 * n - 1)) := by
  have hsmall {kind : Combination} (hchain : Combines kind pairs results c) :
      littleEndian (results.map (·.cpu.regs.a)) < 256 ^ n := by
    have hlt := littleEndian_lt (results.map (·.cpu.regs.a))
    rwa [List.length_map, hchain.length_eq, hn] at hlt
  constructor
  · intro hopen hchain
    obtain ⟨hvalue, hoverflow, hnegative⟩ := hchain.outcome hopen hlast
    rw [hn, hX, hY] at hvalue hoverflow
    rw [hn] at hnegative
    obtain ⟨htotal, hcarry⟩ := Combination.total_of_addition (hsmall hchain) hvalue
    rw [htotal] at hnegative
    exact ⟨hchain.length_eq.trans hn, htotal, hcarry, hoverflow, hnegative⟩
  · intro hopen hchain
    obtain ⟨hvalue, hoverflow, hnegative⟩ := hchain.outcome hopen hlast
    rw [hn, hX, hY] at hvalue hoverflow
    rw [hn] at hnegative
    obtain ⟨htotal, hcarry⟩ := Combination.total_of_subtraction (hsmall hchain) hvalue
    rw [← Int.toNat_natCast (littleEndian _), htotal] at hnegative
    exact ⟨hchain.length_eq.trans hn, htotal, hcarry, hoverflow, hnegative⟩

end

/-- In decimal mode: `$7FF0 + $0020`, and then `$0010 - $8020`. -/
def chainsInDecimal : Computer where
  cpu := { Processor.powerOn {} with
    regs := { Registers.powerOn {} with a := 0x12, pc := 0x0200, p := 0x2D }
    phase := .fetching }
  bus := ((Bus.withMapping .flat).load 0x0200
    [0x18, 0xA9, 0xF0, 0x65, 0x10, 0x85, 0x20, 0xA2, 0x01, 0xA9, 0x7F, 0x69, 0x00,
      0x38, 0xA9, 0x10, 0xE9, 0x20, 0x84, 0x21, 0xA5, 0x30, 0xE9, 0x80]).poke 0x0010 0x20

/-- The same computer some steps later. -/
def chainsAt : Nat → Computer
  | 0 => chainsInDecimal
  | k + 1 => (chainsAt k).step.2

theorem chainsAt_addition : (chainsAt 0).Does .clc (chainsAt 1) ∧
    Combines .addition [(0xF0, 0x20), (0x7F, 0x00)] [chainsAt 3, chainsAt 7] (chainsAt 1) := by
  refine ⟨⟨⟨.clc, .implied, 2, true⟩, .of_step rfl ⟨rfl, rfl⟩ rfl (by decide +kernel), rfl⟩, ?_⟩
  have hmoves : Moves (chainsAt 3) (chainsAt 5) :=
    .tail (.tail .refl ⟨.sta, by decide, ⟨.sta, .zeroPage, 3, true⟩,
      .of_step rfl ⟨rfl, rfl⟩ rfl (by decide +kernel), rfl⟩)
      ⟨.ldx, by decide, ⟨.ldx, .immediate, 2, true⟩,
        .of_step rfl ⟨rfl, rfl⟩ rfl (by decide +kernel), rfl⟩
  exact .cons .refl
    ⟨⟨.lda, .immediate, 2, true⟩, .of_step rfl ⟨rfl, rfl⟩ rfl (by decide +kernel), rfl,
      by decide +kernel⟩
    ⟨⟨.adc, .zeroPage, 3, true⟩, .of_step rfl ⟨rfl, rfl⟩ rfl (by decide +kernel), rfl,
      by decide +kernel⟩
    (.cons hmoves
      ⟨⟨.lda, .immediate, 2, true⟩, .of_step rfl ⟨rfl, rfl⟩ rfl (by decide +kernel), rfl,
        by decide +kernel⟩
      ⟨⟨.adc, .immediate, 2, true⟩, .of_step rfl ⟨rfl, rfl⟩ rfl (by decide +kernel), rfl,
        by decide +kernel⟩
      (.nil _))

theorem chainsAt_subtraction : (chainsAt 7).Does .sec (chainsAt 8) ∧
    Combines .subtraction [(0x10, 0x20), (0x00, 0x80)] [chainsAt 10, chainsAt 13] (chainsAt 8) := by
  refine ⟨⟨⟨.sec, .implied, 2, true⟩, .of_step rfl ⟨rfl, rfl⟩ rfl (by decide +kernel), rfl⟩, ?_⟩
  exact .cons .refl
    ⟨⟨.lda, .immediate, 2, true⟩, .of_step rfl ⟨rfl, rfl⟩ rfl (by decide +kernel), rfl,
      by decide +kernel⟩
    ⟨⟨.sbc, .immediate, 2, true⟩, .of_step rfl ⟨rfl, rfl⟩ rfl (by decide +kernel), rfl,
      by decide +kernel⟩
    (.cons (.tail .refl ⟨.sty, by decide, ⟨.sty, .zeroPage, 3, true⟩,
        .of_step rfl ⟨rfl, rfl⟩ rfl (by decide +kernel), rfl⟩)
      ⟨⟨.lda, .zeroPage, 3, true⟩, .of_step rfl ⟨rfl, rfl⟩ rfl (by decide +kernel), rfl,
        by decide +kernel⟩
      ⟨⟨.sbc, .immediate, 2, true⟩, .of_step rfl ⟨rfl, rfl⟩ rfl (by decide +kernel), rfl,
        by decide +kernel⟩
      (.nil _))

theorem long_arithmetic_decimal :
    littleEndian ([chainsAt 3, chainsAt 7].map (·.cpu.regs.a)) = 0x8010 ∧
    (chainsAt 7).cpu.regs.isSet Flag.carry = false ∧
    (chainsAt 7).cpu.regs.isSet Flag.overflow = true ∧
    (littleEndian ([chainsAt 10, chainsAt 13].map (·.cpu.regs.a)) : Int) = 0x7FF0 ∧
    (chainsAt 13).cpu.regs.isSet Flag.carry = false := by
  obtain ⟨hclc, hadds⟩ := chainsAt_addition
  obtain ⟨hsec, hsubtracts⟩ := chainsAt_subtraction
  obtain ⟨-, hsum, hcarry, hoverflow, -⟩ := (long_arithmetic rfl rfl rfl rfl).1 hclc hadds
  obtain ⟨-, hdifference, hborrow, -, -⟩ :=
    (long_arithmetic rfl rfl rfl rfl).2 hsec hsubtracts
  refine ⟨hsum.trans (by decide), ?_, hoverflow.mpr (by decide), hdifference.trans (by decide), ?_⟩
  · exact Bool.eq_false_iff.mpr fun h => absurd (hcarry.mp h) (by decide)
  · exact Bool.eq_false_iff.mpr fun h => absurd (hborrow.mp h) (by decide)

end Computer
end Cpu6502
