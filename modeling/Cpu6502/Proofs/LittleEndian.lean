/-
# Numbers of several bytes

A list of bytes, the low one first, is a number below `256 ^ n`. Read as signed
it is the same number, or that less `256 ^ n` if the top bit is set. A signed
number of `n + 1` bytes is its low byte plus 256 times the signed number of the
others, so what a chain of byte operations does to the signed value is decided
in its last byte (`signedOf_cons`, `fitsSignedIn_cons`).

Key definitions: `littleEndian`, `signedOf`, `FitsSignedIn`.
Key theorems: `littleEndian_append`, `littleEndian_lt`, `signedOf_cons`,
`fitsSignedIn_cons`, `testBit_top`.
-/
import Cpu6502.Proofs.Calculation
import Mathlib.Data.Nat.Digits.Defs

namespace Cpu6502

/-- The number with these bytes, the low one first. -/
def littleEndian (bytes : List UInt8) : Nat := Nat.ofDigits 256 (bytes.map UInt8.toNat)

@[simp] theorem littleEndian_nil : littleEndian [] = 0 := rfl

theorem littleEndian_cons (b : UInt8) (bs : List UInt8) :
    littleEndian (b :: bs) = b.toNat + 256 * littleEndian bs := rfl

theorem littleEndian_append (bs bs' : List UInt8) :
    littleEndian (bs ++ bs') = littleEndian bs + 256 ^ bs.length * littleEndian bs' := by
  rw [littleEndian, List.map_append, Nat.ofDigits_append, List.length_map]
  rfl

theorem littleEndian_lt (bs : List UInt8) : littleEndian bs < 256 ^ bs.length := by
  have hlt := Nat.ofDigits_lt_base_pow_length (l := bs.map UInt8.toNat) (b := 256) (by decide)
    (by simpa using fun b _ => b.toNat_lt)
  rwa [List.length_map] at hlt

/-- The top bit of a number of `n` bytes has this weight. -/
theorem pow_eq_two_mul {n : Nat} (hn : 0 < n) : 256 ^ n = 2 * 2 ^ (8 * n - 1) := by
  rw [← Nat.pow_succ', show (256 : Nat) = 2 ^ 8 from rfl, ← Nat.pow_mul]
  congr 1
  omega

/-- It is set if the number is at least half the next one. -/
theorem testBit_top {n x : Nat} (hn : 0 < n) (hx : x < 256 ^ n) :
    x.testBit (8 * n - 1) = true ↔ 256 ^ n ≤ 2 * x := by
  rw [pow_eq_two_mul hn] at hx ⊢
  rw [Nat.testBit_eq_decide_div_mod_eq, decide_eq_true_iff]
  by_cases hge : 2 ^ (8 * n - 1) ≤ x
  · have hone : x / 2 ^ (8 * n - 1) = 1 := Nat.div_eq_of_lt_le (by omega) (by omega)
    rw [hone]
    omega
  · have hzero : x / 2 ^ (8 * n - 1) = 0 := Nat.div_eq_of_lt (by omega)
    rw [hzero]
    omega

/-! ### Signed numbers -/

/-- A number of `n` bytes read in two's complement. -/
def signedOf (n x : Nat) : Int := if 2 * x < 256 ^ n then x else x - 256 ^ n

/-- The number is the value of `n` bytes in two's complement. -/
def FitsSignedIn (n : Nat) (v : Int) : Prop := -256 ^ n ≤ 2 * v ∧ 2 * v < 256 ^ n

instance (n : Nat) (v : Int) : Decidable (FitsSignedIn n v) := inferInstanceAs (Decidable (_ ∧ _))

theorem signedOf_one (b : UInt8) : signedOf 1 b.toNat = signed b.toNat := by
  have hb := b.toNat_lt
  simp only [signedOf, signed, pow_one]
  split <;> split <;> omega

theorem fitsSignedIn_one (v : Int) : FitsSignedIn 1 v ↔ FitsSigned v := by
  simp only [FitsSignedIn, FitsSigned, pow_one]
  omega

section
variable {n : Nat} (hn : 0 < n)
include hn

/-- The sign is in the other bytes. -/
theorem signedOf_cons (b : UInt8) (x : Nat) :
    signedOf (n + 1) (b.toNat + 256 * x) = b.toNat + 256 * signedOf n x := by
  have hb := b.toNat_lt
  have hpow := pow_eq_two_mul hn
  have hint : (256 : Int) ^ n = 2 * (2 ^ (8 * n - 1) : Nat) := by exact_mod_cast hpow
  simp only [signedOf, pow_succ, hpow, hint]
  split <;> split <;> omega

/-- And so is whether a number fits. -/
theorem fitsSignedIn_cons (b : UInt8) (v : Int) :
    FitsSignedIn (n + 1) (b.toNat + 256 * v) ↔ FitsSignedIn n v := by
  have hb := b.toNat_lt
  have hint : (256 : Int) ^ n = 2 * (2 ^ (8 * n - 1) : Nat) := by
    exact_mod_cast pow_eq_two_mul hn
  simp only [FitsSignedIn, pow_succ, hint]
  omega

end

end Cpu6502
