/-
# Arithmetic on bytes

Addition with carry, subtraction with borrow, shifts and rotates, each with
the carry it leaves. Arithmetic is binary always: the decimal flag plays no
part. A subtraction is the addition of the complement, so that its carry
means "no borrow".

Key definitions: `addWithCarry`, `subtractWithBorrow`, `Change`.
Key theorems: `addWithCarry_toNat`.
-/

namespace Cpu6502

/-- A sum of bytes: its value, the unsigned overflow and the signed one. -/
structure Sum where
  value : UInt8
  carry : Bool
  overflow : Bool
  deriving DecidableEq, Repr

/-- The sum of two bytes and a carry. The signed sum overflows when both
bytes have the sign that the value has not. -/
def addWithCarry (a v : UInt8) (carry : Bool) : Sum :=
  let sum := a.toNat + v.toNat + carry.toNat
  let value := UInt8.ofNat sum
  { value
    carry := decide (255 < sum)
    overflow := decide ((a ^^^ value) &&& (v ^^^ value) &&& 0x80 ≠ 0) }

/-- The difference of two bytes, less one when the carry is clear. -/
def subtractWithBorrow (a v : UInt8) (carry : Bool) : Sum := addWithCarry a (~~~v) carry

/-- The sum, its carry included, is exact. -/
theorem addWithCarry_toNat (a v : UInt8) (c : Bool) :
    (addWithCarry a v c).value.toNat + 256 * (addWithCarry a v c).carry.toNat =
      a.toNat + v.toNat + c.toNat := by
  have := a.toNat_lt
  have := v.toNat_lt
  have := c.toNat_le
  by_cases h : 255 < a.toNat + v.toNat + c.toNat <;> simp [addWithCarry, h] <;> omega

/-- A byte that replaces another, and the carry if the change leaves one. -/
structure Changed where
  value : UInt8
  carry : Option Bool := none
  deriving DecidableEq, Repr

/-- A change of a byte, given the carry that comes in. -/
abbrev Change := Bool → UInt8 → Changed

namespace Change

def shiftLeft : Change := fun _ v => ⟨v <<< 1, some (v &&& 0x80 != 0)⟩

def shiftRight : Change := fun _ v => ⟨v >>> 1, some (v &&& 0x01 != 0)⟩

def rotateLeft : Change := fun carry v => ⟨v <<< 1 ||| carry.toUInt8, some (v &&& 0x80 != 0)⟩

def rotateRight : Change := fun carry v =>
  ⟨v >>> 1 ||| carry.toUInt8 <<< 7, some (v &&& 0x01 != 0)⟩

def increment : Change := fun _ v => ⟨v + 1, none⟩

def decrement : Change := fun _ v => ⟨v - 1, none⟩

end Change
end Cpu6502
