/-
# Hexadecimal text

Listings and messages write bytes as two digits and words as four, in upper
case. `padRight` fills a column up to its width and leaves longer text alone.

Key definitions: `Hex.byte`, `Hex.word`, `padRight`.
Key theorems: `Hex.length_byte`, `Hex.length_word`.
-/
import Cpu6502.Address

namespace Cpu6502
namespace Hex

/-- The digit for a value below 16. -/
def digit (n : Nat) : Char :=
  if n < 10 then Char.ofNat (48 + n) else Char.ofNat (55 + n)

/-- The two digits of a byte. -/
def byteDigits (b : UInt8) : List Char := [digit (b.toNat / 16), digit (b.toNat % 16)]

/-- A byte as two digits. -/
def byte (b : UInt8) : String := String.ofList (byteDigits b)

/-- A word as four digits, high byte first. -/
def word (a : Address) : String := byte (Address.high a) ++ byte (Address.low a)

@[simp] theorem toList_byte (b : UInt8) : (byte b).toList = byteDigits b := by
  simp [byte]

@[simp] theorem toList_word (a : Address) :
    (word a).toList = byteDigits (Address.high a) ++ byteDigits (Address.low a) := by
  simp [word]

theorem length_byte (b : UInt8) : (byte b).length = 2 := by
  simp [← String.length_toList, byteDigits]

theorem length_word (a : Address) : (word a).length = 4 := by
  simp [← String.length_toList, byteDigits]

end Hex

/-- The address as assemblers write it. -/
def Address.text (a : Address) : String := "$" ++ Hex.word a

/-- The text, followed by blanks up to `width` characters. -/
def padRight (width : Nat) (text : String) : String :=
  text ++ String.ofList (List.replicate (width - text.length) ' ')

end Cpu6502
