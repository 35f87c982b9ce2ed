/-
# Addresses

A 6502 address is a 16-bit word: the high byte is its page, the low byte its
place in the page. Indexing adds an unsigned byte to the whole word and costs
time when the page changes (`offset`); a branch adds a signed byte
(`offsetSigned`); the processor's own pointer arithmetic often stays within
the page and wraps there (`addLow`).

Key definitions: `Address.ofBytes`, `Address.offset`, `Address.offsetSigned`,
`Address.addLow`.
Key theorems: `Address.toNat_ofBytes`, `Address.ofBytes_low_high`.
-/

namespace Cpu6502

/-- A 16-bit address as the processor sees it. -/
abbrev Address := UInt16

namespace Address

/-- The place within the page. -/
def low (a : Address) : UInt8 := a.toUInt8

/-- The page. -/
def high (a : Address) : UInt8 := (a / 256).toUInt8

/-- The address with this low and high byte, in the order in which memory
holds them. -/
def ofBytes (low high : UInt8) : Address := high.toUInt16 * 256 + low.toUInt16

/-- Another place in the same page. -/
def withLow (a : Address) (byte : UInt8) : Address := ofBytes byte (high a)

/-- The same place in another page. -/
def withHigh (a : Address) (byte : UInt8) : Address := ofBytes (low a) byte

/-- The address `delta` further on, wrapping after the last one, and whether
it lies on another page. -/
def offset (a : Address) (delta : UInt8) : Address × Bool :=
  let target : Address := a + delta.toUInt16
  (target, high target != high a)

/-- A byte read as a two's complement number and widened to a word. -/
def signExtend (b : UInt8) : UInt16 :=
  if b < 0x80 then b.toUInt16 else b.toUInt16 + 0xFF00

/-- The address a signed byte away, and whether it lies on another page. -/
def offsetSigned (a : Address) (delta : UInt8) : Address × Bool :=
  let target : Address := a + signExtend delta
  (target, high target != high a)

/-- Adds to the low byte only: the sum wraps within the page. -/
def addLow (a : Address) (delta : UInt8) : Address := withLow a (low a + delta)

theorem toNat_low (a : Address) : (low a).toNat = a.toNat % 256 := by
  simp [low]

theorem toNat_high (a : Address) : (high a).toNat = a.toNat / 256 := by
  have := a.toNat_lt
  simp only [high, UInt16.toNat_toUInt8, UInt16.toNat_div, UInt16.reduceToNat]
  omega

theorem toNat_ofBytes (l h : UInt8) : (ofBytes l h).toNat = l.toNat + 256 * h.toNat := by
  have := l.toNat_lt
  have := h.toNat_lt
  simp only [ofBytes, UInt16.toNat_add, UInt16.toNat_mul, UInt8.toNat_toUInt16, UInt16.reduceToNat]
  omega

@[simp] theorem low_ofBytes (l h : UInt8) : low (ofBytes l h) = l := by
  have := l.toNat_lt
  apply UInt8.toNat_inj.1
  rw [toNat_low, toNat_ofBytes]
  omega

@[simp] theorem high_ofBytes (l h : UInt8) : high (ofBytes l h) = h := by
  have := l.toNat_lt
  apply UInt8.toNat_inj.1
  rw [toNat_high, toNat_ofBytes]
  omega

/-- An address is its two bytes. -/
@[simp] theorem ofBytes_low_high (a : Address) : ofBytes (low a) (high a) = a := by
  apply UInt16.toNat_inj.1
  rw [toNat_ofBytes, toNat_low, toNat_high]
  omega

/-! ### One place after another

Counted from a word the places go round at the end of memory, counted from a byte
at the end of a page. Fewer than a round has do not meet again. -/

theorem add_ofNat_succ (a : Address) (k : Nat) :
    a + UInt16.ofNat (k + 1) = a + 1 + UInt16.ofNat k := by
  rw [Nat.add_comm, UInt16.ofNat_add, UInt16.add_assoc]
  rfl

theorem byte_add_ofNat_succ (b : UInt8) (k : Nat) :
    b + UInt8.ofNat (k + 1) = b + 1 + UInt8.ofNat k := by
  rw [Nat.add_comm, UInt8.ofNat_add, UInt8.add_assoc]
  rfl

theorem byte_sub_ofNat_succ (b : UInt8) (k : Nat) :
    b - UInt8.ofNat (k + 1) = b - UInt8.ofNat k - 1 := by
  rw [UInt8.ofNat_add]
  grind

theorem add_ofNat_ne (a : Address) {j k : Nat} (hj : j < 65536) (hk : k < 65536) (h : j ≠ k) :
    a + UInt16.ofNat j ≠ a + UInt16.ofNat k := by
  intro heq
  have hnat := congrArg UInt16.toNat ((UInt16.add_right_inj a).mp heq)
  rw [UInt16.toNat_ofNat_of_lt' hj, UInt16.toNat_ofNat_of_lt' hk] at hnat
  exact h hnat

theorem byte_add_ofNat_ne (b : UInt8) {j k : Nat} (hj : j < 256) (hk : k < 256) (h : j ≠ k) :
    b + UInt8.ofNat j ≠ b + UInt8.ofNat k := by
  intro heq
  have hnat := congrArg UInt8.toNat ((UInt8.add_right_inj b).mp heq)
  rw [UInt8.toNat_ofNat_of_lt' hj, UInt8.toNat_ofNat_of_lt' hk] at hnat
  exact h hnat

end Address
end Cpu6502
