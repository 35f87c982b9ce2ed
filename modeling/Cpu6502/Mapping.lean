/-
# From logical addresses to physical slots

A mapping decides, for every address the processor puts on the bus, which of
the 65536 physical slots is meant and whether a program may write there.
Several addresses may share a slot, and a slot may be writable through one
address and read-only through another.

Two mappings are given: `Mapping.flat`, where every address is its own
writable slot, and the memory map of a console with an NROM cartridge:

  $0000-$1FFF  2 KiB of work memory, repeated four times
  $2000-$3FFF  eight registers, repeated
  $4000-$7FFF  plain writable memory
  $8000-$FFFF  program ROM, read-only; 16 KiB of it appear twice

Key definitions: `Location`, `Mapping`, `Mapping.flat`, `Nrom.toMapping`.
-/
import Cpu6502.Address

namespace Cpu6502

/-- Where an address leads: a physical slot, and whether it is protected. -/
structure Location where
  slot : UInt16
  readOnly : Bool
  deriving DecidableEq

namespace Location

/-- A slot that programs may write. -/
def writable (slot : UInt16) : Location := ⟨slot, false⟩

/-- A slot that programs may only read. -/
def rom (slot : UInt16) : Location := ⟨slot, true⟩

end Location

/-- A named translation of addresses. -/
structure Mapping where
  name : String
  map : Address → Location

/-- Every address is its own slot and writable. -/
def Mapping.flat : Mapping where
  name := "flat"
  map a := .writable a

/-- The memory map of an NROM cartridge. -/
structure Nrom where
  /-- One 16 KiB bank of program ROM, visible at both `$8000` and `$C000`. -/
  mirrored : Bool
  deriving DecidableEq

namespace Nrom

/-- Keeps the place within the 2 KiB of work memory. -/
def ramMask : UInt16 := 0x07FF

/-- The first of the eight registers. -/
def registerBase : UInt16 := 0x2000

/-- The first slot of the program ROM. -/
def prgBase : UInt16 := 0x8000

/-- The map for a program ROM of `size` bytes. -/
def ofSize (size : Nat) : Nrom := ⟨size ≤ 16384⟩

/-- Where an address leads. -/
def locate (n : Nrom) (a : Address) : Location :=
  if a < 0x2000 then .writable (a &&& ramMask)
  else if a < 0x4000 then .writable (registerBase ||| (a &&& 0x0007))
  else if a < 0x8000 then .writable a
  else if n.mirrored then .rom (prgBase ||| (a &&& 0x3FFF))
  else .rom a

/-- The memory map as a mapping of the bus. -/
def toMapping (n : Nrom) : Mapping where
  name := "nrom"
  map := n.locate

end Nrom
end Cpu6502
