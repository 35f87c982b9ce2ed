/-
# The status byte

P holds six flags and two bits of its own kind: the unused bit reads as one,
and the break bit means something only in copies of P on the stack. A mask
names any set of bits; the constants name one flag each.

  bit   7 6 5 4 3 2 1 0
  flag  N V - B D I Z C

Key definitions: `Flag.carry` and its fellows, `Flag.arithmetic`,
`Status.assign`, `Status.isSet`, `Status.restore`, `Status.pushed`.
-/

namespace Cpu6502
namespace Flag

def carry : UInt8 := 0x01
def zero : UInt8 := 0x02
def irqDisable : UInt8 := 0x04
def decimal : UInt8 := 0x08
def brk : UInt8 := 0x10
def unused : UInt8 := 0x20
def overflow : UInt8 := 0x40
def negative : UInt8 := 0x80

/-- The six flags an instruction can change. -/
def arithmetic : UInt8 := negative ||| overflow ||| decimal ||| irqDisable ||| zero ||| carry

end Flag

namespace Status

/-- Sets the bits of a mask. -/
def set (p mask : UInt8) : UInt8 := p ||| mask

/-- Clears the bits of a mask; the unused bit is set all the same. -/
def clear (p mask : UInt8) : UInt8 := p &&& ~~~mask ||| Flag.unused

/-- Gives the bits of a mask one value, except that the unused bit is never
cleared. -/
def assign (p mask : UInt8) (on : Bool) : UInt8 :=
  if on then set p mask else clear p mask

/-- Some bit of the mask is set. -/
def isSet (p mask : UInt8) : Bool := p &&& mask != 0

/-- P after a program loads `v` into it: the break bit stays as it was and
the unused bit is set. -/
def restore (p v : UInt8) : UInt8 :=
  v &&& ~~~(Flag.brk ||| Flag.unused) ||| p &&& Flag.brk ||| Flag.unused

/-- The copy of P that goes on the stack: the unused bit is set, and the
break bit tells a program's push from a hardware interrupt's. -/
def pushed (p : UInt8) (byProgram : Bool) : UInt8 :=
  if byProgram then p ||| Flag.unused ||| Flag.brk else (p ||| Flag.unused) &&& ~~~Flag.brk

end Status
end Cpu6502
