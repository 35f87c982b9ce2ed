/-
# Effective addresses

How each addressing mode finds its operand from the bytes after the opcode,
the index registers and, for the indirect modes, a pointer in memory.

Pointers wrap in three places: a zero-page pointer takes its high byte from
the next place in page zero, `JMP ($nnnn)` takes it from the next place in
the pointer's own page, and indexing in page zero stays in page zero.

PC moves on with every byte that is taken (`Mode.take`). That makes as many
bytes as the mode is long, the opcode included, so afterwards PC is at the next
instruction (`Mode.take_pastOpcode`).

Key definitions: `Bus.zeroPageWord`, `Bus.samePageWord`, `Mode.encoding`,
`Mode.take`, `Mode.resolve`.
Key theorems: `Mode.take_pastOpcode`.
-/
import Cpu6502.Machine
import Cpu6502.Operand

namespace Cpu6502

/-- The pointer at a place in page zero. -/
def Bus.zeroPageWord (bus : Bus) (base : UInt8) : Address :=
  Address.ofBytes (bus.read base.toUInt16) (bus.read (base + 1).toUInt16)

/-- The pointer at an address, whose high byte comes from the same page. -/
def Bus.samePageWord (bus : Bus) (a : Address) : Address :=
  Address.ofBytes (bus.read a) (bus.read (Address.addLow a 1))

/-- An operand, and whether finding it led to another page. -/
structure Resolved where
  operand : Operand
  crossed : Bool := false
  deriving DecidableEq

/-- The operand at an indexed address. -/
def Resolved.indexed (base : Address) (index : UInt8) : Resolved :=
  let target := Address.offset base index
  ⟨.address target.1, target.2⟩

/-- How the bytes after an opcode lead to the operand: there is none, or one
byte, or a word. -/
inductive Encoding
  | bare (found : Resolved)
  | byte (find : UInt8 → Machine → Resolved)
  | word (find : UInt16 → Machine → Resolved)

/-- How each mode encodes its operand. -/
def Mode.encoding : Mode → Encoding
  | implied => .bare ⟨.implied, false⟩
  | accumulator => .bare ⟨.accumulator, false⟩
  | immediate => .byte fun byte _ => ⟨.immediate byte, false⟩
  | zeroPage => .byte fun byte _ => ⟨.address byte.toUInt16, false⟩
  | zeroPageX => .byte fun byte m => ⟨.address (byte + m.regs.x).toUInt16, false⟩
  | zeroPageY => .byte fun byte m => ⟨.address (byte + m.regs.y).toUInt16, false⟩
  | absolute => .word fun word _ => ⟨.address word, false⟩
  | absoluteX => .word fun word m => .indexed word m.regs.x
  | absoluteY => .word fun word m => .indexed word m.regs.y
  | relative => .byte fun byte _ => ⟨.relative byte, false⟩
  | indirect => .word fun word m => ⟨.address (m.bus.samePageWord word), false⟩
  | indexedIndirect => .byte fun byte m => ⟨.address (m.bus.zeroPageWord (byte + m.regs.x)), false⟩
  | indirectIndexed => .byte fun byte m => .indexed (m.bus.zeroPageWord byte) m.regs.y

/-! ### The instruction stream -/

namespace Machine

/-- Moves PC forward. -/
def advancePc (m : Machine) (delta : UInt16) : Machine := { m with regs := m.regs.advancePc delta }

/-- Takes the byte at PC. -/
def fetch (m : Machine) : UInt8 × Machine := (m.bus.read m.regs.pc, m.advancePc 1)

/-- Takes the word at PC, low byte first. -/
def fetchWord (m : Machine) : UInt16 × Machine :=
  let lo := m.fetch
  let hi := lo.2.fetch
  (Address.ofBytes lo.1 hi.1, hi.2)

theorem advancePc_advancePc (m : Machine) (d e : UInt16) :
    (m.advancePc d).advancePc e = m.advancePc (d + e) := by
  simp only [advancePc, Registers.advancePc, UInt16.add_assoc]

end Machine

namespace Mode

/-- Takes the bytes of the operand from the instruction stream, and finds it. -/
def take (mode : Mode) (m : Machine) : Resolved × Machine :=
  match mode.encoding with
  | .bare found => (found, m)
  | .byte find =>
    let byte := m.fetch
    (find byte.1 byte.2, byte.2)
  | .word find =>
    let word := m.fetchWord
    (find word.1 word.2, word.2)

/-- The operand of an instruction whose opcode is at PC. -/
def resolve (mode : Mode) (m : Machine) : Resolved :=
  match mode.encoding with
  | .bare found => found
  | .byte find => find (m.bus.read (m.regs.pc + 1)) m
  | .word find =>
    find (Address.ofBytes (m.bus.read (m.regs.pc + 1)) (m.bus.read (m.regs.pc + 2))) m

/-- A mode takes the bytes of the operand, which leaves PC at the next
instruction. -/
theorem take_pastOpcode (mode : Mode) (m : Machine) :
    mode.take (m.advancePc 1) = (mode.resolve m, m.advancePc mode.length.toUInt16) := by
  have hbyte : (m.advancePc 1).fetch = (m.bus.read (m.regs.pc + 1), m.advancePc 2) :=
    Prod.ext rfl (m.advancePc_advancePc 1 1)
  have hnext : (m.advancePc 2).fetch = (m.bus.read (m.regs.pc + 2), m.advancePc 3) :=
    Prod.ext rfl (m.advancePc_advancePc 2 1)
  cases mode <;> simp only [take, resolve, encoding, Machine.fetchWord, hbyte, hnext] <;> rfl

end Mode
end Cpu6502
