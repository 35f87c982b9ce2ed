/-
# Listings and trace lines

`disassemble` writes the instruction at an address as an assembler would read
it. `traceLine` describes the instruction about to execute in the columns of
the nestest log: PC, the bytes, a star for an undocumented opcode, the
instruction, the registers and the cycle count. There the text of the
instruction is followed by what it finds in memory (`Remark`): the
effective address and the byte there, or the target of an indirect jump.

Key definitions: `disassemble`, `Remark`, `remark`, `traceLine`.
-/
import Cpu6502.EffectiveAddress
import Cpu6502.Hex
import Cpu6502.Opcode

namespace Cpu6502

/-- The operand as an assembler writes it, after a blank. `word` is the two
bytes after the opcode and `next` the address of the next instruction, from
which branch distances count. -/
def Mode.operandText (mode : Mode) (word : UInt16) (next : Address) : String :=
  let byte := Address.low word
  match mode with
  | .implied => ""
  | .accumulator => " A"
  | .immediate => " #$" ++ Hex.byte byte
  | .zeroPage => " $" ++ Hex.byte byte
  | .zeroPageX => " $" ++ Hex.byte byte ++ ",X"
  | .zeroPageY => " $" ++ Hex.byte byte ++ ",Y"
  | .absolute => " " ++ Address.text word
  | .absoluteX => " " ++ Address.text word ++ ",X"
  | .absoluteY => " " ++ Address.text word ++ ",Y"
  | .indirect => " (" ++ Address.text word ++ ")"
  | .indexedIndirect => " ($" ++ Hex.byte byte ++ ",X)"
  | .indirectIndexed => " ($" ++ Hex.byte byte ++ "),Y"
  | .relative => " " ++ Address.text (Address.offsetSigned next byte).1

/-- The instruction with this opcode at `pc`. -/
def Opcode.text (op : Opcode) (bus : Bus) (pc : Address) : String :=
  op.mnemonic.name ++ op.mode.operandText (bus.readWord (pc + 1)) (pc + op.length.toUInt16)

/-- A byte that is no opcode. -/
def undefinedText (byte : UInt8) : String := ".db $" ++ Hex.byte byte

/-- The instruction at `pc` and its length; one byte where there is none. -/
def disassemble (bus : Bus) (pc : Address) : String × UInt8 :=
  let byte := bus.read pc
  match Opcode.decode? byte with
  | some op => (op.text bus pc, op.length)
  | none => (undefinedText byte, 1)

/-- What a trace line adds to an instruction. -/
inductive Remark
  | none
  /-- The byte at the operand address. -/
  | contents (value : UInt8)
  /-- The effective address in page zero, and the byte there. -/
  | zeroPage (place value : UInt8)
  /-- The effective address, and the byte there. -/
  | indexed (address : Address) (value : UInt8)
  /-- The address an indirect jump goes to. -/
  | target (address : Address)
  /-- The place of the pointer, the address it holds, and the byte there. -/
  | throughPointer (place : UInt8) (address : Address) (value : UInt8)
  /-- The address the pointer holds, the effective address, and the byte
  there. -/
  | fromPointer (base address : Address) (value : UInt8)
  deriving DecidableEq

/-- The remark as it follows the instruction. -/
def Remark.text : Remark → String
  | none => ""
  | contents value => " = " ++ Hex.byte value
  | zeroPage place value => " @ " ++ Hex.byte place ++ " = " ++ Hex.byte value
  | indexed address value => " @ " ++ Hex.word address ++ " = " ++ Hex.byte value
  | target address => " = " ++ Hex.word address
  | throughPointer place address value =>
    " @ " ++ Hex.byte place ++ " = " ++ Hex.word address ++ " = " ++ Hex.byte value
  | fromPointer base address value =>
    " = " ++ Hex.word base ++ " @ " ++ Hex.word address ++ " = " ++ Hex.byte value

/-- The instructions that go to their absolute operand instead of using the
byte there. -/
def Mnemonic.goesToOperand : Mnemonic → Bool
  | .jmp | .jsr => true
  | _ => false

/-- What the instruction at PC, which has this opcode, finds in memory. -/
def remark (op : Opcode) (m : Machine) : Remark :=
  let word := m.bus.readWord (m.regs.pc + 1)
  let byte := Address.low word
  let zeroPage (index : UInt8) : Remark :=
    .zeroPage (byte + index) (m.bus.read (byte + index).toUInt16)
  let indexed (index : UInt8) : Remark :=
    .indexed (word + index.toUInt16) (m.bus.read (word + index.toUInt16))
  match op.mode with
  | .implied | .accumulator | .immediate | .relative => .none
  | .zeroPage => .contents (m.bus.read byte.toUInt16)
  | .zeroPageX => zeroPage m.regs.x
  | .zeroPageY => zeroPage m.regs.y
  | .absolute =>
    if op.mnemonic.goesToOperand then .none else .contents (m.bus.read word)
  | .absoluteX => indexed m.regs.x
  | .absoluteY => indexed m.regs.y
  | .indirect => .target (m.bus.samePageWord word)
  | .indexedIndirect =>
    let address := m.bus.zeroPageWord (byte + m.regs.x)
    .throughPointer (byte + m.regs.x) address (m.bus.read address)
  | .indirectIndexed =>
    let base := m.bus.zeroPageWord byte
    .fromPointer base (base + m.regs.y.toUInt16) (m.bus.read (base + m.regs.y.toUInt16))

/-- Bytes with a blank between them. -/
def bytesText : List UInt8 → String
  | [] => ""
  | [b] => Hex.byte b
  | b :: bs => Hex.byte b ++ " " ++ bytesText bs

/-- The bytes of an instruction of this length. -/
def instructionBytes (bus : Bus) (pc : Address) (length : UInt8) : List UInt8 :=
  (List.range length.toNat).map fun i => bus.read (pc + UInt16.ofNat i)

/-- The registers and the cycle count, as a trace line ends. -/
def Registers.summary (r : Registers) : String :=
  "A:" ++ Hex.byte r.a ++ " X:" ++ Hex.byte r.x ++ " Y:" ++ Hex.byte r.y ++
    " P:" ++ Hex.byte r.status ++ " SP:" ++ Hex.byte r.sp ++
    " CYC:" ++ toString r.totalCycles.toNat

/-- The mark of an undocumented opcode. -/
def Opcode.marker (op : Opcode) : String := if op.documented then " " else "*"

/-- One line about the instruction about to execute. The cycle count is the
one before it. -/
def traceLine (m : Machine) : String :=
  let pc := m.regs.pc
  let byte := m.bus.read pc
  let parts : String × String × UInt8 :=
    match Opcode.decode? byte with
    | some op => (op.marker, op.text m.bus pc ++ (remark op m).text, op.length)
    | none => (" ", undefinedText byte, 1)
  Hex.word pc ++ "  " ++ padRight 9 (bytesText (instructionBytes m.bus pc parts.2.2)) ++
    parts.1 ++ padRight 32 parts.2.1 ++ m.regs.summary

end Cpu6502
