/-
# Mnemonics

The instructions of the 6502, whatever their addressing mode: the documented
ones and the stable undocumented ones. For each: its name, what it does at
its effective address, and which flags it may change. Some instructions
assign flags in their own way (`manualFlags`); the others are derived alike
for all instructions (`autoFlags`): N and Z from the last result, C and V
from the carry and overflow that the instruction produced.

A flag that the work of an instruction has touched one by one (`touchedFlags`) is
not derived again. All of these are listed as manual (`touched_le_manual`), so
nothing is lost by it: the flags still to be derived after the work are the
automatic ones (`pendingFlags_eq`).

Key definitions: `Mnemonic`, `Mnemonic.access`, `Mnemonic.affectedFlags`,
`Mnemonic.manualFlags`, `Mnemonic.autoFlags`, `Mnemonic.pendingFlags`.
Key theorems: `Mnemonic.pendingFlags_eq`.
-/
import Cpu6502.Flag
import Cpu6502.Operand

namespace Cpu6502

/-- The instructions, by the names that assemblers use. -/
inductive Mnemonic
  -- loads and stores
  | lda | ldx | ldy | sta | stx | sty
  -- transfers
  | tax | tay | txa | tya | tsx | txs
  -- stack
  | pha | php | pla | plp
  -- logic
  | and | ora | eor | bit
  -- arithmetic
  | adc | sbc
  -- comparison
  | cmp | cpx | cpy
  -- counting
  | inc | inx | iny | dec | dex | dey
  -- shifts
  | asl | lsr | rol | ror
  -- jumps and interrupts
  | jmp | jsr | rts | brk | rti
  -- branches
  | bcc | bcs | beq | bmi | bne | bpl | bvc | bvs
  -- flags
  | clc | cld | cli | clv | sec | sed | sei
  -- nothing
  | nop
  -- undocumented
  | lax | sax | dcp | isb | slo | rla | sre | rra
  deriving DecidableEq, Repr

namespace Mnemonic

/-- The name in listings. -/
def name : Mnemonic → String
  | lda => "LDA"  | ldx => "LDX"  | ldy => "LDY"  | sta => "STA"
  | stx => "STX"  | sty => "STY"
  | tax => "TAX"  | tay => "TAY"  | txa => "TXA"  | tya => "TYA"
  | tsx => "TSX"  | txs => "TXS"
  | pha => "PHA"  | php => "PHP"  | pla => "PLA"  | plp => "PLP"
  | and => "AND"  | ora => "ORA"  | eor => "EOR"  | bit => "BIT"
  | adc => "ADC"  | sbc => "SBC"
  | cmp => "CMP"  | cpx => "CPX"  | cpy => "CPY"
  | inc => "INC"  | inx => "INX"  | iny => "INY"  | dec => "DEC"
  | dex => "DEX"  | dey => "DEY"
  | asl => "ASL"  | lsr => "LSR"  | rol => "ROL"  | ror => "ROR"
  | jmp => "JMP"  | jsr => "JSR"  | rts => "RTS"  | brk => "BRK"
  | rti => "RTI"
  | bcc => "BCC"  | bcs => "BCS"  | beq => "BEQ"  | bmi => "BMI"
  | bne => "BNE"  | bpl => "BPL"  | bvc => "BVC"  | bvs => "BVS"
  | clc => "CLC"  | cld => "CLD"  | cli => "CLI"  | clv => "CLV"
  | sec => "SEC"  | sed => "SED"  | sei => "SEI"
  | nop => "NOP"
  | lax => "LAX"  | sax => "SAX"  | dcp => "DCP"  | isb => "ISB"
  | slo => "SLO"  | rla => "RLA"  | sre => "SRE"  | rra => "RRA"

/-- What the instruction does at its effective address. -/
def access : Mnemonic → Access
  | sta | stx | sty | sax => .write
  | asl | lsr | rol | ror | inc | dec | dcp | isb | slo | rla | sre | rra => .readModifyWrite
  | lda | ldx | ldy | lax | and | ora | eor | bit | adc | sbc | cmp | cpx | cpy | nop => .read
  | _ => .none

/-- The flags the instruction may change. -/
def affectedFlags : Mnemonic → UInt8
  | lda | ldx | ldy | lax | tax | tay | txa | tya | tsx | pla | and | ora | eor
  | inc | inx | iny | dec | dex | dey => Flag.negative ||| Flag.zero
  | adc | sbc | isb | rra => Flag.negative ||| Flag.overflow ||| Flag.zero ||| Flag.carry
  | cmp | cpx | cpy | dcp | asl | lsr | rol | ror | slo | rla | sre =>
    Flag.negative ||| Flag.zero ||| Flag.carry
  | bit => Flag.negative ||| Flag.overflow ||| Flag.zero
  | plp | rti => Flag.arithmetic
  | clc | sec => Flag.carry
  | cli | sei | brk => Flag.irqDisable
  | cld | sed => Flag.decimal
  | clv => Flag.overflow
  | _ => 0

/-- The affected flags that the instruction assigns in its own way. -/
def manualFlags : Mnemonic → UInt8
  | bit => Flag.negative ||| Flag.overflow
  | plp | rti => Flag.arithmetic
  | clc | sec => Flag.carry
  | cli | sei | brk => Flag.irqDisable
  | cld | sed => Flag.decimal
  | clv => Flag.overflow
  | _ => 0

/-- The affected flags that are derived from what the instruction produced. -/
def autoFlags (m : Mnemonic) : UInt8 := m.affectedFlags &&& ~~~m.manualFlags

/-- The flags that the instruction assigns one by one while it works. PLP and RTI
load P as a whole, and BRK's entry sets I, without a note of it. -/
def touchedFlags : Mnemonic → UInt8
  | bit => Flag.negative ||| Flag.overflow
  | clc | sec => Flag.carry
  | cli | sei => Flag.irqDisable
  | cld | sed => Flag.decimal
  | clv => Flag.overflow
  | _ => 0

/-- The flags that are left to derive when the instruction has done its work. -/
def pendingFlags (m : Mnemonic) : UInt8 := m.autoFlags &&& ~~~(m.manualFlags ||| m.touchedFlags)

/-- What is touched is listed as manual. -/
theorem touched_le_manual (m : Mnemonic) : m.manualFlags ||| m.touchedFlags = m.manualFlags := by
  cases m <;> rfl

theorem pendingFlags_eq (m : Mnemonic) : m.pendingFlags = m.autoFlags := by
  rw [pendingFlags, touched_le_manual, autoFlags, UInt8.and_assoc, UInt8.and_self]

/-- The instructions that take PC from elsewhere than the next opcode. -/
def isJump : Mnemonic → Bool
  | jmp | jsr | rts | rti | brk => true
  | _ => false

end Mnemonic
end Cpu6502
