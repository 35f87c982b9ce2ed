/-
# The opcode matrix

One entry for each of the 256 opcode bytes: mnemonic, addressing mode, base
cycles and whether the opcode is documented. 151 opcodes are documented and
80 are stable undocumented ones; the other 25 are undefined. Base cycles
leave out what depends on the run: the extra cycle of indexing (so that
`STA $1234,X` is entered as 4 and costs 5) and the cost of a taken branch.
BRK skips a padding byte and is entered as an immediate instruction.

Key definitions: `Opcode`, `Opcode.matrix`, `Opcode.decode?`.
-/
import Cpu6502.Mnemonic

namespace Cpu6502

/-- An entry of the matrix. -/
structure Opcode where
  mnemonic : Mnemonic
  mode : Mode
  /-- Cycles before the indexing and branch costs. -/
  cycles : UInt8
  documented : Bool
  deriving DecidableEq, Repr

namespace Opcode

/-- The length of the instruction, opcode included. -/
def length (d : Opcode) : UInt8 := d.mode.length

/-- What the instruction does at its effective address. -/
def access (d : Opcode) : Access := d.mnemonic.access

/-- The flags derived from what the instruction produced. -/
def autoFlags (d : Opcode) : UInt8 := d.mnemonic.autoFlags

/-- The flags the instruction assigns in its own way. -/
def manualFlags (d : Opcode) : UInt8 := d.mnemonic.manualFlags

/-- Every flag the instruction may change. -/
def affectedFlags (d : Opcode) : UInt8 := d.autoFlags ||| d.manualFlags

namespace Entry

/-- A documented opcode. -/
abbrev o (mnemonic : Mnemonic) (mode : Mode) (cycles : UInt8) : Option Opcode :=
  some ⟨mnemonic, mode, cycles, true⟩

/-- An undocumented opcode. -/
abbrev u (mnemonic : Mnemonic) (mode : Mode) (cycles : UInt8) : Option Opcode :=
  some ⟨mnemonic, mode, cycles, false⟩

/-- An undefined opcode. -/
abbrev x : Option Opcode := none

abbrev imp := Mode.implied
abbrev acc := Mode.accumulator
abbrev imm := Mode.immediate
abbrev zp := Mode.zeroPage
abbrev zpx := Mode.zeroPageX
abbrev zpy := Mode.zeroPageY
abbrev ab := Mode.absolute
abbrev abx := Mode.absoluteX
abbrev aby := Mode.absoluteY
abbrev rel := Mode.relative
abbrev ind := Mode.indirect
abbrev izx := Mode.indexedIndirect
abbrev izy := Mode.indirectIndexed

end Entry

open Entry in
/-- The entries by the high and then the low digit of the opcode byte. -/
def matrix : Array (Array (Option Opcode)) := #[
  -- $00
  #[o .brk imm 7, o .ora izx 6, x, u .slo izx 8,
    u .nop zp 3, o .ora zp 3, o .asl zp 5, u .slo zp 5,
    o .php imp 3, o .ora imm 2, o .asl acc 2, x,
    u .nop ab 4, o .ora ab 4, o .asl ab 6, u .slo ab 6],
  -- $10
  #[o .bpl rel 2, o .ora izy 5, x, u .slo izy 7,
    u .nop zpx 4, o .ora zpx 4, o .asl zpx 6, u .slo zpx 6,
    o .clc imp 2, o .ora aby 4, u .nop imp 2, u .slo aby 6,
    u .nop abx 4, o .ora abx 4, o .asl abx 6, u .slo abx 6],
  -- $20
  #[o .jsr ab 6, o .and izx 6, x, u .rla izx 8,
    o .bit zp 3, o .and zp 3, o .rol zp 5, u .rla zp 5,
    o .plp imp 4, o .and imm 2, o .rol acc 2, x,
    o .bit ab 4, o .and ab 4, o .rol ab 6, u .rla ab 6],
  -- $30
  #[o .bmi rel 2, o .and izy 5, x, u .rla izy 7,
    u .nop zpx 4, o .and zpx 4, o .rol zpx 6, u .rla zpx 6,
    o .sec imp 2, o .and aby 4, u .nop imp 2, u .rla aby 6,
    u .nop abx 4, o .and abx 4, o .rol abx 6, u .rla abx 6],
  -- $40
  #[o .rti imp 6, o .eor izx 6, x, u .sre izx 8,
    u .nop zp 3, o .eor zp 3, o .lsr zp 5, u .sre zp 5,
    o .pha imp 3, o .eor imm 2, o .lsr acc 2, x,
    o .jmp ab 3, o .eor ab 4, o .lsr ab 6, u .sre ab 6],
  -- $50
  #[o .bvc rel 2, o .eor izy 5, x, u .sre izy 7,
    u .nop zpx 4, o .eor zpx 4, o .lsr zpx 6, u .sre zpx 6,
    o .cli imp 2, o .eor aby 4, u .nop imp 2, u .sre aby 6,
    u .nop abx 4, o .eor abx 4, o .lsr abx 6, u .sre abx 6],
  -- $60
  #[o .rts imp 6, o .adc izx 6, x, u .rra izx 8,
    u .nop zp 3, o .adc zp 3, o .ror zp 5, u .rra zp 5,
    o .pla imp 4, o .adc imm 2, o .ror acc 2, x,
    o .jmp ind 5, o .adc ab 4, o .ror ab 6, u .rra ab 6],
  -- $70
  #[o .bvs rel 2, o .adc izy 5, x, u .rra izy 7,
    u .nop zpx 4, o .adc zpx 4, o .ror zpx 6, u .rra zpx 6,
    o .sei imp 2, o .adc aby 4, u .nop imp 2, u .rra aby 6,
    u .nop abx 4, o .adc abx 4, o .ror abx 6, u .rra abx 6],
  -- $80
  #[u .nop imm 2, o .sta izx 6, u .nop imm 2, u .sax izx 6,
    o .sty zp 3, o .sta zp 3, o .stx zp 3, u .sax zp 3,
    o .dey imp 2, u .nop imm 2, o .txa imp 2, x,
    o .sty ab 4, o .sta ab 4, o .stx ab 4, u .sax ab 4],
  -- $90
  #[o .bcc rel 2, o .sta izy 5, x, x,
    o .sty zpx 4, o .sta zpx 4, o .stx zpy 4, u .sax zpy 4,
    o .tya imp 2, o .sta aby 4, o .txs imp 2, x,
    x, o .sta abx 4, x, x],
  -- $A0
  #[o .ldy imm 2, o .lda izx 6, o .ldx imm 2, u .lax izx 6,
    o .ldy zp 3, o .lda zp 3, o .ldx zp 3, u .lax zp 3,
    o .tay imp 2, o .lda imm 2, o .tax imp 2, x,
    o .ldy ab 4, o .lda ab 4, o .ldx ab 4, u .lax ab 4],
  -- $B0
  #[o .bcs rel 2, o .lda izy 5, x, u .lax izy 5,
    o .ldy zpx 4, o .lda zpx 4, o .ldx zpy 4, u .lax zpy 4,
    o .clv imp 2, o .lda aby 4, o .tsx imp 2, x,
    o .ldy abx 4, o .lda abx 4, o .ldx aby 4, u .lax aby 4],
  -- $C0
  #[o .cpy imm 2, o .cmp izx 6, u .nop imm 2, u .dcp izx 8,
    o .cpy zp 3, o .cmp zp 3, o .dec zp 5, u .dcp zp 5,
    o .iny imp 2, o .cmp imm 2, o .dex imp 2, x,
    o .cpy ab 4, o .cmp ab 4, o .dec ab 6, u .dcp ab 6],
  -- $D0
  #[o .bne rel 2, o .cmp izy 5, x, u .dcp izy 7,
    u .nop zpx 4, o .cmp zpx 4, o .dec zpx 6, u .dcp zpx 6,
    o .cld imp 2, o .cmp aby 4, u .nop imp 2, u .dcp aby 6,
    u .nop abx 4, o .cmp abx 4, o .dec abx 6, u .dcp abx 6],
  -- $E0
  #[o .cpx imm 2, o .sbc izx 6, u .nop imm 2, u .isb izx 8,
    o .cpx zp 3, o .sbc zp 3, o .inc zp 5, u .isb zp 5,
    o .inx imp 2, o .sbc imm 2, o .nop imp 2, u .sbc imm 2,
    o .cpx ab 4, o .sbc ab 4, o .inc ab 6, u .isb ab 6],
  -- $F0
  #[o .beq rel 2, o .sbc izy 5, x, u .isb izy 7,
    u .nop zpx 4, o .sbc zpx 4, o .inc zpx 6, u .isb zpx 6,
    o .sed imp 2, o .sbc aby 4, u .nop imp 2, u .isb aby 6,
    u .nop abx 4, o .sbc abx 4, o .inc abx 6, u .isb abx 6]]

/-- What an opcode byte stands for, if it is defined. -/
def decode? (byte : UInt8) : Option Opcode :=
  (matrix.getD (byte.toNat / 16) #[]).getD (byte.toNat % 16) none

/-- The defined opcode bytes in ascending order. -/
def defined : List UInt8 := ((List.range 256).map UInt8.ofNat).filter fun b => (decode? b).isSome

end Opcode
end Cpu6502
