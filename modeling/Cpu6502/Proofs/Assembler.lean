/-
# Assembling what was disassembled

A listing shows an instruction as an assembler reads it, and nothing is lost on
the way: `assemble?` finds the bytes in the text and the address alone, if the
opcode is documented or there is none. (Undocumented opcodes share their names:
five of them are `NOP` with an immediate operand.)

With every digit of an operand written as `0`, what is left tells the mode
(`Mode.form`), since operands in page zero have two digits and others four. Only
a branch target looks like an absolute operand, and no name stands for both. So
name and form together determine the opcode (`Opcode.named?_eq`), and the digits
show the bytes after it. A branch shows its target instead of its distance; the
distance is the difference, modulo the size of memory.

Key definitions: `Hex.blur`, `Hex.numberIn`, `Mode.form`, `Mode.encode`,
`Opcode.named?`, `assemble?`.
Key theorems: `Mode.blur_operandText`, `Mode.encode_operandText`,
`Opcode.named?_eq`, `assemble?_text`, `disassemble_lossless`.
-/
import Cpu6502.Proofs.Trace
import Mathlib.Data.List.Nodup

namespace Cpu6502

/-! ### Digits in a text -/

namespace Hex

/-- The character is a digit. -/
def isDigit (c : Char) : Bool := (value? c).isSome

/-- The text with every digit written as `0`. -/
def blur (text : List Char) : List Char := text.map fun c => if isDigit c then '0' else c

/-- The number that the digits of a text show, and zero where there are none. -/
def numberIn (text : List Char) : UInt16 := UInt16.ofNat ((number? (text.filter isDigit)).getD 0)

theorem isDigit_digit : ∀ n < 16, isDigit (digit n) = true := by decide

theorem isDigit_of_mem_byteDigits {b : UInt8} {c : Char} (h : c ∈ byteDigits b) :
    isDigit c = true := by
  have hb := b.toNat_lt
  simp only [byteDigits, List.mem_cons, List.not_mem_nil, or_false] at h
  rcases h with rfl | rfl
  · exact isDigit_digit _ (by omega)
  · exact isDigit_digit _ (by omega)

theorem isDigit_of_mem_wordDigits {a : Address} {c : Char} (h : c ∈ wordDigits a) :
    isDigit c = true := by
  rcases List.mem_append.mp h with h | h
  · exact isDigit_of_mem_byteDigits h
  · exact isDigit_of_mem_byteDigits h

@[simp] theorem filter_byteDigits (b : UInt8) : (byteDigits b).filter isDigit = byteDigits b :=
  List.filter_eq_self.mpr fun _ => isDigit_of_mem_byteDigits

@[simp] theorem filter_wordDigits (a : Address) : (wordDigits a).filter isDigit = wordDigits a :=
  List.filter_eq_self.mpr fun _ => isDigit_of_mem_wordDigits

theorem blur_cons (c : Char) (s : List Char) :
    blur (c :: s) = (if isDigit c then '0' else c) :: blur s := rfl

@[simp] theorem blur_append (s t : List Char) : blur (s ++ t) = blur s ++ blur t := List.map_append

@[simp] theorem blur_byteDigits (b : UInt8) : blur (byteDigits b) = ['0', '0'] := by
  have hb := b.toNat_lt
  simp only [blur, byteDigits, List.map_cons, List.map_nil,
    isDigit_digit (b.toNat / 16) (by omega), isDigit_digit (b.toNat % 16) (by omega), ↓reduceIte]

@[simp] theorem blur_wordDigits (a : Address) : blur (wordDigits a) = ['0', '0', '0', '0'] := by
  simp [wordDigits]

/-- The signs in an operand are no digits. -/
theorem isDigit_sign : ∀ c ∈ [' ', '#', '$', '(', ')', ',', 'X', 'Y'], isDigit c = false := by
  simp only [List.forall_mem_cons]
  exact ⟨rfl, rfl, rfl, rfl, rfl, rfl, rfl, rfl, nofun⟩

theorem numberIn_eq_byte {text : List Char} {b : UInt8} (h : text.filter isDigit = byteDigits b) :
    numberIn text = b.toUInt16 := by
  rw [numberIn, h, number?_byteDigits]
  exact UInt16.toNat_inj.mp (by simp)

theorem numberIn_eq_word {text : List Char} {a : Address} (h : text.filter isDigit = wordDigits a) :
    numberIn text = a := by
  rw [numberIn, h, number?_wordDigits]
  exact UInt16.ofNat_toNat

end Hex

theorem Address.low_toUInt16 (b : UInt8) : low b.toUInt16 = b := by
  simp [low]

/-- The distance to the target of a branch is the branch's byte. -/
theorem Address.low_offsetSigned_sub (a : Address) (d : UInt8) :
    low ((offsetSigned a d).1 - a) = d := by
  have hlow : low (signExtend d) = d := forall_byte (P := fun d => low (signExtend d) = d)
    (by decide +kernel) d
  rw [offsetSigned, UInt16.add_comm, UInt16.add_sub_cancel, hlow]

/-! ### Operands -/

namespace Mode

/-- How an operand of this mode is written, with the digits blurred. -/
def form (mode : Mode) : List Char := Hex.blur ((mode.operandWords 0 0).flatMap (' ' :: ·))

/-- The bytes after the opcode, for the number that the operand shows. A branch
shows where it goes; its byte is the distance from the next instruction. -/
def encode (mode : Mode) (next : Address) (number : UInt16) : List UInt8 :=
  match mode with
  | .implied | .accumulator => []
  | .immediate | .zeroPage | .zeroPageX | .zeroPageY | .indexedIndirect | .indirectIndexed =>
    [Address.low number]
  | .absolute | .absoluteX | .absoluteY | .indirect => [Address.low number, Address.high number]
  | .relative => [Address.low (number - next)]

/-- The form does not depend on the operand. -/
theorem blur_operandText (mode : Mode) (word : UInt16) (next : Address) :
    Hex.blur (mode.operandText word next).toList = mode.form := by
  rw [toList_operandText, form]
  cases mode <;> simp [operandWords, Hex.blur_cons]

/-- What the operand shows is encoded as it was read. -/
theorem encode_operandText (mode : Mode) (word : UInt16) (next : Address) :
    mode.encode next (Hex.numberIn (mode.operandText word next).toList) =
      [Address.low word, Address.high word].take (mode.length.toNat - 1) := by
  have hsign := Hex.isDigit_sign
  simp only [List.forall_mem_cons] at hsign
  rw [toList_operandText]
  cases mode with
  | implied | accumulator => rfl
  | immediate | zeroPage | zeroPageX | zeroPageY | indexedIndirect | indirectIndexed =>
    rw [Hex.numberIn_eq_byte (b := Address.low word) (by simp [operandWords, hsign])]
    exact congrArg ([·]) (Address.low_toUInt16 _)
  | absolute | absoluteX | absoluteY | indirect =>
    rw [Hex.numberIn_eq_word (a := word) (by simp [operandWords, hsign])]
    rfl
  | relative =>
    rw [Hex.numberIn_eq_word (a := (Address.offsetSigned next (Address.low word)).1)
      (by simp [operandWords, hsign])]
    exact congrArg ([·]) (Address.low_offsetSigned_sub next _)

end Mode

/-! ### Opcodes by their text -/

namespace Opcode

/-- The documented opcodes whose operand is written in this form. -/
def ofForm (form : List Char) : List UInt8 :=
  defined.filter fun byte => (decode? byte).any fun op => op.documented && op.mode.form == form

/-- The name of the instruction with this opcode. -/
def nameOf (byte : UInt8) : String := ((decode? byte).map (·.mnemonic.name)).getD ""

/-- The documented opcode with this name and an operand of this form. -/
def named? (name : String) (form : List Char) : Option UInt8 :=
  (ofForm form).find? fun byte => nameOf byte == name

/-- No two documented opcodes are written alike. -/
theorem nodup_ofForm (mode : Mode) : ((ofForm mode.form).map nameOf).Nodup := by
  have hall : ∀ mode ∈ [Mode.implied, .accumulator, .immediate, .zeroPage, .zeroPageX, .zeroPageY,
      .absolute, .absoluteX, .absoluteY, .relative, .indirect, .indexedIndirect, .indirectIndexed],
      ((ofForm mode.form).map nameOf).Nodup := by decide +kernel
  exact hall mode (by cases mode <;> decide)

theorem named?_eq {byte : UInt8} {op : Opcode} (hop : decode? byte = some op)
    (hdocumented : op.documented = true) :
    named? op.mnemonic.name op.mode.form = some byte := by
  have hname : nameOf byte = op.mnemonic.name := by rw [nameOf, hop]; rfl
  have hmem : byte ∈ ofForm op.mode.form := by
    have hdefined : byte ∈ (List.range 256).map UInt8.ofNat :=
      List.mem_map.mpr ⟨byte.toNat, List.mem_range.mpr byte.toNat_lt, UInt8.ofNat_toNat⟩
    simp only [ofForm, defined, List.mem_filter, hop, hdefined, hdocumented, Option.isSome_some,
      Option.any_some, BEq.rfl, Bool.and_self, and_self]
  cases hfind : named? op.mnemonic.name op.mode.form with
  | none =>
    have hnone := List.find?_eq_none.mp hfind byte hmem
    simp [hname] at hnone
  | some found =>
    have hfound := List.mem_of_find?_eq_some hfind
    have heq : nameOf found = nameOf byte := by
      simpa [hname] using List.find?_some hfind
    rw [List.inj_on_of_nodup_map (nodup_ofForm op.mode) hfound hmem heq]

end Opcode

/-! ### Lines -/

/-- The bytes of the line that a listing has at this address. -/
def assemble? (pc : Address) (line : String) : Option (List UInt8) :=
  let name := String.ofList (line.toList.take 3)
  let operand := line.toList.drop 3
  if name = ".db" then some [Address.low (Hex.numberIn operand)]
  else (Opcode.named? name (Hex.blur operand)).bind fun byte =>
    (Opcode.decode? byte).map fun op =>
      byte :: op.mode.encode (pc + op.length.toUInt16) (Hex.numberIn operand)

theorem Mnemonic.name_ne_data (mnemonic : Mnemonic) : mnemonic.name ≠ ".db" := by
  cases mnemonic <;> decide

theorem Mnemonic.length_toList_name (mnemonic : Mnemonic) : mnemonic.name.toList.length = 3 := by
  cases mnemonic <;> rfl

/-- The opcode and as many bytes of the operand as the mode has. -/
theorem instructionBytes_eq (bus : Bus) (pc : Address) (mode : Mode) :
    instructionBytes bus pc mode.length = bus.read pc ::
      [Address.low (bus.readWord (pc + 1)), Address.high (bus.readWord (pc + 1))].take
        (mode.length.toNat - 1) := by
  have hzero : pc + UInt16.ofNat 0 = pc := UInt16.add_zero _
  rw [Bus.readWord_eq, Address.low_ofBytes, Address.high_ofBytes]
  cases mode <;> exact congrArg (bus.read · :: _) hzero

/-- **An instruction is assembled from its text.** -/
theorem assemble?_text {bus : Bus} {pc : Address} {op : Opcode}
    (hop : Opcode.decode? (bus.read pc) = some op) (hdocumented : op.documented = true) :
    assemble? pc (op.text bus pc) = some (instructionBytes bus pc op.length) := by
  have hname := op.mnemonic.length_toList_name
  rw [assemble?, Opcode.text, String.toList_append, List.take_left' hname, List.drop_left' hname,
    String.ofList_toList, if_neg op.mnemonic.name_ne_data, Mode.blur_operandText,
    Opcode.named?_eq hop hdocumented, Option.bind_some, hop, Option.map_some,
    Mode.encode_operandText, Opcode.length, instructionBytes_eq]

theorem assemble?_undefinedText (pc : Address) (byte : UInt8) :
    assemble? pc (undefinedText byte) = some [byte] := by
  have hsign := Hex.isDigit_sign
  simp only [List.forall_mem_cons] at hsign
  have hline : (undefinedText byte).toList = ['.', 'd', 'b'] ++ ' ' :: '$' :: Hex.byteDigits byte := by
    simp [undefinedText]
  have hname : ['.', 'd', 'b'].length = 3 := rfl
  rw [assemble?, hline, List.take_left' hname, List.drop_left' hname, if_pos rfl,
    Hex.numberIn_eq_byte (b := byte) (by simp [hsign]), Address.low_toUInt16]

/-- The byte at this address is a documented opcode, or it is none. -/
def Bus.Plain (bus : Bus) (pc : Address) : Prop :=
  ∀ op, Opcode.decode? (bus.read pc) = some op → op.documented = true

theorem assemble?_disassemble {bus : Bus} {pc : Address} (h : bus.Plain pc) :
    assemble? pc (disassemble bus pc).1 =
      some (instructionBytes bus pc (disassemble bus pc).2) := by
  cases hop : Opcode.decode? (bus.read pc) with
  | some op =>
    simp only [disassemble, hop]
    exact assemble?_text hop (h op hop)
  | none =>
    have hzero : pc + UInt16.ofNat 0 = pc := UInt16.add_zero _
    have hbytes : instructionBytes bus pc 1 = [bus.read pc] := congrArg ([bus.read ·]) hzero
    simp only [disassemble, hop, hbytes]
    exact assemble?_undefinedText pc (bus.read pc)

/-- **Disassembly loses nothing.** Where the opcode is documented or there is
none, two buses that are listed alike at an address hold the same bytes there, as
many as the listing tells; the text and the address alone are enough to assemble
them. -/
theorem disassemble_lossless :
    (∀ (pc : Address) (b d : Bus), b.Plain pc → d.Plain pc →
      (disassemble b pc).1 = (disassemble d pc).1 →
      (disassemble b pc).2 = (disassemble d pc).2 ∧
      ∀ i < (disassemble b pc).2.toNat,
        b.read (pc + UInt16.ofNat i) = d.read (pc + UInt16.ofNat i)) ∧
    ∀ (pc : Address) (bus : Bus), bus.Plain pc →
      assemble? pc (disassemble bus pc).1 =
        some (instructionBytes bus pc (disassemble bus pc).2) := by
  refine ⟨fun pc b d hb hd htext => ?_, fun pc bus h => assemble?_disassemble h⟩
  have hbytes : instructionBytes b pc (disassemble b pc).2 =
      instructionBytes d pc (disassemble d pc).2 := by
    rw [← Option.some_inj, ← assemble?_disassemble hb, ← assemble?_disassemble hd, htext]
  exact instructionBytes_inj hbytes

/-- `BNE` at the top of memory. -/
def branchAtTop : Bus := (Bus.withMapping .flat).load 0xFFFE [0xD0, 0x10]

/-- The same branch in a bank of ROM that appears twice, above other bytes. -/
def branchInRom : Bus :=
  (Bus.withMapping (Nrom.ofSize 16384).toMapping).load 0xBFFD [0xEA, 0xD0, 0x10]

theorem disassemble_lossless_wrap :
    (disassemble branchAtTop 0xFFFE).1 = "BNE $0010" ∧
      (disassemble branchAtTop 0xFFFE).2 = (disassemble branchInRom 0xFFFE).2 ∧
      branchAtTop.read 0xFFFF = branchInRom.read 0xFFFF ∧
      assemble? 0xFFFE "BNE $0010" = some [0xD0, 0x10] := by
  have hplain (bus : Bus) (h : bus.read 0xFFFE = 0xD0) : bus.Plain 0xFFFE := by
    intro op hop
    rw [h] at hop
    cases hop
    rfl
  have htop := hplain branchAtTop (by decide +kernel)
  have hrom := hplain branchInRom (by decide +kernel)
  obtain ⟨hlength, hsame⟩ := disassemble_lossless.1 _ _ _ htop hrom (by decide +kernel)
  have hassembled := disassemble_lossless.2 _ _ htop
  exact ⟨by decide +kernel, hlength, hsame 1 (by decide +kernel), hassembled⟩

end Cpu6502
