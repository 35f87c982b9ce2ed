/-
# What a trace line foretells

A trace line is written from what the host may look at, apart from the
processor: it has its own way from the bytes to effective addresses and jump
targets. The two agree. Read back from its characters (`shownBytes`,
`shownAddress?`, `shownValue?`, `shownTarget?`), a line shows the bytes that the
instruction is made of, the address that its mode resolves to, the byte that
is there, and where a jump or a branch that is taken goes; any other instruction
moves PC by the length that a listing tells (`Computer.trace_truth`).

Key definitions: `Mode.operandWords`, `Remark.words`, `shownBytes`,
`shownAddress?`, `shownTarget?`, `Mode.operandFrom`, `Opcode.ShownBy`,
`Opcode.Foretells`.
Key theorems: `words_textColumn`, `Opcode.shownBy_traceLine`,
`Opcode.foretells_traceLine`, `Computer.trace_truth`.
-/
import Cpu6502.Proofs.Columns
import Cpu6502.Proofs.Session

namespace Cpu6502

/-! ### The words of an instruction -/

/-- The words of an operand. -/
def Mode.operandWords (mode : Mode) (word : UInt16) (next : Address) : List (List Char) :=
  let byte := Address.low word
  match mode with
  | .implied => []
  | .accumulator => [['A']]
  | .immediate => ['#' :: '$' :: Hex.byteDigits byte]
  | .zeroPage => ['$' :: Hex.byteDigits byte]
  | .zeroPageX => ['$' :: Hex.byteDigits byte ++ [',', 'X']]
  | .zeroPageY => ['$' :: Hex.byteDigits byte ++ [',', 'Y']]
  | .absolute => ['$' :: Hex.wordDigits word]
  | .absoluteX => ['$' :: Hex.wordDigits word ++ [',', 'X']]
  | .absoluteY => ['$' :: Hex.wordDigits word ++ [',', 'Y']]
  | .indirect => ['(' :: '$' :: Hex.wordDigits word ++ [')']]
  | .indexedIndirect => ['(' :: '$' :: Hex.byteDigits byte ++ [',', 'X', ')']]
  | .indirectIndexed => ['(' :: '$' :: Hex.byteDigits byte ++ [')', ',', 'Y']]
  | .relative => ['$' :: Hex.wordDigits (Address.offsetSigned next byte).1]

/-- The words of a remark. -/
def Remark.words : Remark → List (List Char)
  | none => []
  | contents value => [['='], Hex.byteDigits value]
  | zeroPage place value => [['@'], Hex.byteDigits place, ['='], Hex.byteDigits value]
  | indexed address value => [['@'], Hex.wordDigits address, ['='], Hex.byteDigits value]
  | target address => [['='], Hex.wordDigits address]
  | throughPointer place address value =>
    [['@'], Hex.byteDigits place, ['='], Hex.wordDigits address, ['='], Hex.byteDigits value]
  | fromPointer base address value =>
    [['='], Hex.wordDigits base, ['@'], Hex.wordDigits address, ['='], Hex.byteDigits value]

theorem Mode.toList_operandText (mode : Mode) (word : UInt16) (next : Address) :
    (mode.operandText word next).toList = (mode.operandWords word next).flatMap (' ' :: ·) := by
  cases mode <;> simp [operandText, operandWords, Address.text, Hex.wordDigits]

theorem Remark.toList_text (r : Remark) : r.text.toList = r.words.flatMap (' ' :: ·) := by
  cases r <;> simp [text, words, Hex.wordDigits]

theorem isWord_wordDigits (a : Address) : IsWord (Hex.wordDigits a) := by
  refine ⟨List.cons_ne_nil _ _, fun h => ?_⟩
  rcases List.mem_append.mp h with h | h
  · exact Hex.blank_notMem_byteDigits _ h
  · exact Hex.blank_notMem_byteDigits _ h

theorem Mode.isWord_operandWords (mode : Mode) (word : UInt16) (next : Address) :
    ∀ w ∈ mode.operandWords word next, IsWord w := by
  have hbyte := fun b => (isWord_byteDigits b).2
  have hword := fun a => (isWord_wordDigits a).2
  cases mode <;> simp [operandWords, IsWord, hbyte, hword]

theorem Remark.isWord_words (r : Remark) : ∀ w ∈ r.words, IsWord w := by
  have hsign : IsWord ['='] ∧ IsWord ['@'] := by simp [IsWord]
  cases r <;> simp [words, isWord_byteDigits, isWord_wordDigits, hsign]

theorem Mnemonic.isWord_name (mnemonic : Mnemonic) : IsWord mnemonic.name.toList := by
  cases mnemonic <;> simp [name, IsWord]

/-! ### The columns of a line -/

/-- The column with the bytes of the instruction. -/
def bytesColumn (line : String) : List Char := column line 6 9

/-- The column with the text of the instruction. -/
def textColumn (line : String) : List Char := column line 16 32

/-- The text of an instruction with its remark. -/
theorem words_text (op : Opcode) (m : Machine) :
    words (op.text m.bus m.regs.pc ++ (remark op m).text).toList =
      op.mnemonic.name.toList :: (op.mode.operandWords (m.bus.readWord (m.regs.pc + 1))
        (m.regs.pc + op.length.toUInt16) ++ (remark op m).words) := by
  rw [String.toList_append, Opcode.text, String.toList_append, Mode.toList_operandText,
    Remark.toList_text, words_append_flatMap _ (remark op m).isWord_words,
    words_append_flatMap _ (op.mode.isWord_operandWords _ _),
    words_of_isWord op.mnemonic.isWord_name]
  rfl

section
variable {m : Machine} {op : Opcode} (hop : Opcode.decode? (m.bus.read m.regs.pc) = some op)
include hop

/-- The words in the column of the bytes. -/
theorem words_bytesColumn : words (bytesColumn (traceLine m)) =
    (instructionBytes m.bus m.regs.pc op.length).map Hex.byteDigits := by
  have hbytes : m.codeBytes = instructionBytes m.bus m.regs.pc op.length := by
    simp only [Machine.codeBytes, disassemble, hop]
  rw [bytesColumn, (laidOut_traceLine m).words_bytes, hbytes]

/-- The words in the column of the instruction. -/
theorem words_textColumn : words (textColumn (traceLine m)) =
    op.mnemonic.name.toList :: (op.mode.operandWords (m.bus.readWord (m.regs.pc + 1))
      (m.regs.pc + op.length.toUInt16) ++ (remark op m).words) := by
  have htext : m.lineText = op.text m.bus m.regs.pc ++ (remark op m).text := by
    simp only [Machine.lineText, disassemble, hop, Option.map_some, Option.getD_some]
  obtain ⟨blanks, hcolumn⟩ := (laidOut_traceLine m).text
  rw [textColumn, hcolumn, words_append_replicate, htext, words_text]

end

/-! ### What a line shows -/

/-- The word after the first one that is this sign. -/
def wordAfter (sign : Char) (ws : List (List Char)) : Option (List Char) :=
  (ws.dropWhile (· ≠ [sign])).tail.head?

/-- The number in the first word that begins as an address does. -/
def plainAddress? (ws : List (List Char)) : Option Nat :=
  (ws.find? (·.head? = some '$')).bind fun w => Hex.number? w.tail

/-- The bytes of the instruction. -/
def shownBytes (line : String) : List (Option Nat) := (words (bytesColumn line)).map Hex.number?

/-- The address at which the instruction works: the operand itself in page zero
and of absolute addressing, before the last equals sign where the pointer is
indexed, and else after the at sign. -/
def shownAddress? (mode : Mode) (line : String) : Option Nat :=
  let ws := words (textColumn line)
  match mode with
  | .zeroPage | .absolute => plainAddress? ws
  | .indexedIndirect => (wordAfter '=' ws.reverse).bind Hex.number?
  | _ => (wordAfter '@' ws).bind Hex.number?

/-- The byte at that address. -/
def shownValue? (line : String) : Option Nat :=
  (words (textColumn line)).getLast?.bind Hex.number?

/-- The address to which a jump or a branch goes: after the equals sign of an
indirect jump, and else the operand itself. -/
def shownTarget? (mode : Mode) (line : String) : Option Nat :=
  let ws := words (textColumn line)
  match mode with
  | .indirect => (wordAfter '=' ws).bind Hex.number?
  | _ => plainAddress? ws

/-- A trace line shows the operand address of the instruction. -/
def Opcode.showsAddress (op : Opcode) : Bool :=
  op.mode.namesMemory && op.mode != .indirect && !op.mnemonic.goesToOperand

/-- A name is no sign and begins with a letter. -/
theorem Mnemonic.name_letters (mnemonic : Mnemonic) :
    ∃ a b c, mnemonic.name.toList = [a, b, c] ∧ a ≠ '$' := by
  cases mnemonic <;> exact ⟨_, _, _, rfl, by decide⟩

theorem byteDigits_ne_singleton (b : UInt8) (c : Char) : Hex.byteDigits b ≠ [c] := by
  simp [Hex.byteDigits]

theorem wordDigits_ne_singleton (a : Address) (c : Char) : Hex.wordDigits a ≠ [c] := by
  simp [Hex.wordDigits, Hex.byteDigits]

section
variable {m : Machine} {op : Opcode} (hop : Opcode.decode? (m.bus.read m.regs.pc) = some op)
include hop

/-- **The operand address.** What a line shows is what the mode resolves to,
and the byte there. -/
theorem shownAddress_traceLine (hs : op.showsAddress = true) :
    ∃ a, (op.mode.resolve m).operand = .address a ∧
      shownAddress? op.mode (traceLine m) = some a.toNat ∧
      shownValue? (traceLine m) = some (m.bus.read a).toNat := by
  obtain ⟨a, b, c, hname, ha⟩ := op.mnemonic.name_letters
  have hwords := words_textColumn hop
  rw [hname] at hwords
  obtain ⟨mnemonic, mode, base, documented⟩ := op
  simp only [shownAddress?, shownValue?, hwords, Bus.readWord_eq, Address.low_ofBytes, remark]
  cases mode
  case implied | accumulator | immediate | relative | indirect => cases hs
  case zeroPage =>
    refine ⟨_, rfl, ?_, ?_⟩
    · simp [Mode.operandWords, plainAddress?, ha, Hex.number?_byteDigits]
    · simp [Mode.operandWords, Remark.words, Hex.number?_byteDigits]
  case absolute =>
    have hgoes : mnemonic.goesToOperand = false := by
      simpa using (Bool.and_eq_true_iff.mp hs).2
    refine ⟨_, rfl, ?_, ?_⟩
    · simp [Mode.operandWords, plainAddress?, ha, Hex.number?_wordDigits]
    · simp [hgoes, Mode.operandWords, Remark.words, Hex.number?_byteDigits]
  case zeroPageX | zeroPageY =>
    refine ⟨_, rfl, ?_, ?_⟩
    · simp [Mode.operandWords, Remark.words, wordAfter, Hex.number?_byteDigits]
    · simp [Mode.operandWords, Remark.words, Hex.number?_byteDigits]
  case absoluteX | absoluteY =>
    refine ⟨_, rfl, ?_, ?_⟩
    · simp [Mode.operandWords, Remark.words, wordAfter, Hex.number?_wordDigits, Address.offset]
    · simp [Mode.operandWords, Remark.words, Hex.number?_byteDigits, Address.offset]
  case indexedIndirect =>
    refine ⟨_, rfl, ?_, ?_⟩
    · simp [Mode.operandWords, Remark.words, wordAfter, Hex.number?_wordDigits,
        byteDigits_ne_singleton]
    · simp [Mode.operandWords, Remark.words, Hex.number?_byteDigits]
  case indirectIndexed =>
    refine ⟨_, rfl, ?_, ?_⟩
    · simp [Mode.operandWords, Remark.words, wordAfter, Hex.number?_wordDigits, Address.offset,
        wordDigits_ne_singleton]
    · simp [Mode.operandWords, Remark.words, Hex.number?_byteDigits, Address.offset]

omit hop in
/-- The bytes of an instruction, as the processor reads them. -/
theorem map_instructionBytes (m : Machine) (length : UInt8) :
    (instructionBytes m.bus m.regs.pc length).map UInt8.toNat =
      (List.range length.toNat).map m.codeByte := by
  have hlt := length.toNat_lt
  rw [instructionBytes, List.map_map]
  refine List.map_congr_left fun k hk => ?_
  have hk' : k < length.toNat := List.mem_range.mp hk
  refine m.bus.toNat_read ?_
  rw [UInt16.toNat_add, UInt16.toNat_ofNat_of_lt' (show k < 65536 by omega)]

/-- The bytes that a line shows. -/
theorem shownBytes_traceLine : shownBytes (traceLine m) =
    (instructionBytes m.bus m.regs.pc op.length).map fun b => some b.toNat := by
  rw [shownBytes, words_bytesColumn hop, List.map_map]
  exact List.map_congr_left fun b _ => Hex.number?_byteDigits b

/-- A plain operand address is the target of a jump or a branch. -/
theorem shownTarget_traceLine {target : Address}
    (ht : op.mode.operandWords (m.bus.readWord (m.regs.pc + 1)) (m.regs.pc + op.length.toUInt16) =
      ['$' :: Hex.wordDigits target]) (hm : op.mode ≠ .indirect) :
    shownTarget? op.mode (traceLine m) = some target.toNat := by
  obtain ⟨a, b, c, hname, ha⟩ := op.mnemonic.name_letters
  have hplain : plainAddress? (words (textColumn (traceLine m))) = some target.toNat := by
    rw [words_textColumn hop, hname, ht]
    simp [plainAddress?, ha, Hex.number?_wordDigits]
  unfold shownTarget?
  split
  · contradiction
  · exact hplain

theorem shownTarget_indirect (hm : op.mode = .indirect) :
    shownTarget? op.mode (traceLine m) =
      some (m.bus.samePageWord (m.bus.readWord (m.regs.pc + 1))).toNat := by
  obtain ⟨a, b, c, hname, ha⟩ := op.mnemonic.name_letters
  have hwords := words_textColumn hop
  rw [hname, hm] at hwords
  simp only [shownTarget?, hm, hwords, remark]
  simp [Mode.operandWords, Remark.words, wordAfter, Hex.number?_wordDigits]

end

/-! ### The bytes that a step consumes -/

/-- The operand of an instruction, taken from its bytes after the opcode: all of
them and no more. -/
def Mode.operandFrom (mode : Mode) (m : Machine) (bytes : List UInt8) : Option Resolved :=
  match mode, bytes with
  | .implied, [] => some ⟨.implied, false⟩
  | .accumulator, [] => some ⟨.accumulator, false⟩
  | .immediate, [b] => some ⟨.immediate b, false⟩
  | .zeroPage, [b] => some ⟨.address b.toUInt16, false⟩
  | .zeroPageX, [b] => some ⟨.address (b + m.regs.x).toUInt16, false⟩
  | .zeroPageY, [b] => some ⟨.address (b + m.regs.y).toUInt16, false⟩
  | .absolute, [lo, hi] => some ⟨.address (Address.ofBytes lo hi), false⟩
  | .absoluteX, [lo, hi] => some (.indexed (Address.ofBytes lo hi) m.regs.x)
  | .absoluteY, [lo, hi] => some (.indexed (Address.ofBytes lo hi) m.regs.y)
  | .relative, [b] => some ⟨.relative b, false⟩
  | .indirect, [lo, hi] => some ⟨.address (m.bus.samePageWord (Address.ofBytes lo hi)), false⟩
  | .indexedIndirect, [b] => some ⟨.address (m.bus.zeroPageWord (b + m.regs.x)), false⟩
  | .indirectIndexed, [b] => some (.indexed (m.bus.zeroPageWord b) m.regs.y)
  | _, _ => none

theorem Mode.operandFrom_tail (mode : Mode) (m : Machine) :
    mode.operandFrom m (instructionBytes m.bus m.regs.pc mode.length).tail =
      some (mode.resolve m) := by
  cases mode <;> rfl

/-- The first byte is the opcode. -/
theorem head?_instructionBytes (m : Machine) (mode : Mode) :
    (instructionBytes m.bus m.regs.pc mode.length).head? = some (m.bus.read m.regs.pc) := by
  have hpc : m.regs.pc + UInt16.ofNat 0 = m.regs.pc := UInt16.add_zero _
  cases mode <;> exact congrArg (some <| m.bus.read ·) hpc

/-- What a line shows of the machine before the instruction. -/
structure Opcode.ShownBy (op : Opcode) (m : Machine) (line : String) : Prop where
  /-- The bytes from PC on, as many as the instruction is long. The processor
  takes the opcode from the first one and the operand from all the others. -/
  bytes : ∃ bytes : List UInt8, shownBytes line = bytes.map (fun b => some b.toNat) ∧
    bytes.map UInt8.toNat = (List.range op.length.toNat).map m.codeByte ∧
    bytes.head?.bind decode? = some op ∧
    op.mode.operandFrom m bytes.tail = some (op.mode.resolve m)
  /-- The operand address, and the byte there. -/
  address : op.showsAddress = true → ∃ a, (op.mode.resolve m).operand = .address a ∧
    shownAddress? op.mode line = some a.toNat ∧
    shownValue? line = some (m.bus.read a).toNat

/-- **What a trace line shows.** -/
theorem Opcode.shownBy_traceLine {m : Machine} {op : Opcode}
    (hop : decode? (m.bus.read m.regs.pc) = some op) : op.ShownBy m (traceLine m) where
  bytes := by
    refine ⟨instructionBytes m.bus m.regs.pc op.length, shownBytes_traceLine hop,
      map_instructionBytes m op.length, ?_, op.mode.operandFrom_tail m⟩
    rw [Opcode.length, head?_instructionBytes]
    exact hop
  address := shownAddress_traceLine hop

/-- What a line, and the length that a listing tells, say about PC after the
instruction. -/
structure Opcode.Foretells (op : Opcode) (m : Machine) (line : String) (pc : Address) : Prop where
  jump : op.mnemonic = .jmp ∨ op.mnemonic = .jsr → shownTarget? op.mode line = some pc.toNat
  branch : op.mnemonic.taken m.regs = true → shownTarget? op.mode line = some pc.toNat
  others : op.mnemonic.isJump = false → op.mnemonic.taken m.regs = false →
    pc.toNat = (m.regs.pc.toNat + (disassemble m.bus m.regs.pc).2.toNat) % 65536

namespace Opcode

section
variable {m n : Machine} {op : Opcode} {cycles : Cycles}
  (hop : decode? (m.bus.read m.regs.pc) = some op) (he : op.execute m = some (n, cycles))
include hop he

theorem shownTarget_of_jumps (hj : op.mnemonic = .jmp ∨ op.mnemonic = .jsr) :
    shownTarget? op.mode (traceLine m) = some n.regs.pc.toNat := by
  have hnext := execute_nextPc hop he
  have hword : (m.bus.readWord (m.regs.pc + 1)).toNat = m.codeWord := by
    rw [Bus.readWord_eq, m.toNat_codeWord]
  have hmode := jumpsByMode_of_decode? hop
  by_cases hindirect : op.mode = .indirect
  · have hjmp : op.mnemonic = .jmp := by
      rcases hj with hj | hj
      · exact hj
      · rw [jumpsByMode, hj, hindirect] at hmode
        cases hmode
    rw [shownTarget_indirect hop hindirect]
    simp only [nextPc, hjmp, hindirect, ↓reduceIte] at hnext
    rw [m.bus.toNat_samePageWord hword, ← Int.natCast_inj.mp hnext]
  · have habsolute : op.mode = .absolute := by
      rcases hj with hj | hj <;> simpa [jumpsByMode, hj, hindirect] using hmode
    have hwords : op.mode.operandWords (m.bus.readWord (m.regs.pc + 1))
        (m.regs.pc + op.length.toUInt16) =
          ['$' :: Hex.wordDigits (m.bus.readWord (m.regs.pc + 1))] := by
      rw [habsolute]
      rfl
    have hcode : op.nextPc m = m.codeWord := by
      rcases hj with hj | hj <;> simp [nextPc, hj, hindirect]
    rw [shownTarget_traceLine hop hwords hindirect, hword,
      ← Int.natCast_inj.mp (hnext.trans hcode)]

theorem shownTarget_of_taken (ht : op.mnemonic.taken m.regs = true) :
    shownTarget? op.mode (traceLine m) = some n.regs.pc.toNat := by
  have hnext := execute_nextPc hop he
  have hj : op.mnemonic.isJump = false := by
    revert ht
    cases op.mnemonic <;> first | exact fun _ => rfl | exact fun h => nomatch h
  have hrelative : op.mode = .relative := by
    rcases op.mnemonic.action_cases hj with ⟨-, hnever⟩ | ⟨flag, expected, haction, -⟩
    · cases ht.symm.trans (hnever m.regs)
    · have hfits := fits_of_decode? hop
      rw [haction] at hfits
      exact beq_iff_eq.mp hfits
  have hlength : op.length = 2 := by rw [length, hrelative]; rfl
  have hwords : op.mode.operandWords (m.bus.readWord (m.regs.pc + 1))
      (m.regs.pc + op.length.toUInt16) = ['$' :: Hex.wordDigits
        (Address.offsetSigned (m.regs.pc + 2) (m.bus.read (m.regs.pc + 1))).1] := by
    rw [hrelative, hlength, Bus.readWord_eq]
    simp only [Mode.operandWords, Address.low_ofBytes]
    rfl
  have htarget := Address.toNat_offsetSigned (m.regs.pc + 2) (m.bus.read (m.regs.pc + 1))
  rw [nextPc_of_not_isJump hj, if_pos ht] at hnext
  rw [m.toNat_codeByte_one, UInt16.toNat_add, show (2 : UInt16).toNat = 2 from rfl] at htarget
  have hpc : (Address.offsetSigned (m.regs.pc + 2) (m.bus.read (m.regs.pc + 1))).1.toNat =
      n.regs.pc.toNat := by omega
  rw [shownTarget_traceLine hop hwords (by rw [hrelative]; exact Mode.noConfusion), hpc]

/-- **What a trace line foretells.** -/
theorem foretells_traceLine : op.Foretells m (traceLine m) n.regs.pc where
  jump := shownTarget_of_jumps hop he
  branch := shownTarget_of_taken hop he
  others hj ht := by
    have hnext := execute_nextPc hop he
    rw [nextPc_of_not_isJump hj, if_neg (by rw [ht]; exact Bool.false_ne_true)] at hnext
    have hlength : (disassemble m.bus m.regs.pc).2 = op.length := by simp only [disassemble, hop]
    rw [hlength]
    omega

end

end Opcode

namespace Computer

/-- **A trace line tells the truth about the next step.** Neither it nor a
listing changes anything. It shows the bytes of the instruction at PC, the
address at which the instruction works and the byte there; and a step that
executes the instruction leads where the line says. -/
theorem trace_truth :
    (∀ (c : Computer) (pc : Address),
      (c.answer .traceLine).2 = c ∧ (c.answer (.disassemble pc)).2 = c) ∧
    (∀ (m : Machine) (op : Opcode), Opcode.decode? (m.bus.read m.regs.pc) = some op →
      op.ShownBy m (traceLine m)) ∧
    ∀ c c' : Computer, c.bus.AtRest →
      c.started.cpu.lines.next (c.found.regs.isSet Flag.irqDisable) = none →
      c.step = (.ok true, c') →
      ∃ op, Opcode.decode? (c.found.bus.read c.found.regs.pc) = some op ∧
        op.Foretells c.found (traceLine c.found) c'.cpu.regs.pc := by
  refine ⟨fun c pc => ⟨rfl, rfl⟩, fun m op hop => Opcode.shownBy_traceLine hop,
    fun c c' hs hi h => ?_⟩
  obtain ⟨op, n, cycles, hop, he, hregs, -⟩ := step_ok_instruction hs hi h
  refine ⟨op, hop, ?_⟩
  rw [hregs]
  exact Opcode.foretells_traceLine hop he

/-- `LDA ($FF),Y`: the pointer takes its high byte from `$0000`. -/
def loadThroughWrap : Machine where
  regs := { Registers.powerOn {} with pc := 0x0200, y := 0x01 }
  bus := ((((Bus.withMapping .flat).load 0x0200 [0xB1, 0xFF]).poke 0x00FF 0xF0).poke 0x0000
    0x02).poke 0x02F1 0x77

theorem trace_truth_wrap :
    shownAddress? .indirectIndexed (traceLine loadThroughWrap) = some 0x02F1 ∧
    shownValue? (traceLine loadThroughWrap) = some 0x77 ∧
    shownTarget? .indirect (traceLine jumpAtTop.found) = some 0x1034 ∧
    jumpAtTop.step.2.cpu.regs.pc = 0x1034 := by
  have hload : Opcode.decode? (loadThroughWrap.bus.read loadThroughWrap.regs.pc) =
      some ⟨.lda, .indirectIndexed, 5, true⟩ := by decide +kernel
  obtain ⟨a, ha, haddress, hvalue⟩ := (trace_truth.2.1 _ _ hload).address rfl
  have hresolve : (Mode.resolve .indirectIndexed loadThroughWrap).operand = .address 0x02F1 := by
    decide +kernel
  cases ha.symm.trans hresolve
  have hstep : jumpAtTop.step = (.ok true, jumpAtTop.step.2) := Prod.ext rfl rfl
  obtain ⟨op, hop, hforetells⟩ := trace_truth.2.2 jumpAtTop _ ⟨rfl, rfl⟩ rfl hstep
  have hjmp : Opcode.decode? (jumpAtTop.found.bus.read jumpAtTop.found.regs.pc) =
      some ⟨.jmp, .indirect, 5, true⟩ := by decide +kernel
  cases hop.symm.trans hjmp
  have hpc : jumpAtTop.step.2.cpu.regs.pc = 0x1034 := by decide +kernel
  have htarget := hforetells.jump (.inl rfl)
  rw [hpc] at htarget
  exact ⟨haddress, hvalue.trans (by decide +kernel), htarget, hpc⟩

end Computer

end Cpu6502
