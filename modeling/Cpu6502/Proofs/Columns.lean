/-
# The columns of a trace line

The columns of a trace line are padded, and padding is a least width only: they
stand where they should because nothing that is padded is ever too long. Bytes
take at most eight of nine places, and the text of an instruction with its remark
at most thirty of thirty-two. So the layout is the same whatever the processor
finds at PC (`Machine.LaidOut`). The cycle count comes last and may have any
number of digits.

Digits and bytes are read back from their columns, so a line determines the machine
as far as it shows it (`traceLine_columns`).

Key definitions: `Machine.codeBytes`, `Machine.lineText`, `Machine.LaidOut`.
Key theorems: `toList_traceLine`, `laidOut_traceLine`,
`Machine.LaidOut.words_bytes`, `traceLine_columns`.
-/
import Cpu6502.Listing
import Cpu6502.Proofs.DocumentedOnly
import Cpu6502.Proofs.Reading

namespace Cpu6502

/-! ### Digits determine numbers -/

theorem Hex.byteDigits_injective {b c : UInt8} (h : byteDigits b = byteDigits c) : b = c := by
  have hnumber := congrArg number? h
  rw [number?_byteDigits, number?_byteDigits] at hnumber
  exact UInt8.toNat_inj.mp (Option.some_inj.mp hnumber)

theorem Hex.wordDigits_injective {a b : Address} (h : wordDigits a = wordDigits b) : a = b := by
  have hnumber := congrArg number? h
  rw [number?_wordDigits, number?_wordDigits] at hnumber
  exact UInt16.toNat_inj.mp (Option.some_inj.mp hnumber)

theorem toDigits_ten_injective {m n : Nat} (h : Nat.toDigits 10 m = Nat.toDigits 10 n) : m = n := by
  have hnumber := congrArg (Nat.ofDigitChars 10 · 0) h
  simpa using hnumber

/-! ### Bytes and texts -/

theorem isWord_byteDigits (b : UInt8) : IsWord (Hex.byteDigits b) :=
  ⟨List.cons_ne_nil _ _, Hex.blank_notMem_byteDigits b⟩

theorem toList_bytesText (b : UInt8) (bs : List UInt8) : (bytesText (b :: bs)).toList =
    Hex.byteDigits b ++ (bs.map Hex.byteDigits).flatMap (' ' :: ·) := by
  induction bs generalizing b with
  | nil => simp [bytesText]
  | cons c bs ih => simp [bytesText, ih]

/-- Bytes are read back. -/
theorem words_bytesText (bs : List UInt8) :
    words (bytesText bs).toList = bs.map Hex.byteDigits := by
  cases bs with
  | nil => rfl
  | cons b bs =>
    have hwords : ∀ w ∈ bs.map Hex.byteDigits, IsWord w := by simp [isWord_byteDigits]
    rw [toList_bytesText, words_append_flatMap _ hwords, words_of_isWord (isWord_byteDigits b)]
    rfl

/-- The bytes of an instruction tell its length. -/
theorem instructionBytes_inj {b d : Bus} {pc pc' : Address} {length length' : UInt8}
    (h : instructionBytes b pc length = instructionBytes d pc' length') :
    length = length' ∧
      ∀ i < length.toNat, b.read (pc + UInt16.ofNat i) = d.read (pc' + UInt16.ofNat i) := by
  have hlength : length = length' := by
    simpa [instructionBytes, UInt8.toNat_inj] using congrArg List.length h
  subst hlength
  exact ⟨rfl, fun i hi => List.map_inj_left.mp h i (List.mem_range.mpr hi)⟩

theorem length_bytesText (bs : List UInt8) : (bytesText bs).length = 3 * bs.length - 1 := by
  induction bs with
  | nil => rfl
  | cons b bs ih =>
    cases bs with
    | nil => exact Hex.length_byte b
    | cons c bs =>
      simp only [bytesText, String.length_append, Hex.length_byte, ih, List.length_cons,
        show " ".length = 1 from rfl]
      omega

theorem length_instructionBytes (m : Machine) (mode : Mode) :
    (bytesText (instructionBytes m.bus m.regs.pc mode.length)).length ≤ 9 := by
  rw [length_bytesText, instructionBytes, List.length_map, List.length_range]
  cases mode <;> decide

theorem Mode.length_operandText (mode : Mode) (word : UInt16) (next : Address) :
    (mode.operandText word next).length ≤ 8 := by
  cases mode <;>
    simp only [operandText, Address.text, String.length_append, Hex.length_byte,
      Hex.length_word] <;> decide

theorem Remark.length_text (r : Remark) : r.text.length ≤ 19 := by
  cases r <;> simp only [text, String.length_append, Hex.length_byte, Hex.length_word] <;> decide

/-- No instruction is too long for its column. -/
theorem length_text (op : Opcode) (m : Machine) :
    (op.text m.bus m.regs.pc ++ (remark op m).text).length ≤ 32 := by
  have hname : op.mnemonic.name.length = 3 := by cases op.mnemonic <;> rfl
  have hoperand := op.mode.length_operandText (m.bus.readWord (m.regs.pc + 1))
    (m.regs.pc + op.length.toUInt16)
  have hremark := (remark op m).length_text
  rw [String.length_append, Opcode.text, String.length_append]
  omega

/-! ### The parts of a line -/

namespace Machine

/-- The bytes of the instruction at PC; one byte where there is none. -/
def codeBytes (m : Machine) : List UInt8 :=
  instructionBytes m.bus m.regs.pc (disassemble m.bus m.regs.pc).2

/-- What a listing shows at PC, and what a trace line adds to it. -/
def lineText (m : Machine) : String :=
  (disassemble m.bus m.regs.pc).1 ++
    ((Opcode.decode? (m.bus.read m.regs.pc)).map fun op => (remark op m).text).getD ""

/-- The mark of an undocumented opcode, and a blank before any other byte. -/
def lineMarker (m : Machine) : Char := if m.atUndocumented then '*' else ' '

theorem length_bytesText_codeBytes (m : Machine) : (bytesText m.codeBytes).length ≤ 9 := by
  cases hop : Opcode.decode? (m.bus.read m.regs.pc) with
  | some op =>
    simp only [codeBytes, disassemble, hop]
    exact length_instructionBytes m op.mode
  | none =>
    simp only [codeBytes, disassemble, hop]
    exact length_instructionBytes m .implied

/-- No text is too long for its column. -/
theorem length_lineText (m : Machine) : m.lineText.length ≤ 32 := by
  cases hop : Opcode.decode? (m.bus.read m.regs.pc) with
  | some op =>
    simp only [lineText, disassemble, hop]
    exact length_text op m
  | none =>
    simp only [lineText, disassemble, hop, undefinedText, String.length_append, Hex.length_byte,
      Option.map_none, Option.getD_none]
    decide

end Machine

/-- A line is its columns, one after the other. -/
theorem toList_traceLine (m : Machine) : (traceLine m).toList =
    Hex.wordDigits m.regs.pc ++ ' ' :: ' ' :: ((padRight 9 (bytesText m.codeBytes)).toList ++
      ([m.lineMarker] ++ ((padRight 32 m.lineText).toList ++ m.regs.summary.toList))) := by
  cases hop : Opcode.decode? (m.bus.read m.regs.pc) with
  | some op =>
    cases hd : op.documented <;>
      simp [traceLine, Machine.codeBytes, Machine.lineText, Machine.lineMarker,
        Machine.atUndocumented, Opcode.marker, disassemble, hop, hd, Hex.wordDigits]
  | none =>
    simp [traceLine, Machine.codeBytes, Machine.lineText, Machine.lineMarker,
      Machine.atUndocumented, disassemble, hop, Hex.wordDigits]

theorem toList_summary (r : Registers) : r.summary.toList =
    'A' :: ':' :: (Hex.byteDigits r.a ++ ' ' :: 'X' :: ':' :: (Hex.byteDigits r.x ++
      ' ' :: 'Y' :: ':' :: (Hex.byteDigits r.y ++ ' ' :: 'P' :: ':' :: (Hex.byteDigits r.status ++
        ' ' :: 'S' :: 'P' :: ':' :: (Hex.byteDigits r.sp ++
          ' ' :: 'C' :: 'Y' :: 'C' :: ':' :: Nat.toDigits 10 r.totalCycles.toNat))))) := by
  -- with the names of the registers as variables, so that their letters are not looked at
  have hparts (a x y p s c : String) :
      (a ++ Hex.byte r.a ++ x ++ Hex.byte r.x ++ y ++ Hex.byte r.y ++ p ++ Hex.byte r.status ++
        s ++ Hex.byte r.sp ++ c ++ toString r.totalCycles.toNat).toList =
      a.toList ++ (Hex.byteDigits r.a ++ (x.toList ++ (Hex.byteDigits r.x ++ (y.toList ++
        (Hex.byteDigits r.y ++ (p.toList ++ (Hex.byteDigits r.status ++ (s.toList ++
          (Hex.byteDigits r.sp ++ (c.toList ++ Nat.toDigits 10 r.totalCycles.toNat)))))))))) := by
    simp only [String.toList_append, Hex.toList_byte, Nat.toString_eq_repr, Nat.toList_repr,
      List.append_assoc]
  exact hparts "A:" " X:" " Y:" " P:" " SP:" " CYC:"

/-! ### The layout -/

/-- Columns of the widths that a trace line has. -/
theorem columns_of_parts {line : String} {pc bytes marker text rest : List Char}
    (hpc : pc.length = 4) (hbytes : bytes.length = 9) (hmarker : marker.length = 1)
    (htext : text.length = 32)
    (hline : line.toList = pc ++ ' ' :: ' ' :: (bytes ++ (marker ++ (text ++ rest)))) :
    column line 0 4 = pc ∧ column line 6 9 = bytes ∧ column line 15 1 = marker ∧
      column line 16 32 = text ∧ ∀ n, line.toList.drop (48 + n) = rest.drop n := by
  have h6 : line.toList.drop 6 = bytes ++ (marker ++ (text ++ rest)) := by
    rw [hline, List.drop_append, hpc, List.drop_of_length_le (by omega)]
    rfl
  have h15 : line.toList.drop 15 = marker ++ (text ++ rest) := by
    rw [← List.drop_drop (i := 9) (j := 6), h6, List.drop_left' hbytes]
  have h16 : line.toList.drop 16 = text ++ rest := by
    rw [← List.drop_drop (i := 1) (j := 15), h15, List.drop_left' hmarker]
  have h48 : line.toList.drop 48 = rest := by
    rw [← List.drop_drop (i := 32) (j := 16), h16, List.drop_left' htext]
  refine ⟨?_, ?_, ?_, ?_, fun n => ?_⟩
  · rw [column, List.drop_zero, hline, List.take_left' hpc]
  · rw [column, h6, List.take_left' hbytes]
  · rw [column, h15, List.take_left' hmarker]
  · rw [column, h16, List.take_left' htext]
  · rw [← List.drop_drop, h48]

/-- What stands where in a line about this machine. -/
structure Machine.LaidOut (m : Machine) (line : String) : Prop where
  /-- The four digits of PC. -/
  pc : column line 0 4 = Hex.wordDigits m.regs.pc
  /-- The bytes of the instruction with a blank between them, and blanks after
  them. -/
  bytes : ∃ blanks, column line 6 9 = (bytesText m.codeBytes).toList ++ List.replicate blanks ' '
  marker : column line 15 1 = [m.lineMarker]
  /-- The text of the instruction, and blanks after it. -/
  text : ∃ blanks, column line 16 32 = m.lineText.toList ++ List.replicate blanks ' '
  /-- Here the registers begin, each after its name. -/
  label : column line 48 2 = ['A', ':']
  a : column line 50 2 = Hex.byteDigits m.regs.a
  x : column line 55 2 = Hex.byteDigits m.regs.x
  y : column line 60 2 = Hex.byteDigits m.regs.y
  status : column line 65 2 = Hex.byteDigits m.regs.status
  sp : column line 71 2 = Hex.byteDigits m.regs.sp
  /-- The cycle count goes on to the end. -/
  cycles : line.toList.drop 78 = Nat.toDigits 10 m.regs.totalCycles.toNat

/-- **Every line is laid out alike.** -/
theorem laidOut_traceLine (m : Machine) : m.LaidOut (traceLine m) := by
  have hbytes := length_padRight m.length_bytesText_codeBytes
  have htext := length_padRight m.length_lineText
  obtain ⟨hpc, hcode, hmarker, hshown, hrest⟩ := columns_of_parts rfl
    (String.length_toList.trans hbytes) rfl (String.length_toList.trans htext) (toList_traceLine m)
  rw [toList_padRight] at hcode hshown
  have hregs (n width : Nat) :
      column (traceLine m) (48 + n) width = (m.regs.summary.toList.drop n).take width := by
    rw [column, hrest]
  rw [toList_summary] at hregs hrest
  exact ⟨hpc, ⟨_, hcode⟩, hmarker, ⟨_, hshown⟩, hregs 0 2, hregs 2 2, hregs 7 2, hregs 12 2,
    hregs 17 2, hregs 23 2, hrest 30⟩

namespace Machine.LaidOut

variable {m n : Machine} {line : String}

/-- The bytes are read back. -/
theorem words_bytes (h : m.LaidOut line) :
    words (column line 6 9) = m.codeBytes.map Hex.byteDigits := by
  obtain ⟨blanks, hbytes⟩ := h.bytes
  rw [hbytes, words_append_replicate, words_bytesText]

theorem codeBytes_eq (h : m.LaidOut line) (h' : n.LaidOut line) : m.codeBytes = n.codeBytes := by
  have heq : m.codeBytes.map Hex.byteDigits = n.codeBytes.map Hex.byteDigits := by
    rw [← h.words_bytes, ← h'.words_bytes]
  exact (List.map_inj_right fun _ _ => Hex.byteDigits_injective).mp heq

end Machine.LaidOut

/-- **The layout of trace lines is fixed, and they determine what they show.** PC,
the bytes and the text of the instruction, the mark of an undocumented opcode and
the registers each have their columns, whatever the byte at PC and the operand
are, and no text is longer than its column. So two machines with the same line
agree in PC, in the length and the bytes of the instruction there, in A, X, Y, P
as programs see it and SP, and in the cycle count. -/
theorem traceLine_columns :
    (∀ m : Machine, m.LaidOut (traceLine m) ∧ m.lineText.length ≤ 32) ∧
    ∀ m n : Machine, traceLine m = traceLine n →
      m.regs.pc = n.regs.pc ∧
      (disassemble m.bus m.regs.pc).2 = (disassemble n.bus n.regs.pc).2 ∧
      (∀ i < (disassemble m.bus m.regs.pc).2.toNat,
        m.bus.read (m.regs.pc + UInt16.ofNat i) = n.bus.read (n.regs.pc + UInt16.ofNat i)) ∧
      m.regs.a = n.regs.a ∧ m.regs.x = n.regs.x ∧ m.regs.y = n.regs.y ∧
      m.regs.status = n.regs.status ∧ m.regs.sp = n.regs.sp ∧
      m.regs.totalCycles = n.regs.totalCycles := by
  refine ⟨fun m => ⟨laidOut_traceLine m, m.length_lineText⟩, fun m n heq => ?_⟩
  have hm := laidOut_traceLine m
  have hn := laidOut_traceLine n
  rw [heq] at hm
  obtain ⟨hlength, hbytes⟩ := instructionBytes_inj (hm.codeBytes_eq hn)
  have hbyte {start : Nat} {b c : UInt8} (hb : column (traceLine n) start 2 = Hex.byteDigits b)
      (hc : column (traceLine n) start 2 = Hex.byteDigits c) : b = c :=
    Hex.byteDigits_injective (hb.symm.trans hc)
  exact ⟨Hex.wordDigits_injective (hm.pc.symm.trans hn.pc), hlength, hbytes, hbyte hm.a hn.a,
    hbyte hm.x hn.x, hbyte hm.y hn.y, hbyte hm.status hn.status, hbyte hm.sp hn.sp,
    UInt64.toNat_inj.mp (toDigits_ten_injective (hm.cycles.symm.trans hn.cycles))⟩

/-- `SLO ($FF),Y`, the longest text there is, late in a long run. -/
def longestLine : Machine where
  regs := { Registers.powerOn {} with pc := 0xC000, y := 0x01, totalCycles := 0xFFFFFFFFFFFFFFFF }
  bus := ((((Bus.withMapping .flat).load 0xC000 [0x13, 0xFF]).poke 0x00FF 0xF0).poke 0x0000
    0x02).poke 0x02F1 0x77

/-- The same, but for what no line shows: the unused bit of P as stored, the last
result and a byte elsewhere. -/
def sameLine : Machine where
  regs := { longestLine.regs with p := 0x04, lastResult := 0x55 }
  bus := longestLine.bus.poke 0x8000 0x99

theorem traceLine_columns_longest :
    column (traceLine longestLine) 15 32 = "*SLO ($FF),Y = 02F0 @ 02F1 = 77 ".toList ∧
      longestLine.LaidOut (traceLine longestLine) ∧
      traceLine longestLine = traceLine sameLine ∧
      longestLine.bus.read 0xC001 = sameLine.bus.read 0xC001 ∧
      longestLine.regs.status = sameLine.regs.status ∧
      longestLine.regs.totalCycles = sameLine.regs.totalCycles := by
  have hline : traceLine longestLine = traceLine sameLine := by decide +kernel
  obtain ⟨-, -, hbytes, -, -, -, hstatus, -, hcycles⟩ := traceLine_columns.2 _ _ hline
  exact ⟨by decide +kernel, (traceLine_columns.1 _).1, hline, hbytes 1 (by decide +kernel), hstatus,
    hcycles⟩

end Cpu6502
