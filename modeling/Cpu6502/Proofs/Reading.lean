/-
# Reading listings back

A line of a listing has columns, a column has words with blanks between them,
and a word shows a number in hexadecimal digits. Here each is found in the
characters: a column by its place in the line (`column`), words at the blanks
(`words`), a number by its digits (`Hex.number?`). What was written is read
back, however many blanks follow (`words_append_replicate`).

Key definitions: `Hex.number?`, `words`, `column`.
Key theorems: `Hex.number?_byteDigits`, `Hex.number?_wordDigits`,
`words_append_blank`, `words_append_replicate`.
-/
import Cpu6502.Hex

namespace Cpu6502

/-! ### Numbers -/

namespace Hex

/-- The value of a digit. -/
def value? (c : Char) : Option Nat :=
  if '0' ≤ c ∧ c ≤ '9' then some (c.toNat - 48)
  else if 'A' ≤ c ∧ c ≤ 'F' then some (c.toNat - 55)
  else none

/-- The number that digits show. -/
def number? : List Char → Option Nat
  | [] => none
  | c :: cs => (c :: cs).foldlM (fun n c => (value? c).map (16 * n + ·)) 0

/-- The four digits of a word. -/
def wordDigits (a : Address) : List Char := byteDigits (Address.high a) ++ byteDigits (Address.low a)

theorem value?_digit : ∀ n < 16, value? (digit n) = some n := by decide

theorem digit_ne_blank : ∀ n < 16, digit n ≠ ' ' := by decide

theorem number?_byteDigits (b : UInt8) : number? (byteDigits b) = some b.toNat := by
  have hlt := b.toNat_lt
  simp only [byteDigits, number?, List.foldlM_cons, List.foldlM_nil,
    value?_digit (b.toNat / 16) (by omega), value?_digit (b.toNat % 16) (by omega),
    Option.map_some, Option.bind_eq_bind, Option.bind_some, Option.pure_def]
  congr 1
  omega

theorem number?_wordDigits (a : Address) : number? (wordDigits a) = some a.toNat := by
  have hhigh := Address.toNat_high a
  have hlow := Address.toNat_low a
  have hlt := a.toNat_lt
  simp only [wordDigits, byteDigits, List.cons_append, List.nil_append, number?, List.foldlM_cons,
    List.foldlM_nil, value?_digit ((Address.high a).toNat / 16) (by omega),
    value?_digit ((Address.high a).toNat % 16) (by omega),
    value?_digit ((Address.low a).toNat / 16) (by omega),
    value?_digit ((Address.low a).toNat % 16) (by omega),
    Option.map_some, Option.bind_eq_bind, Option.bind_some, Option.pure_def]
  congr 1
  omega

theorem blank_notMem_byteDigits (b : UInt8) : ' ' ∉ byteDigits b := by
  have hlt := b.toNat_lt
  simp only [byteDigits, List.mem_cons, List.not_mem_nil, or_false, not_or]
  exact ⟨(digit_ne_blank _ (by omega)).symm, (digit_ne_blank _ (by omega)).symm⟩

end Hex

/-! ### Words -/

/-- The words of a text. -/
def words (text : List Char) : List (List Char) := (text.splitOn ' ').filter (· ≠ [])

/-- The characters are one word. -/
def IsWord (w : List Char) : Prop := w ≠ [] ∧ ' ' ∉ w

/-- Words end at a blank. -/
theorem words_append_blank (text rest : List Char) :
    words (text ++ ' ' :: rest) = words text ++ words rest := by
  rw [words, List.splitOn_append_cons_self, List.filter_append]
  rfl

theorem words_of_isWord {w : List Char} (h : IsWord w) : words w = [w] := by
  rw [words, List.splitOn_eq_singleton h.2]
  simp [h.1]

/-- Blanks at the end make no words. -/
theorem words_append_replicate (text : List Char) (n : Nat) :
    words (text ++ List.replicate n ' ') = words text := by
  induction n generalizing text with
  | zero => simp
  | succ n ih =>
    have hblanks : words (List.replicate n ' ') = [] := ih []
    rw [List.replicate_succ, words_append_blank, hblanks, List.append_nil]

/-- Words that are written with a blank before each are read back. -/
theorem words_append_flatMap (text : List Char) {ws : List (List Char)} (h : ∀ w ∈ ws, IsWord w) :
    words (text ++ ws.flatMap (' ' :: ·)) = words text ++ ws := by
  induction ws generalizing text with
  | nil => simp
  | cons w ws ih =>
    obtain ⟨hw, hws⟩ := List.forall_mem_cons.mp h
    rw [List.flatMap_cons, List.cons_append, words_append_blank, ih w hws, words_of_isWord hw]
    rfl

/-! ### Columns -/

theorem toList_padRight (width : Nat) (text : String) : (padRight width text).toList =
    text.toList ++ List.replicate (width - text.length) ' ' := by
  simp [padRight]

/-- Text that is not too long fills its column. -/
theorem length_padRight {width : Nat} {text : String} (h : text.length ≤ width) :
    (padRight width text).length = width := by
  rw [← String.length_toList, toList_padRight, List.length_append, List.length_replicate,
    String.length_toList]
  omega

/-- The column of this width that begins after so many characters. -/
def column (line : String) (start width : Nat) : List Char := (line.toList.drop start).take width

end Cpu6502
