/-
# A memory of 65536 bytes

The store behind the bus: one byte for every 16-bit physical slot. It is a
value, so an older memory stays what it was after a write. The cells form a
binary tree with the low bit of the slot number deciding first; nobody looks
at the tree, since two memories with the same bytes are equal (`Memory.ext`).

Key definitions: `Memory.get`, `Memory.set`, `Memory.zeroed`.
Key theorems: `Memory.get_set`, `Memory.get_zeroed`, `Memory.ext`.
-/

namespace Cpu6502

/-- A tree of bytes, `n` levels deep. Even-numbered cells are in the left
half, odd ones in the right. -/
inductive Cells : Nat → Type
  | leaf (byte : UInt8) : Cells 0
  | fork {n : Nat} (even odd : Cells n) : Cells (n + 1)

namespace Cells

/-- How many cells a tree of this depth has. -/
def count : Nat → Nat
  | 0 => 1
  | n + 1 => 2 * count n

/-- All cells hold the same byte. -/
def replicate : (n : Nat) → UInt8 → Cells n
  | 0, b => .leaf b
  | n + 1, b => let half := replicate n b; .fork half half

/-- The byte in a cell. -/
def get : {n : Nat} → Cells n → Nat → UInt8
  | _, .leaf b, _ => b
  | _, .fork l r, i => if i % 2 = 0 then l.get (i / 2) else r.get (i / 2)

/-- The tree with the byte in one cell replaced. -/
def set : {n : Nat} → Cells n → Nat → UInt8 → Cells n
  | _, .leaf _, _, b => .leaf b
  | _, .fork l r, i, b =>
    if i % 2 = 0 then .fork (l.set (i / 2) b) r else .fork l (r.set (i / 2) b)

theorem get_replicate : ∀ (n : Nat) (b : UInt8) (i : Nat), (replicate n b).get i = b
  | 0, _, _ => rfl
  | n + 1, b, i => by simp [replicate, get, get_replicate n]

theorem get_set : ∀ {n : Nat} (t : Cells n) {i j : Nat} (b : UInt8), i < count n → j < count n →
    (t.set i b).get j = if j = i then b else t.get j
  | _, .leaf _, i, j, b, hi, hj => by
    have : j = i := by simp only [count] at hi hj; omega
    simp [set, get, this]
  | n + 1, .fork l r, i, j, b, hi, hj => by
    simp only [count] at hi hj
    have hl := get_set l b (i := i / 2) (j := j / 2) (by omega) (by omega)
    have hr := get_set r b (i := i / 2) (j := j / 2) (by omega) (by omega)
    by_cases h2 : i % 2 = 0 <;> by_cases h3 : j % 2 = 0 <;>
      simp only [set, get, h2, h3, if_true, if_false]
    · rw [hl]; congr 1; simp only [eq_iff_iff]; omega
    · rw [if_neg (by omega)]
    · rw [if_neg (by omega)]
    · rw [hr]; congr 1; simp only [eq_iff_iff]; omega

theorem ext : ∀ {n : Nat} {s t : Cells n}, (∀ i, i < count n → s.get i = t.get i) → s = t
  | _, .leaf _, .leaf _, h => congrArg leaf (h 0 (by simp only [count]; omega))
  | n + 1, .fork l r, .fork l' r', h => by
    have hl : l = l' := ext fun i hi => by
      have h1 := h (2 * i) (by simp only [count]; omega)
      have h2 : 2 * i / 2 = i := by omega
      simpa only [get, h2, Nat.mul_mod_right, if_true] using h1
    have hr : r = r' := ext fun i hi => by
      have h1 := h (2 * i + 1) (by simp only [count]; omega)
      have h2 : (2 * i + 1) / 2 = i := by omega
      have h3 : ¬(2 * i + 1) % 2 = 0 := by omega
      simpa only [get, h2, h3, if_false] using h1
    rw [hl, hr]

end Cells

/-- One byte for each of the 65536 physical slots. -/
structure Memory where
  cells : Cells 16

namespace Memory

/-- Every byte is zero. -/
def zeroed : Memory := ⟨.replicate 16 0⟩

/-- The byte in a slot. -/
def get (m : Memory) (slot : UInt16) : UInt8 := m.cells.get slot.toNat

/-- The memory with one byte replaced. -/
def set (m : Memory) (slot : UInt16) (byte : UInt8) : Memory := ⟨m.cells.set slot.toNat byte⟩

@[simp] theorem get_zeroed (p : UInt16) : zeroed.get p = 0 := Cells.get_replicate 16 0 _

theorem get_set (m : Memory) (p q : UInt16) (b : UInt8) :
    (m.set p b).get q = if q = p then b else m.get q := by
  have h := Cells.get_set m.cells b p.toNat_lt q.toNat_lt
  simp only [get, set, h, UInt16.toNat_inj]

@[simp] theorem get_set_self (m : Memory) (p : UInt16) (b : UInt8) : (m.set p b).get p = b := by
  simp [get_set]

theorem get_set_ne (m : Memory) {p q : UInt16} (b : UInt8) (h : q ≠ p) :
    (m.set p b).get q = m.get q := by
  simp [get_set, h]

/-- A memory is its bytes. -/
theorem ext {m m' : Memory} (h : ∀ p, m.get p = m'.get p) : m = m' := by
  have : m.cells = m'.cells := Cells.ext fun i hi => by
    have e : (UInt16.ofNat i).toNat = i := UInt16.toNat_ofNat_of_lt hi
    simpa only [get, e] using h (UInt16.ofNat i)
  cases m; cases m'; simp_all

end Memory
end Cpu6502
