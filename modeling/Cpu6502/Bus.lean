/-
# The bus

The bus joins a memory to a mapping. Programs read and write through it; a
write to a protected address is dropped, and the first such write is kept as
the bus' fault until the next transaction.

While an instruction is under way the bus is in a transaction and its writes
are staged in a journal: reads see them, but the memory changes only at
`commit`, and `rollback` forgets them. Between transactions the bus is at rest
(`Bus.AtRest`): the journal is empty. What the processor sees in a slot, staged
or stored, is `Bus.visible`; reads and writes are described through it
(`visible_write`), so nothing else needs to look into the journal.

A host may also place bytes directly (`poke`, `load`), past the protection.

Key definitions: `Bus`, `Bus.read`, `Bus.write`, `Bus.begin`, `Bus.commit`,
`Bus.rollback`, `Bus.load`, `Bus.AtRest`.
Key theorems: `Bus.visible_write`, `Bus.read_write`, `Bus.commit_visible`.
-/
import Cpu6502.Mapping
import Cpu6502.Memory

namespace Cpu6502

/-- A write to a protected address: the address the program used, and the
byte it wanted to store there. -/
structure ProtectionFault where
  address : Address
  value : UInt8
  deriving DecidableEq

/-- A memory behind a mapping, and the writes under way. -/
structure Bus where
  memory : Memory := .zeroed
  mapping : Mapping := .flat
  /-- Writes are being staged. -/
  inTransaction : Bool := false
  /-- The staged writes, newest first. -/
  journal : List (UInt16 × UInt8) := []
  /-- The first rejected write. -/
  fault : Option ProtectionFault := none

namespace Bus

/-- An empty bus with this mapping. -/
def withMapping (mapping : Mapping) : Bus := { mapping }

/-- Another mapping over the same memory. -/
def setMapping (bus : Bus) (mapping : Mapping) : Bus := { bus with mapping }

/-- Where an address leads under the present mapping. -/
def locate (bus : Bus) (a : Address) : Location := bus.mapping.map a

/-- The byte the processor sees in a physical slot: the newest staged one if
there is any, else the stored one. -/
def visible (bus : Bus) (slot : UInt16) : UInt8 :=
  if bus.inTransaction then (bus.journal.lookup slot).getD (bus.memory.get slot)
  else bus.memory.get slot

/-- The byte at an address. -/
def read (bus : Bus) (a : Address) : UInt8 := bus.visible (bus.locate a).slot

/-- The little-endian word at an address; its high byte may wrap to `$0000`. -/
def readWord (bus : Bus) (a : Address) : UInt16 :=
  Address.ofBytes (bus.read a) (bus.read (a + 1))

/-- Stores a byte in a slot, or stages it during a transaction. -/
def put (bus : Bus) (slot : UInt16) (byte : UInt8) : Bus :=
  if bus.inTransaction then { bus with journal := (slot, byte) :: bus.journal }
  else { bus with memory := bus.memory.set slot byte }

/-- A program's write. A protected address keeps its byte, and the first
write that meets one is remembered. -/
def write (bus : Bus) (a : Address) (byte : UInt8) : Bus :=
  if (bus.locate a).readOnly then
    { bus with fault := bus.fault <|> some ⟨a, byte⟩ }
  else bus.put (bus.locate a).slot byte

/-! ### The host's side -/

/-- Places a byte at an address, protected or not. -/
def poke (bus : Bus) (a : Address) (byte : UInt8) : Bus :=
  { bus with memory := bus.memory.set (bus.locate a).slot byte }

/-- Places a byte in a physical slot. -/
def pokeSlot (bus : Bus) (slot : UInt16) (byte : UInt8) : Bus :=
  { bus with memory := bus.memory.set slot byte }

/-- Places bytes at successive addresses, which wrap after the last one. -/
def load (bus : Bus) (base : Address) : List UInt8 → Bus
  | [] => bus
  | b :: bs => (bus.poke base b).load (base + 1) bs

/-- Places bytes in successive physical slots. -/
def loadSlots (bus : Bus) (base : UInt16) : List UInt8 → Bus
  | [] => bus
  | b :: bs => (bus.pokeSlot base b).loadSlots (base + 1) bs

/-! ### Transactions -/

/-- Starts staging writes, with none staged and no fault noted. -/
def begin (bus : Bus) : Bus := { bus with inTransaction := true, journal := [], fault := none }

/-- Applies the staged writes in the order in which they were made. -/
def commit (bus : Bus) : Bus :=
  { bus with
    memory := bus.journal.foldr (fun w m => m.set w.1 w.2) bus.memory
    inTransaction := false
    journal := [] }

/-- Forgets the staged writes and the fault. -/
def rollback (bus : Bus) : Bus := { bus with inTransaction := false, journal := [], fault := none }

/-- Nothing is under way: the bus is outside a transaction, and no write is staged. -/
structure AtRest (bus : Bus) : Prop where
  outside : bus.inTransaction = false
  unstaged : bus.journal = []

theorem atRest_commit (bus : Bus) : bus.commit.AtRest := ⟨rfl, rfl⟩

theorem atRest_rollback (bus : Bus) : bus.rollback.AtRest := ⟨rfl, rfl⟩

/-! ### What the processor sees -/

section
variable {bus : Bus} (slot : UInt16) (byte : UInt8)

theorem put_staged (h : bus.inTransaction = true) :
    bus.put slot byte = { bus with journal := (slot, byte) :: bus.journal } :=
  if_pos h

theorem put_stored (h : bus.inTransaction = false) :
    bus.put slot byte = { bus with memory := bus.memory.set slot byte } :=
  if_neg (Bool.not_eq_true _ ▸ h)

end

theorem visible_put (bus : Bus) (p q : UInt16) (b : UInt8) :
    (bus.put p b).visible q = if q = p then b else bus.visible q := by
  cases h : bus.inTransaction with
  | false => simp [put, visible, h, Memory.get_set]
  | true =>
    by_cases hq : q = p
    · simp [put, visible, h, hq]
    · have hne : (q == p) = false := beq_eq_false_iff_ne.2 hq
      simp [put, visible, h, List.lookup_cons, hq, hne]

/-- At rest the processor sees the memory. -/
theorem visible_of_atRest {bus : Bus} (h : bus.AtRest) (slot : UInt16) :
    bus.visible slot = bus.memory.get slot := by
  simp [visible, h.outside]

/-- Opening a transaction changes nothing that the processor sees. -/
theorem visible_begin {bus : Bus} (h : bus.AtRest) (q : UInt16) :
    bus.begin.visible q = bus.visible q := by
  simp [begin, visible, h.outside]

/-- A write is seen in the slot its address leads to, unless it is protected. -/
theorem visible_write (bus : Bus) (a : Address) (b : UInt8) (q : UInt16) :
    (bus.write a b).visible q =
      if (bus.locate a).readOnly = false ∧ q = (bus.locate a).slot then b else bus.visible q := by
  unfold write
  cases h : (bus.locate a).readOnly
  · simp [visible_put]
  · simp [visible]

@[simp] theorem mapping_put (bus : Bus) (p : UInt16) (b : UInt8) :
    (bus.put p b).mapping = bus.mapping := by
  unfold put; split <;> rfl

@[simp] theorem inTransaction_put (bus : Bus) (p : UInt16) (b : UInt8) :
    (bus.put p b).inTransaction = bus.inTransaction := by
  unfold put; split <;> rfl

@[simp] theorem mapping_write (bus : Bus) (a : Address) (b : UInt8) :
    (bus.write a b).mapping = bus.mapping := by
  unfold write; split <;> simp

@[simp] theorem inTransaction_write (bus : Bus) (a : Address) (b : UInt8) :
    (bus.write a b).inTransaction = bus.inTransaction := by
  unfold write; split <;> simp

/-- A bus at rest stores a write at once. -/
theorem AtRest.write {bus : Bus} (h : bus.AtRest) (a : Address) (b : UInt8) :
    (bus.write a b).AtRest := by
  unfold Bus.write
  split
  · exact ⟨h.outside, h.unstaged⟩
  · rw [put_stored _ _ h.outside]
    exact ⟨h.outside, h.unstaged⟩

@[simp] theorem locate_write (bus : Bus) (a : Address) (b : UInt8) (x : Address) :
    (bus.write a b).locate x = bus.locate x := by
  simp [locate]

/-- Reading after a write: the new byte at every address that leads to the
written slot, the old byte elsewhere. -/
theorem read_write (bus : Bus) (a : Address) (b : UInt8) (x : Address) :
    (bus.write a b).read x =
      if (bus.locate a).readOnly = false ∧ (bus.locate x).slot = (bus.locate a).slot then b
      else bus.read x := by
  simp [read, visible_write]

theorem get_foldr_set (journal : List (UInt16 × UInt8)) (m : Memory) (q : UInt16) :
    (journal.foldr (fun w m => m.set w.1 w.2) m).get q = (journal.lookup q).getD (m.get q) := by
  induction journal with
  | nil => simp
  | cons w ws ih =>
    obtain ⟨p, b⟩ := w
    by_cases hq : q = p
    · simp [hq]
    · have hne : (q == p) = false := beq_eq_false_iff_ne.2 hq
      simp [Memory.get_set, List.lookup_cons, hq, hne, ih]

/-- Committing stores the newest staged byte of each slot. -/
theorem get_commit (bus : Bus) (q : UInt16) :
    bus.commit.memory.get q = (bus.journal.lookup q).getD (bus.memory.get q) :=
  get_foldr_set bus.journal bus.memory q

/-- Committing a transaction stores exactly what the processor saw in it. -/
theorem commit_visible {bus : Bus} (h : bus.inTransaction = true) (q : UInt16) :
    bus.commit.memory.get q = bus.visible q := by
  rw [get_commit, visible, if_pos h]

/-! ### The summary line -/

/-- The fault as the summary writes it. -/
def faultSummary : Option ProtectionFault → String
  | none => "None"
  | some f =>
    "Some(ProtectionFault \x7b address: " ++ toString f.address.toNat ++ ", value: " ++
      toString f.value.toNat ++ " \x7d)"

/-- One line about the state of the bus, without its bytes. -/
def summary (bus : Bus) : String :=
  "Bus \x7b mapping: \"" ++ bus.mapping.name ++ "\", in_transaction: " ++
    toString bus.inTransaction ++ ", staged: " ++ toString bus.journal.length ++
    ", fault: " ++ faultSummary bus.fault ++ " \x7d"

end Bus
end Cpu6502
