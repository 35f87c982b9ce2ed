/-
# The journal of staged writes is invisible

Between `Bus.begin` and `Bus.commit` writes go to a journal, and reads search
it, newest write first. No sequence of operations on the bus notices: begun,
performed and committed it answers what it answers when performed directly,
and leaves the same bus (`journal_invisible`). The reason is that `commit`
commutes with writes (`Bus.commit_write`) and that committing changes nothing
the processor sees (`Bus.read_commit`); so a bus in a transaction and the bus
with its writes applied are alike (`Bus.alike_unstaged`), and every
instruction and interrupt entry treats them alike.

What either way of performing must answer is said without a journal: a read
gives the byte of the last accepted write to its slot (`Bus.readAfter`).

Key definitions: `Bus.Operation`, `Bus.performAll`, `Bus.readAfter`,
`Bus.Unstaged`.
Key theorems: `Bus.answers_performAll`, `Bus.alike_unstaged`,
`journal_invisible`.
-/
import Cpu6502.Proofs.Step

namespace Cpu6502
namespace Bus

/-! ### Sequences of operations -/

/-- What a program asks of the bus, and the host's look at a byte. -/
inductive Operation
  | read (a : Address)
  | readWord (a : Address)
  | peek (a : Address)
  | write (a : Address) (v : UInt8)

/-- What the bus answers. -/
inductive Answer
  | byte (v : UInt8)
  | word (w : UInt16)
  | done
  deriving DecidableEq

/-- One operation: the answer, and the bus after it. -/
def perform (bus : Bus) : Operation → Answer × Bus
  | .read a | .peek a => (.byte (bus.read a), bus)
  | .readWord a => (.word (bus.readWord a), bus)
  | .write a v => (.done, bus.write a v)

/-- The operations in order: their answers, and the bus after the last. -/
def performAll (bus : Bus) : List Operation → List Answer × Bus
  | [] => ([], bus)
  | op :: ops =>
    let first := bus.perform op
    let rest := first.2.performAll ops
    (first.1 :: rest.1, rest.2)

/-! ### What reads must answer -/

/-- The byte an operation stores in a slot: it is a write that is accepted
and leads there. -/
def Operation.stores (mapping : Mapping) (slot : UInt16) : Operation → Option UInt8
  | .write a v =>
    if (mapping.map a).readOnly = false ∧ slot = (mapping.map a).slot then some v else none
  | _ => none

/-- The byte of the last accepted write to a slot. -/
def lastStored (mapping : Mapping) (slot : UInt16) : List Operation → Option UInt8
  | [] => none
  | op :: ops => lastStored mapping slot ops <|> op.stores mapping slot

/-- The byte at an address after these operations: of the last accepted write
to its slot, or the one that was there before. -/
def readAfter (bus : Bus) (history : List Operation) (a : Address) : UInt8 :=
  (lastStored bus.mapping (bus.locate a).slot history).getD (bus.read a)

/-- The answer to an operation, given the bytes at the addresses. -/
def Operation.answer (see : Address → UInt8) : Operation → Answer
  | .read a | .peek a => .byte (see a)
  | .readWord a => .word (Address.ofBytes (see a) (see (a + 1)))
  | .write _ _ => .done

theorem perform_answer (bus : Bus) (op : Operation) : (bus.perform op).1 = op.answer bus.read := by
  cases op <;> rfl

@[simp] theorem mapping_perform (bus : Bus) (op : Operation) :
    (bus.perform op).2.mapping = bus.mapping := by
  cases op <;> simp [perform]

theorem read_perform (bus : Bus) (op : Operation) (a : Address) :
    (bus.perform op).2.read a = (op.stores bus.mapping (bus.locate a).slot).getD (bus.read a) := by
  cases op with
  | write x v =>
    have hstores : (Operation.write x v).stores bus.mapping (bus.locate a).slot =
        if (bus.locate x).readOnly = false ∧ (bus.locate a).slot = (bus.locate x).slot then some v
        else none := rfl
    simp only [perform, read_write, hstores]
    split <;> rfl
  | read x | readWord x | peek x => rfl

theorem readAfter_cons (bus : Bus) (op : Operation) (ops : List Operation) :
    bus.readAfter (op :: ops) = (bus.perform op).2.readAfter ops := by
  funext a
  have hloc : (bus.perform op).2.locate a = bus.locate a := by simp [locate]
  simp only [readAfter, lastStored, mapping_perform, hloc, read_perform]
  cases lastStored bus.mapping (bus.locate a).slot ops <;> rfl

/-- Each operation of a sequence is answered from the last accepted writes
before it. -/
theorem answers_performAll (bus : Bus) (ops : List Operation) (i : Nat) :
    (bus.performAll ops).1[i]? = ops[i]?.map (·.answer (bus.readAfter (ops.take i))) := by
  induction ops generalizing bus i with
  | nil => simp [performAll]
  | cons op ops ih =>
    cases i with
    | zero => simp only [performAll, List.getElem?_cons_zero, perform_answer]; rfl
    | succ i =>
      simp only [performAll, List.getElem?_cons_succ, List.take_succ_cons, readAfter_cons]
      exact ih _ i

/-! ### Buses that are alike -/

theorem perform_alike {R : Bus → Bus → Prop} (hR : Bus.Alike R) {b d : Bus} (h : R b d)
    (op : Operation) : (b.perform op).1 = (d.perform op).1 ∧ R (b.perform op).2 (d.perform op).2 := by
  cases op with
  | read a | peek a => exact ⟨congrArg Answer.byte (hR.read h a), h⟩
  | readWord a => exact ⟨congrArg Answer.word (readWord_alike hR h a), h⟩
  | write a v => exact ⟨rfl, hR.write h a v⟩

theorem performAll_alike {R : Bus → Bus → Prop} (hR : Bus.Alike R) {b d : Bus} (h : R b d)
    (ops : List Operation) :
    (b.performAll ops).1 = (d.performAll ops).1 ∧ R (b.performAll ops).2 (d.performAll ops).2 := by
  induction ops generalizing b d with
  | nil => exact ⟨rfl, h⟩
  | cons op ops ih =>
    obtain ⟨hfirst, hrel⟩ := perform_alike hR h op
    obtain ⟨hrest, hlast⟩ := ih hrel
    exact ⟨by simp only [performAll, hfirst, hrest], hlast⟩

theorem Over.performAll {memory : Memory} {mapping : Mapping} {bus : Bus}
    (h : bus.Over memory mapping) (ops : List Operation) :
    (bus.performAll ops).2.Over memory mapping :=
  (performAll_alike (alike_of_keeps (P := Over memory mapping) fun _ a v hb => hb.write a v)
    ⟨rfl, h⟩ ops).2.2

/-! ### Applying the journal -/

/-- Committing a transaction changes nothing that the processor sees. -/
theorem read_commit {bus : Bus} (h : bus.inTransaction = true) (a : Address) :
    bus.commit.read a = bus.read a :=
  commit_visible h (bus.locate a).slot

section
variable {bus : Bus} {slot : UInt16} (h : ∀ w ∈ bus.journal, w.1 ≠ slot)
include h

theorem lookup_of_not_staged : bus.journal.lookup slot = none := by
  rw [List.lookup_eq_none_iff]
  exact fun w hw => bne_iff_ne.mpr (h w hw).symm

/-- No staged write hides a slot that none of them leads to. -/
theorem visible_of_not_staged : bus.visible slot = bus.memory.get slot := by
  simp only [visible, lookup_of_not_staged h, Option.getD_none, ite_self]

theorem get_commit_of_not_staged : bus.commit.memory.get slot = bus.memory.get slot := by
  rw [get_commit, lookup_of_not_staged h, Option.getD_none]

end

/-- A staged write may be committed before or after it is made. -/
theorem commit_write {bus : Bus} (h : bus.inTransaction = true) (a : Address) (v : UInt8) :
    (bus.write a v).commit = bus.commit.write a v := by
  have hloc : bus.commit.locate a = bus.locate a := rfl
  unfold write
  rw [hloc]
  split
  · rfl
  · rw [put_staged _ _ h]
    rfl

/-- The bus as it would be if this fault had been latched earlier. -/
def latching (early : Option ProtectionFault) (bus : Bus) : Bus :=
  { bus with fault := early <|> bus.fault }

/-- A fault is latched before a write as well as after it. -/
theorem latching_write (early : Option ProtectionFault) (bus : Bus) (a : Address) (v : UInt8) :
    (bus.write a v).latching early = (bus.latching early).write a v := by
  have hloc : (bus.latching early).locate a = bus.locate a := rfl
  unfold write
  rw [hloc]
  split
  · cases early <;> rfl
  · cases hs : bus.inTransaction <;> simp [put, latching, hs]

/-- The first bus is in a transaction; the second is the first with its writes
applied, and with a fault that was latched before all of them. -/
def Unstaged (early : Option ProtectionFault) (b d : Bus) : Prop :=
  b.inTransaction = true ∧ d = b.commit.latching early

theorem alike_unstaged (early : Option ProtectionFault) : Bus.Alike (Unstaged early) where
  read {b d} h a := by
    rw [h.2]
    exact (read_commit h.1 a).symm
  write {b d} h a v := by
    refine ⟨by rw [inTransaction_write, h.1], ?_⟩
    rw [commit_write h.1, latching_write, h.2]

/-- A bus at rest is its own transaction, begun and applied. -/
theorem unstaged_begin {bus : Bus} (h : bus.AtRest) : Unstaged bus.fault bus.begin bus := by
  obtain ⟨memory, mapping, inTransaction, journal, fault⟩ := bus
  obtain ⟨rfl, rfl⟩ := h
  refine ⟨rfl, ?_⟩
  cases fault <;> rfl

end Bus

/-- A step that succeeds completes what its work does directly, without a
transaction. -/
theorem Computer.step_ok_complete {c c' : Computer} (hs : c.bus.AtRest)
    (h : c.step = (.ok true, c')) : ∃ n cycles,
      Computer.work c.started.cpu ⟨c.started.cpu.regs, c.started.bus⟩ = .ok (n, cycles) ∧
        c'.cpu = (c.started.complete n cycles).cpu ∧ c'.bus.latching c.bus.fault = n.bus := by
  cases stepped_of_eq h with
  | done m cycles _ hw hf =>
    have hdirect : c.started.opened.Alike (Bus.Unstaged c.bus.fault)
        ⟨c.started.cpu.regs, c.started.bus⟩ := by
      refine ⟨rfl, ?_⟩
      simp only [opened, started_bus]
      exact Bus.unstaged_begin hs
    have he := work_alike (Bus.alike_unstaged c.bus.fault) hdirect c.started.cpu
    rw [hw] at he
    generalize hn : Computer.work c.started.cpu ⟨c.started.cpu.regs, c.started.bus⟩ = direct at he
    cases he with
    | ok _ hm => exact ⟨_, cycles, rfl, by simp only [complete, hm.regs], hm.bus.2.symm⟩

/-- What a step commits is what its work does directly, without a transaction. -/
theorem Computer.step_ok_direct {c c' : Computer} (hs : c.bus.AtRest)
    (h : c.step = (.ok true, c')) : ∃ n cycles,
      Computer.work c.started.cpu ⟨c.started.cpu.regs, c.started.bus⟩ = .ok (n, cycles) ∧
        c'.cpu.regs = n.regs.addCycles cycles ∧ c'.bus.latching c.bus.fault = n.bus := by
  obtain ⟨n, cycles, hw, hcpu, hbus⟩ := step_ok_complete hs h
  exact ⟨n, cycles, hw, by rw [hcpu]; rfl, hbus⟩

/-- **The journal is invisible.** Performed in a transaction that is then
committed, a sequence of operations answers the same and leaves the same bus
as performed directly, and either way reads give the last accepted writes;
rolled back, it leaves no trace. So a step that succeeds leaves the registers
and the memory that its work leaves when done without a transaction. -/
theorem journal_invisible :
    (∀ (bus : Bus) (ops : List Bus.Operation), bus.AtRest →
      (bus.begin.performAll ops).1 = (bus.performAll ops).1 ∧
      (∀ slot, (bus.begin.performAll ops).2.commit.memory.get slot =
        (bus.performAll ops).2.memory.get slot) ∧
      (bus.fault = none → (bus.begin.performAll ops).2.commit = (bus.performAll ops).2) ∧
      (∀ i : Nat, (bus.performAll ops).1[i]? =
        ops[i]?.map (·.answer (bus.readAfter (ops.take i)))) ∧
      (bus.begin.performAll ops).2.rollback = { bus with fault := none }) ∧
    (∀ c c' : Computer, c.bus.AtRest → c.step = (.ok true, c') →
      ∃ n cycles,
        Computer.work c.started.cpu ⟨c.started.cpu.regs, c.started.bus⟩ = .ok (n, cycles) ∧
        c'.cpu.regs = n.regs.addCycles cycles ∧
        ∀ slot, c'.bus.memory.get slot = n.bus.memory.get slot) := by
  refine ⟨fun bus ops hs => ?_, fun c c' hs h => ?_⟩
  · obtain ⟨hanswers, hbus⟩ :=
      Bus.performAll_alike (Bus.alike_unstaged bus.fault) (Bus.unstaged_begin hs) ops
    have hover := bus.over_begin.performAll ops
    refine ⟨hanswers, fun slot => ?_, fun hf => ?_, bus.answers_performAll ops, ?_⟩
    · rw [hbus.2]; rfl
    · rw [hbus.2, hf]
      rfl
    · simp only [Bus.rollback, hover.memory, hover.mapping, hs.outside, hs.unstaged]
  · obtain ⟨n, cycles, hw, hregs, hbus⟩ := Computer.step_ok_direct hs h
    exact ⟨n, cycles, hw, hregs, fun slot => by rw [← hbus]; rfl⟩

/-- Writes to the same byte of work memory through two of its repetitions, and
to a protected address. -/
def mirroredWrites : List Bus.Operation :=
  [.write 0x0010 1, .write 0x0810 2, .read 0x1810, .write 0x8000 3, .readWord 0x000F, .peek 0x8000]

/-- BRK with SP at `$00`: its pushes wrap within the stack page. -/
def breakAtWrap : Computer where
  cpu := { Processor.powerOn {} with
    regs := { Registers.powerOn { resetSp := 0x00 } with pc := 0x0200 }
    phase := .fetching }
  bus := { Bus.withMapping (Nrom.ofSize 16384).toMapping with fault := some ⟨0x8000, 3⟩ }

theorem journal_invisible_mirrored :
    (Bus.performAll (Bus.withMapping (Nrom.ofSize 16384).toMapping).begin mirroredWrites).1 =
        [.done, .done, .byte 2, .done, .word 0x0200, .byte 0] ∧
      (Bus.performAll (Bus.withMapping (Nrom.ofSize 16384).toMapping).begin
        mirroredWrites).2.commit.fault = some ⟨0x8000, 3⟩ ∧
      ∃ n cycles, Computer.work breakAtWrap.cpu ⟨breakAtWrap.cpu.regs, breakAtWrap.bus⟩ =
        .ok (n, cycles) ∧ n.bus.memory.get 0x01FE = 0x34 := by
  obtain ⟨hanswers, -, hbus, -, -⟩ :=
    journal_invisible.1 (Bus.withMapping (Nrom.ofSize 16384).toMapping) mirroredWrites ⟨rfl, rfl⟩
  have hstep : breakAtWrap.step = (.ok true, breakAtWrap.step.2) := Prod.ext rfl rfl
  obtain ⟨n, cycles, hw, -, hmemory⟩ := journal_invisible.2 breakAtWrap _ ⟨rfl, rfl⟩ hstep
  refine ⟨by rw [hanswers]; decide +kernel, by rw [hbus rfl]; decide +kernel, n, cycles, hw, ?_⟩
  rw [← hmemory]
  decide +kernel

end Cpu6502
