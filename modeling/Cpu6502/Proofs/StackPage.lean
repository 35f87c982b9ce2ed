/-
# The stack page as a stack

A push stores a byte at the place of SP and moves SP down, a pop moves it up and
reads there, and SP wraps within the stack page. So the page is a stack of 256
bytes, wherever SP stands at first: while no more is popped than was pushed, and
no more than 256 bytes are outstanding, every pop gives what the push that it
undoes has stored, SP tells how many bytes are outstanding, and nothing changes
outside the page (`Machine.stack_lifo`). It makes no difference whether writes
are staged.

A word is two bytes, so everything is counted in bytes. The invariant is the list
of the bytes that are outstanding, the last one first (`Machine.StackHolds`): a
push stores in front of it, at the only place of the page that 255 bytes at most
leave free, and a pop takes its first byte.

Key definitions: `StackOp`, `StackOp.Fits`, `StackOp.outstanding`,
`StackOp.bytesFrom`, `Bus.SameOffStack`, `Machine.StackHolds`.
Key theorems: `Machine.StackHolds.push`, `Machine.StackHolds.pop`,
`Machine.StackHolds.run`, `StackOp.bytesFrom_of_level`, `Machine.stack_lifo`.
-/
import Cpu6502.Proofs.Subroutines
import Mathlib.Algebra.GroupWithZero.Nat

namespace Cpu6502

/-! ### Sequences of pushes and pops -/

/-- What is done with the stack. -/
inductive StackOp
  | push (v : UInt8)
  | pop
  | pushWord (w : UInt16)
  | popWord
  deriving DecidableEq

namespace StackOp

/-- The bytes it leaves on the stack, the last one first. -/
def pushed : StackOp → List UInt8
  | push v => [v]
  | pushWord w => [Address.low w, Address.high w]
  | pop | popWord => []

/-- How many bytes it takes from the stack. -/
def popped : StackOp → Nat
  | push _ | pushWord _ => 0
  | pop => 1
  | popWord => 2

/-- How many bytes a sequence pushes. -/
def pushedBytes (ops : List StackOp) : Nat := (ops.map (·.pushed.length)).sum

/-- How many bytes a sequence pops. -/
def poppedBytes (ops : List StackOp) : Nat := (ops.map popped).sum

/-- How many of the pushed bytes are not popped again. -/
def outstanding (ops : List StackOp) : Nat := pushedBytes ops - poppedBytes ops

/-- Pops never outnumber pushes, counted in bytes and with so many at first. -/
def CoveredBy (first : Nat) (ops : List StackOp) : Prop :=
  ∀ p, p <+: ops → poppedBytes p ≤ first + pushedBytes p

/-- Nor are there ever more bytes than the stack page has places. -/
def Fits (first : Nat) (ops : List StackOp) : Prop :=
  ∀ p, p <+: ops → poppedBytes p ≤ first + pushedBytes p ∧
    first + pushedBytes p ≤ poppedBytes p + 256

/-- It pops all that it pushes, and nothing else. -/
def Level (ops : List StackOp) : Prop :=
  CoveredBy 0 ops ∧ pushedBytes ops = poppedBytes ops

/-- A push, the pop of the same size, and what the pop is to give. -/
inductive Pairs : StackOp → StackOp → Bus.Answer → Prop
  | byte (v : UInt8) : Pairs (.push v) .pop (.byte v)
  | word (w : UInt16) : Pairs (.pushWord w) .popWord (.word w)

/-- The bytes outstanding after one operation. -/
def next (bytes : List UInt8) (op : StackOp) : List UInt8 := op.pushed ++ bytes.drop op.popped

/-- The bytes outstanding after a sequence. -/
def bytesFrom (bytes : List UInt8) (ops : List StackOp) : List UInt8 := ops.foldl next bytes

/-- What a stack of these bytes answers, if it has as many as are asked for. -/
def answer? : List UInt8 → StackOp → Option Bus.Answer
  | _, push _ | _, pushWord _ => some .done
  | v :: _, pop => some (.byte v)
  | lo :: hi :: _, popWord => some (.word (Address.ofBytes lo hi))
  | _, pop | _, popWord => none

section
variable {op : StackOp} {ops : List StackOp} {first : Nat}

theorem pushedBytes_cons : pushedBytes (op :: ops) = op.pushed.length + pushedBytes ops := rfl

theorem poppedBytes_cons : poppedBytes (op :: ops) = op.popped + poppedBytes ops := rfl

/-- How many bytes there are after one operation. -/
def after (first : Nat) (op : StackOp) : Nat := first - op.popped + op.pushed.length

theorem length_next (bytes : List UInt8) (op : StackOp) :
    (next bytes op).length = after bytes.length op := by
  rw [next, List.length_append, List.length_drop, Nat.add_comm, after]

/-- A property of all prefixes, by the first operation. -/
theorem forall_prefix_cons {P : List StackOp → Prop} :
    (∀ p, p <+: op :: ops → P p) ↔ P [] ∧ ∀ p, p <+: ops → P (op :: p) := by
  constructor
  · exact fun h => ⟨h [] List.nil_prefix, fun p hp => h _ ((List.prefix_cons_inj op).mpr hp)⟩
  · rintro ⟨hnil, hcons⟩ p hp
    rcases List.prefix_cons_iff.mp hp with rfl | ⟨q, rfl, hq⟩
    · exact hnil
    · exact hcons q hq

theorem popped_le_of_covered (h : poppedBytes [op] ≤ first + pushedBytes [op]) :
    op.popped ≤ first := by
  -- an operation that pops pushes nothing
  cases op with
  | push v | pushWord w => exact Nat.zero_le first
  | pop | popWord => exact h

theorem coveredBy_cons :
    CoveredBy first (op :: ops) ↔ op.popped ≤ first ∧ CoveredBy (after first op) ops := by
  rw [CoveredBy, forall_prefix_cons]
  simp only [CoveredBy, pushedBytes_cons, poppedBytes_cons, after]
  constructor
  · rintro ⟨-, hcons⟩
    have hop := popped_le_of_covered (hcons [] List.nil_prefix)
    exact ⟨hop, fun p hp => by have := hcons p hp; omega⟩
  · rintro ⟨hop, hcons⟩
    exact ⟨Nat.zero_le _, fun p hp => by have := hcons p hp; omega⟩

theorem fits_cons : Fits first (op :: ops) ↔
    first ≤ 256 ∧ op.popped ≤ first ∧ Fits (after first op) ops := by
  rw [Fits, forall_prefix_cons]
  simp only [Fits, pushedBytes_cons, poppedBytes_cons, after]
  constructor
  · rintro ⟨hnil, hcons⟩
    have hop := popped_le_of_covered (hcons [] List.nil_prefix).1
    refine ⟨?_, hop, fun p hp => by have := hcons p hp; omega⟩
    simpa [pushedBytes, poppedBytes] using hnil.2
  · rintro ⟨hfirst, hop, hcons⟩
    refine ⟨?_, fun p hp => by have := hcons p hp; omega⟩
    simpa [pushedBytes, poppedBytes] using hfirst

theorem Fits.le (h : Fits first ops) : first ≤ 256 := by
  simpa [pushedBytes, poppedBytes] using (h [] List.nil_prefix).2

theorem Fits.coveredBy (h : Fits first ops) : CoveredBy first ops := fun p hp => (h p hp).1

theorem Fits.prefix_fits {p : List StackOp} (h : Fits first ops) (hp : p <+: ops) : Fits first p :=
  fun q hq => h q (hq.trans hp)

end

theorem coveredBy_nil (first : Nat) : CoveredBy first [] := by
  intro p hp
  rw [List.prefix_nil.mp hp]
  exact Nat.zero_le _

theorem fits_nil {first : Nat} : Fits first [] ↔ first ≤ 256 := by
  refine ⟨Fits.le, fun h p hp => ?_⟩
  rw [List.prefix_nil.mp hp]
  exact ⟨Nat.zero_le _, by simpa [pushedBytes, poppedBytes] using h⟩

instance decidableCoveredBy : ∀ (first : Nat) (ops : List StackOp), Decidable (CoveredBy first ops)
  | first, [] => isTrue (coveredBy_nil first)
  | first, op :: ops =>
    have := decidableCoveredBy (after first op) ops
    decidable_of_iff' _ coveredBy_cons

instance decidableFits : ∀ (first : Nat) (ops : List StackOp), Decidable (Fits first ops)
  | _, [] => decidable_of_iff' _ fits_nil
  | first, op :: ops =>
    have := decidableFits (after first op) ops
    decidable_of_iff' _ fits_cons

instance (ops : List StackOp) : Decidable (Level ops) := inferInstanceAs (Decidable (_ ∧ _))

theorem length_bytesFrom {bytes : List UInt8} {ops : List StackOp}
    (h : CoveredBy bytes.length ops) :
    (bytesFrom bytes ops).length + poppedBytes ops = bytes.length + pushedBytes ops := by
  induction ops generalizing bytes with
  | nil => rfl
  | cons op ops ih =>
    obtain ⟨hop, htail⟩ := coveredBy_cons.mp h
    rw [← length_next] at htail
    have hrest := ih htail
    rw [length_next, after] at hrest
    rw [pushedBytes_cons, poppedBytes_cons]
    show (bytesFrom (next bytes op) ops).length + _ = _
    omega

/-- Bytes below those that a sequence reaches stay where they are. -/
theorem bytesFrom_append {bytes : List UInt8} {ops : List StackOp}
    (h : CoveredBy bytes.length ops) (below : List UInt8) :
    bytesFrom (bytes ++ below) ops = bytesFrom bytes ops ++ below := by
  induction ops generalizing bytes with
  | nil => rfl
  | cons op ops ih =>
    obtain ⟨hop, htail⟩ := coveredBy_cons.mp h
    rw [← length_next] at htail
    have hnext : next (bytes ++ below) op = next bytes op ++ below := by
      rw [next, next, List.drop_append_of_le_length hop, List.append_assoc]
    rw [bytesFrom, List.foldl_cons, hnext]
    exact ih htail

/-- Of a stack that was empty at first the outstanding bytes are left. -/
theorem length_bytesFrom_nil {ops : List StackOp} (h : CoveredBy 0 ops) :
    (bytesFrom [] ops).length = outstanding ops := by
  have hlength : (bytesFrom [] ops).length + poppedBytes ops = 0 + pushedBytes ops :=
    length_bytesFrom h
  rw [outstanding]
  omega

/-- After a sequence that pops all that it pushes the stack is as before. -/
theorem bytesFrom_of_level {ops : List StackOp} (h : Level ops) (bytes : List UInt8) :
    bytesFrom bytes ops = bytes := by
  have hnone : bytesFrom [] ops = [] := by
    apply List.eq_nil_of_length_eq_zero
    rw [length_bytesFrom_nil h.1, outstanding, h.2, Nat.sub_self]
  have hcovered : CoveredBy ([] : List UInt8).length ops := h.1
  have happend := bytesFrom_append hcovered bytes
  rwa [hnone] at happend

/-- When the pop comes, what its push has stored is first on the stack. -/
theorem bytesFrom_between {between : List StackOp} (h : Level between) (bytes : List UInt8)
    (before : List StackOp) (first : StackOp) :
    bytesFrom bytes (before ++ first :: between) = next (bytesFrom bytes before) first := by
  rw [bytesFrom, List.foldl_append, List.foldl_cons]
  exact bytesFrom_of_level h _

end StackOp

/-! ### Changes within the stack page -/

/-- From one bus to the other at most the slots of the stack page change. -/
structure Bus.SameOffStack (b d : Bus) : Prop where
  mapping : d.mapping = b.mapping
  fault : d.fault = b.fault
  inTransaction : d.inTransaction = b.inTransaction
  slots : ∀ slot, (∀ sp, (b.locate (Machine.stackAddress sp)).slot ≠ slot) →
    d.visible slot = b.visible slot ∧ d.memory.get slot = b.memory.get slot

namespace Bus

theorem SameOffStack.refl (b : Bus) : b.SameOffStack b := ⟨rfl, rfl, rfl, fun _ _ => ⟨rfl, rfl⟩⟩

theorem SameOffStack.locate_eq {b d : Bus} (h : b.SameOffStack d) (a : Address) :
    d.locate a = b.locate a := by
  rw [locate, locate, h.mapping]

theorem write_of_writable {bus : Bus} {a : Address} (h : (bus.locate a).readOnly = false)
    (v : UInt8) : bus.write a v = bus.put (bus.locate a).slot v := by
  rw [write, h]
  rfl

/-- A byte is stored in one slot or staged. -/
theorem put_spares (bus : Bus) (slot : UInt16) (v : UInt8) :
    (bus.put slot v).fault = bus.fault ∧ (bus.put slot v).inTransaction = bus.inTransaction ∧
      ∀ other, other ≠ slot → (bus.put slot v).memory.get other = bus.memory.get other := by
  cases hb : bus.inTransaction with
  | false =>
    rw [put_stored _ _ hb]
    exact ⟨rfl, hb, fun other hne => Memory.get_set_ne _ _ hne⟩
  | true =>
    rw [put_staged _ _ hb]
    exact ⟨rfl, hb, fun _ _ => rfl⟩

/-- A push changes nothing outside the stack page. -/
theorem SameOffStack.write {b d : Bus} (h : b.SameOffStack d) (hb : b.StackApart) (sp v : UInt8) :
    b.SameOffStack (d.write (Machine.stackAddress sp) v) := by
  have hwritable : (d.locate (Machine.stackAddress sp)).readOnly = false := by
    rw [h.locate_eq]
    exact hb.writable sp
  obtain ⟨hfault, htransaction, hmemory⟩ :=
    d.put_spares (d.locate (Machine.stackAddress sp)).slot v
  rw [write_of_writable hwritable]
  refine ⟨(mapping_put ..).trans h.mapping, hfault.trans h.fault,
    htransaction.trans h.inTransaction, fun slot hslot => ?_⟩
  have hne : slot ≠ (d.locate (Machine.stackAddress sp)).slot := by
    rw [h.locate_eq]
    exact (hslot sp).symm
  obtain ⟨hvisible, hget⟩ := h.slots slot hslot
  rw [visible_put, if_neg hne, hmemory slot hne]
  exact ⟨hvisible, hget⟩

end Bus

namespace Machine

/-! ### Pushes and pops of a machine -/

/-- One operation: what it answers, and the machine after it. -/
def stackStep (m : Machine) : StackOp → Bus.Answer × Machine
  | .push v => (.done, m.push v)
  | .pop => (.byte m.pop.1, m.pop.2)
  | .pushWord w => (.done, m.pushWord w)
  | .popWord => (.word m.popWord.1, m.popWord.2)

/-- The operations in order: their answers, and the machine after the last. -/
def stackRun (m : Machine) : List StackOp → List Bus.Answer × Machine
  | [] => ([], m)
  | op :: ops =>
    let first := m.stackStep op
    let rest := first.2.stackRun ops
    (first.1 :: rest.1, rest.2)

/-- Since the first machine these bytes were pushed and not popped, the last one
first, and nothing else changed. -/
structure StackHolds (m : Machine) (bytes : List UInt8) (n : Machine) : Prop where
  regs : n.regs = m.regs.setSp (m.regs.sp - UInt8.ofNat bytes.length)
  read : ∀ k, ∀ hk : k < bytes.length,
    n.bus.read (stackAddress (n.regs.sp + UInt8.ofNat (k + 1))) = bytes[k]
  bus : m.bus.SameOffStack n.bus

namespace StackHolds

variable {m n : Machine} {bytes : List UInt8}

theorem empty (m : Machine) : m.StackHolds [] m where
  regs := by
    have hsp : m.regs.sp - UInt8.ofNat ([] : List UInt8).length = m.regs.sp := UInt8.sub_zero _
    rw [hsp]
    rfl
  read k hk := by cases hk
  bus := .refl _

/-- **A push**: its byte comes before the others. There is room for it, so the
place that it takes is none of theirs. -/
theorem push (hm : m.bus.StackApart) (h : m.StackHolds bytes n) (hroom : bytes.length < 256)
    (v : UInt8) : m.StackHolds (v :: bytes) (n.push v) where
  regs := by
    show n.regs.setSp (n.regs.sp - 1) = _
    rw [List.length_cons, Address.byte_sub_ofNat_succ, h.regs]
    rfl
  read k hk := by
    show (n.bus.write (stackAddress n.regs.sp) v).read
      (stackAddress (n.regs.sp - 1 + UInt8.ofNat (k + 1))) = _
    have hwritable : (n.bus.locate (stackAddress n.regs.sp)).readOnly = false := by
      rw [h.bus.locate_eq]
      exact hm.writable _
    rw [Address.byte_add_ofNat_succ, UInt8.sub_add_cancel, Bus.read_write]
    cases k with
    | zero =>
      have hself : n.regs.sp + UInt8.ofNat 0 = n.regs.sp := UInt8.add_zero _
      rw [hself, if_pos ⟨hwritable, rfl⟩]
      rfl
    | succ k =>
      have hk' : k < bytes.length := Nat.lt_of_succ_lt_succ hk
      rw [if_neg, h.read k hk']
      · rfl
      · rintro ⟨-, hslot⟩
        rw [h.bus.locate_eq, h.bus.locate_eq] at hslot
        have hself : n.regs.sp = n.regs.sp + UInt8.ofNat 0 := (UInt8.add_zero _).symm
        have hplace : k + 1 < 256 := Nat.lt_of_le_of_lt hk' hroom
        exact Address.byte_add_ofNat_ne n.regs.sp hplace (Nat.zero_lt_succ _) (Nat.succ_ne_zero k)
          ((hm.apart hslot).trans hself)
  bus := h.bus.write hm _ v

/-- **A pop** takes the first byte. -/
theorem pop {v : UInt8} (h : m.StackHolds (v :: bytes) n) :
    n.pop.1 = v ∧ m.StackHolds bytes n.pop.2 := by
  refine ⟨h.read 0 (Nat.zero_lt_succ _), ?_, fun k hk => ?_, h.bus⟩
  · show n.regs.setSp (n.regs.sp + 1) = _
    rw [h.regs, List.length_cons, Address.byte_sub_ofNat_succ]
    exact congrArg m.regs.setSp (UInt8.sub_add_cancel _ _)
  · show n.bus.read (stackAddress (n.regs.sp + 1 + UInt8.ofNat (k + 1))) = _
    rw [← Address.byte_add_ofNat_succ, h.read (k + 1) (Nat.succ_lt_succ hk)]
    rfl

/-- One operation answers like a stack of these bytes, and leaves the bytes that
it would. -/
theorem step (hm : m.bus.StackApart) (h : m.StackHolds bytes n) {op : StackOp}
    (hcovered : op.popped ≤ bytes.length) (hroom : (StackOp.next bytes op).length ≤ 256) :
    StackOp.answer? bytes op = some (n.stackStep op).1 ∧
      m.StackHolds (StackOp.next bytes op) (n.stackStep op).2 := by
  cases op with
  | push v => exact ⟨rfl, h.push hm hroom v⟩
  | pushWord w =>
    have hhigh : (Address.high w :: bytes).length < 256 := hroom
    exact ⟨rfl, (h.push hm (Nat.lt_of_succ_lt hhigh) _).push hm hhigh _⟩
  | pop =>
    obtain ⟨v, rest, rfl⟩ := List.exists_cons_of_length_pos hcovered
    obtain ⟨hv, hrest⟩ := h.pop
    exact ⟨congrArg (some ∘ Bus.Answer.byte) hv.symm, hrest⟩
  | popWord =>
    obtain ⟨lo, rest, rfl⟩ := List.exists_cons_of_length_pos (Nat.lt_of_succ_lt hcovered)
    obtain ⟨hi, rest, rfl⟩ := List.exists_cons_of_length_pos (Nat.lt_of_succ_lt_succ hcovered)
    obtain ⟨hlo, htail⟩ := h.pop
    obtain ⟨hhi, hrest⟩ := htail.pop
    refine ⟨?_, hrest⟩
    rw [StackOp.answer?, stackStep, popWord, hlo, hhi]

/-- **A run of operations** answers like a stack of bytes. -/
theorem run (hm : m.bus.StackApart) (h : m.StackHolds bytes n) {ops : List StackOp}
    (hfits : StackOp.Fits bytes.length ops) :
    (∀ i : Nat, (n.stackRun ops).1[i]? =
      ops[i]?.bind (StackOp.answer? (StackOp.bytesFrom bytes (ops.take i)))) ∧
    m.StackHolds (StackOp.bytesFrom bytes ops) (n.stackRun ops).2 := by
  induction ops generalizing bytes n with
  | nil => exact ⟨fun i => rfl, h⟩
  | cons op ops ih =>
    obtain ⟨-, hop, htail⟩ := StackOp.fits_cons.mp hfits
    rw [← StackOp.length_next] at htail
    obtain ⟨hanswer, hafter⟩ := h.step hm hop htail.le
    obtain ⟨hanswers, hlast⟩ := ih hafter htail
    refine ⟨fun i => ?_, hlast⟩
    cases i with
    | zero => exact hanswer.symm
    | succ i => exact hanswers i

end StackHolds

/-- **The stack page is a stack of 256 bytes.** Let its addresses lead to writable
slots apart, on a bus that stages writes or not, and let SP stand anywhere. In a
sequence of pushes and pops in which pops never outnumber pushes and at most 256
bytes are outstanding, every pop gives what its push has stored: the push of that
size before it such that what comes between them pops all that it pushes. All
answers are those of a stack of bytes. At every point SP has moved down by the
number of outstanding bytes, and outside the page nothing has changed. -/
theorem stack_lifo {m : Machine} (hm : m.bus.StackApart) {ops : List StackOp}
    (hfits : StackOp.Fits 0 ops) :
    (∀ before first between last after answer,
      ops = before ++ first :: between ++ last :: after → StackOp.Level between →
      StackOp.Pairs first last answer →
      (m.stackRun ops).1[before.length + between.length + 1]? = some answer) ∧
    (∀ i : Nat, (m.stackRun ops).1[i]? =
      ops[i]?.bind (StackOp.answer? (StackOp.bytesFrom [] (ops.take i)))) ∧
    (∀ p, p <+: ops →
      (m.stackRun p).2.regs = m.regs.setSp (m.regs.sp - UInt8.ofNat (StackOp.outstanding p)) ∧
      m.bus.SameOffStack (m.stackRun p).2.bus) := by
  have hrun {p : List StackOp} (hp : p <+: ops) :=
    (StackHolds.empty m).run hm (hfits.prefix_fits hp)
  obtain ⟨hanswers, -⟩ := hrun List.prefix_rfl
  refine ⟨?_, hanswers, fun p hp => ?_⟩
  · rintro before first between last after answer rfl hlevel hpair
    have hi : before.length + between.length + 1 = (before ++ first :: between).length := by
      rw [List.length_append, List.length_cons]
      omega
    rw [hanswers, hi, List.take_left, List.getElem?_append_right (Nat.le_refl _), Nat.sub_self,
      List.getElem?_cons_zero, StackOp.bytesFrom_between hlevel]
    cases hpair with
    | byte v => rfl
    | word w => exact congrArg (some ∘ Bus.Answer.word) (Address.ofBytes_low_high w)
  · obtain ⟨-, hregs, -, hbus⟩ := hrun hp
    rw [StackOp.length_bytesFrom_nil (hfits.prefix_fits hp).coveredBy] at hregs
    exact ⟨hregs, hbus⟩

/-- SP in the middle of the page, and writes staged. -/
def midPage : Machine where
  regs := Registers.powerOn { resetSp := 0x80 }
  bus := (Bus.withMapping .flat).begin

/-- 127 words are pushed and popped again. -/
def wordsOver : List StackOp :=
  List.replicate 127 (.pushWord 0xABCD) ++ List.replicate 127 .popWord

/-- A word, and as many others above it as there is room for. -/
def fillPage : List StackOp := .pushWord 0x1234 :: wordsOver ++ [.popWord]

theorem stack_lifo_full :
    (midPage.stackRun fillPage).1[255]? = some (.word 0x1234) ∧
      StackOp.outstanding (fillPage.take 128) = 256 ∧
      (midPage.stackRun (fillPage.take 128)).2.regs.sp = 0x80 ∧
      ∀ slot < 0x0100, (midPage.stackRun fillPage).2.bus.visible slot = 0 := by
  have hfits : StackOp.Fits 0 fillPage := by decide +kernel
  have hlevel : StackOp.Level wordsOver := by decide +kernel
  have hfull : StackOp.outstanding (fillPage.take 128) = 256 := by decide +kernel
  obtain ⟨hpops, -, hpoints⟩ := stack_lifo (m := midPage) (Bus.stackApart_of_flat rfl) hfits
  refine ⟨?_, hfull, ?_, fun slot hslot => ?_⟩
  · have hplace : ([] : List StackOp).length + wordsOver.length + 1 = 255 := by
      rw [wordsOver, List.length_append, List.length_replicate, List.length_replicate,
        List.length_nil]
    rw [← hplace]
    exact hpops [] _ wordsOver _ [] _ rfl hlevel (.word 0x1234)
  · rw [(hpoints _ (List.take_prefix 128 fillPage)).1, hfull]
    rfl
  · have hoff : ∀ sp, (midPage.bus.locate (stackAddress sp)).slot ≠ slot := by
      rintro sp rfl
      have hpage : (stackAddress sp).toNat = 256 + sp.toNat := toNat_stackAddress rfl
      have hless : (stackAddress sp).toNat < 256 := hslot
      omega
    rw [((hpoints _ List.prefix_rfl).2.slots slot hoff).1]
    exact Memory.get_zeroed slot

end Machine
end Cpu6502
