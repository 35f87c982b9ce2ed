/-
# Where an instruction works and where it leads

An addressing mode is a rule for an address, and an instruction a rule for
the next PC. Both are given here in plain arithmetic on the bytes that the
processor sees before the instruction (`Mode.effective`, `Opcode.nextPc`),
with each wrap written out: after the last address, within page zero, within
the pointer's page and within the stack page. A step that executes an
instruction works at that address and leads to that PC
(`Computer.step_targets`).

The bytes are those from before the instruction, whatever it overwrites.
Only BRK reads bytes that it may just have pushed: its vector.

Key definitions: `Mode.effective`, `Mnemonic.taken`, `Machine.brokenBus`,
`Opcode.nextPc`.
Key theorems: `Mode.resolve_effective`, `Action.run_pc`,
`Opcode.execute_nextPc`, `Computer.step_targets`.
-/
import Cpu6502.Proofs.Flags
import Cpu6502.Proofs.Journal

namespace Cpu6502

/-! ### Bytes and words as numbers -/

theorem Address.low_eq_ofNat {a : Address} {n : Nat} (h : a.toNat = n) : low a = UInt8.ofNat n := by
  apply UInt8.toNat_inj.1
  rw [toNat_low, h, UInt8.toNat_ofNat']

theorem Address.high_eq_ofNat {a : Address} {n : Nat} (h : a.toNat = n) :
    high a = UInt8.ofNat (n / 256) := by
  rw [← h, ← toNat_high, UInt8.ofNat_toNat]

theorem toNat_sub_one (v : UInt8) : (v - 1).toNat = (v.toNat + 255) % 256 := by
  rw [UInt8.toNat_sub, UInt8.toNat_one]
  omega

/-- The byte at an address. -/
def Bus.byteAt (bus : Bus) (n : Nat) : Nat := (bus.read (UInt16.ofNat n)).toNat

/-- The word whose low and high byte are at these addresses. -/
def Bus.wordAt (bus : Bus) (lo hi : Nat) : Nat := bus.byteAt lo + 256 * bus.byteAt hi

theorem Bus.toNat_read (bus : Bus) {a : Address} {n : Nat} (h : a.toNat = n) :
    (bus.read a).toNat = bus.byteAt n := by
  rw [byteAt, ← h, UInt16.ofNat_toNat]

/-- Two bytes read one after the other are the word at their addresses. -/
theorem Bus.toNat_ofBytes_read (bus : Bus) {a b : Address} {lo hi : Nat} (ha : a.toNat = lo)
    (hb : b.toNat = hi) : (Address.ofBytes (bus.read a) (bus.read b)).toNat = bus.wordAt lo hi := by
  rw [Address.toNat_ofBytes, bus.toNat_read ha, bus.toNat_read hb, wordAt]

theorem Bus.readWord_eq (bus : Bus) (pc : Address) :
    bus.readWord (pc + 1) = Address.ofBytes (bus.read (pc + 1)) (bus.read (pc + 2)) := by
  rw [readWord, UInt16.add_assoc]
  rfl

/-- A pointer in page zero wraps there. -/
theorem Bus.toNat_zeroPageWord (bus : Bus) {base : UInt8} {z : Nat} (h : base.toNat = z) :
    (bus.zeroPageWord base).toNat = bus.wordAt z ((z + 1) % 256) := by
  refine bus.toNat_ofBytes_read (base.toNat_toUInt16.trans h) ?_
  rw [UInt8.toNat_toUInt16, UInt8.toNat_add, h]
  rfl

/-- The pointer of an indirect jump wraps in its own page. -/
theorem Bus.toNat_samePageWord (bus : Bus) {a : Address} {p : Nat} (h : a.toNat = p) :
    (bus.samePageWord a).toNat = bus.wordAt p (p / 256 * 256 + (p + 1) % 256) := by
  refine bus.toNat_ofBytes_read h ?_
  rw [Address.addLow, Address.withLow, Address.toNat_ofBytes, UInt8.toNat_add, UInt8.toNat_one,
    Address.toNat_low, Address.toNat_high, h]
  omega

namespace Machine

/-- The byte `k` places after the opcode. -/
def codeByte (m : Machine) (k : Nat) : Nat := m.bus.byteAt ((m.regs.pc.toNat + k) % 65536)

/-- The word after the opcode. -/
def codeWord (m : Machine) : Nat := m.codeByte 1 + 256 * m.codeByte 2

/-- The word on the stack `k` places above SP. -/
def stackWord (m : Machine) (k : Nat) : Nat :=
  m.bus.wordAt (256 + (m.regs.sp.toNat + k) % 256) (256 + (m.regs.sp.toNat + k + 1) % 256)

theorem toNat_codeByte_one (m : Machine) : (m.bus.read (m.regs.pc + 1)).toNat = m.codeByte 1 :=
  m.bus.toNat_read (UInt16.toNat_add ..)

theorem toNat_codeWord (m : Machine) :
    (Address.ofBytes (m.bus.read (m.regs.pc + 1)) (m.bus.read (m.regs.pc + 2))).toNat = m.codeWord :=
  m.bus.toNat_ofBytes_read (UInt16.toNat_add ..) (UInt16.toNat_add ..)

theorem toNat_stackAddress {sp : UInt8} {n : Nat} (h : sp.toNat = n) :
    (stackAddress sp).toNat = 256 + n := by
  have hbase : stackBase.toNat = 256 := rfl
  have hlt := sp.toNat_lt
  rw [stackAddress, UInt16.toNat_add, UInt8.toNat_toUInt16, hbase, h]
  omega

theorem stackAddress_eq_ofNat {sp : UInt8} {n : Nat} (h : sp.toNat = n) :
    stackAddress sp = UInt16.ofNat (256 + n) := by
  rw [← toNat_stackAddress h, UInt16.ofNat_toNat]

/-- Popping a word wraps in the stack page. -/
theorem toNat_popWord (m : Machine) : m.popWord.1.toNat = m.stackWord 1 := by
  refine m.bus.toNat_ofBytes_read (toNat_stackAddress (UInt8.toNat_add ..)) (toNat_stackAddress ?_)
  show (m.regs.sp + 1 + 1).toNat = _
  rw [UInt8.toNat_add, UInt8.toNat_add, UInt8.toNat_one]
  omega

end Machine

/-! ### Effective addresses -/

/-- The address that an addressing mode names, if it names one, in terms of
the machine before the instruction. -/
def Mode.effective (mode : Mode) (m : Machine) : Option Nat :=
  let b1 := m.codeByte 1
  let word := m.codeWord
  let x := m.regs.x.toNat
  let y := m.regs.y.toNat
  match mode with
  | .zeroPage => some b1
  | .zeroPageX => some ((b1 + x) % 256)
  | .zeroPageY => some ((b1 + y) % 256)
  | .absolute => some word
  | .absoluteX => some ((word + x) % 65536)
  | .absoluteY => some ((word + y) % 65536)
  | .indirect => some (m.bus.wordAt word (word / 256 * 256 + (word + 1) % 256))
  | .indexedIndirect => some (m.bus.wordAt ((b1 + x) % 256) (((b1 + x) % 256 + 1) % 256))
  | .indirectIndexed => some ((m.bus.wordAt b1 ((b1 + 1) % 256) + y) % 65536)
  | .implied | .accumulator | .immediate | .relative => none

/-- Indexing an address wraps after the last one. -/
theorem Resolved.operand_indexed {base : Address} {n : Nat} (h : base.toNat = n) (index : UInt8) :
    ∃ a : Address, a.toNat = (n + index.toNat) % 65536 ∧
      (indexed base index).operand = .address a := by
  refine ⟨base + index.toUInt16, ?_, rfl⟩
  rw [UInt16.toNat_add, UInt8.toNat_toUInt16, h]

/-- A mode with an effective address yields that address as the operand. -/
theorem Mode.resolve_effective (m : Machine) (mode : Mode) {ea : Nat}
    (h : mode.effective m = some ea) :
    ∃ a : Address, a.toNat = ea ∧ (mode.resolve m).operand = .address a := by
  have hbyte := m.toNat_codeByte_one
  have hword := m.toNat_codeWord
  have hsum (index : UInt8) : (m.bus.read (m.regs.pc + 1) + index).toNat =
      (m.codeByte 1 + index.toNat) % 256 := by rw [UInt8.toNat_add, hbyte]
  cases mode with
  | implied | accumulator | immediate | relative => cases h
  | zeroPage =>
    cases h
    exact ⟨_, (UInt8.toNat_toUInt16 _).trans hbyte, rfl⟩
  | zeroPageX =>
    cases h
    exact ⟨_, (UInt8.toNat_toUInt16 _).trans (hsum m.regs.x), rfl⟩
  | zeroPageY =>
    cases h
    exact ⟨_, (UInt8.toNat_toUInt16 _).trans (hsum m.regs.y), rfl⟩
  | absolute =>
    cases h
    exact ⟨_, hword, rfl⟩
  | absoluteX =>
    cases h
    exact Resolved.operand_indexed hword m.regs.x
  | absoluteY =>
    cases h
    exact Resolved.operand_indexed hword m.regs.y
  | indirect =>
    cases h
    exact ⟨_, m.bus.toNat_samePageWord hword, rfl⟩
  | indexedIndirect =>
    cases h
    exact ⟨_, m.bus.toNat_zeroPageWord (hsum m.regs.x), rfl⟩
  | indirectIndexed =>
    cases h
    exact Resolved.operand_indexed (m.bus.toNat_zeroPageWord hbyte) m.regs.y

/-! ### The next PC -/

/-- A byte read as a two's complement number. -/
def signed (b : Nat) : Int := if b < 128 then b else b - 256

/-- The instruction is a branch whose flag has the expected value. -/
def Mnemonic.taken (r : Registers) : Mnemonic → Bool
  | bcc => !r.isSet Flag.carry
  | bcs => r.isSet Flag.carry
  | bne => !r.isSet Flag.zero
  | beq => r.isSet Flag.zero
  | bpl => !r.isSet Flag.negative
  | bmi => r.isSet Flag.negative
  | bvc => !r.isSet Flag.overflow
  | bvs => r.isSet Flag.overflow
  | _ => false

/-- The bus once BRK has pushed the address after its padding byte, high byte
first, and then the status byte with the break and the unused bit. -/
def Machine.brokenBus (m : Machine) : Bus :=
  let back := (m.regs.pc.toNat + 2) % 65536
  let sp := m.regs.sp.toNat
  ((m.bus.write (UInt16.ofNat (256 + sp)) (UInt8.ofNat (back / 256))).write
    (UInt16.ofNat (256 + (sp + 255) % 256)) (UInt8.ofNat back)).write
      (UInt16.ofNat (256 + (sp + 254) % 256)) (m.regs.p ||| 0x30)

/-- PC after an instruction with this opcode, in terms of the machine before
it. -/
def Opcode.nextPc (op : Opcode) (m : Machine) : Int :=
  let pc := m.regs.pc.toNat
  let word := m.codeWord
  match op.mnemonic with
  | .jmp =>
    if op.mode = .indirect then m.bus.wordAt word (word / 256 * 256 + (word + 1) % 256) else word
  | .jsr => word
  | .rts => (m.stackWord 1 + 1) % 65536
  | .rti => m.stackWord 2
  | .brk => m.brokenBus.wordAt 0xFFFE 0xFFFF
  | mnemonic =>
    if mnemonic.taken m.regs then (pc + 2 + signed (m.codeByte 1)) % 65536
    else (pc + op.length.toNat) % 65536

/-! ### Actions and PC -/

/-- A signed distance wraps at both ends of memory. -/
theorem Address.toNat_offsetSigned (a : Address) (d : UInt8) :
    ((offsetSigned a d).1.toNat : Int) = (a.toNat + signed d.toNat) % 65536 := by
  have hd := d.toNat_lt
  have hlt : d < 0x80 ↔ d.toNat < 128 := UInt8.lt_iff_toNat_lt
  have hff : (0xFF00 : UInt16).toNat = 65280 := rfl
  simp only [offsetSigned, signExtend, signed, UInt16.toNat_add, hlt]
  split
  · rw [UInt8.toNat_toUInt16]
    omega
  · rw [UInt16.toNat_add, UInt8.toNat_toUInt16, hff]
    omega

namespace Action

/-- The ways of working that do not look at PC. -/
def KeepsPc : Action → Prop
  | take f => ∀ v e, (f v e).regs.pc = e.regs.pc
  | modify _ next => ∀ v e, (next v e).regs.pc = e.regs.pc
  | internal f => ∀ r, (f r).pc = r.pc
  | pull f => ∀ r v, (f r v).pc = r.pc
  | store _ | push _ => True
  | _ => False

/-- They leave PC past the instruction. -/
theorem run_pc {action : Action} (hk : action.KeepsPc) {operand : Operand} {m : Machine}
    {o : Outcome} (h : action.run operand m = some o) : o.effect.regs.pc = m.regs.pc := by
  cases action with
  | take f =>
    obtain ⟨v, -, rfl⟩ := Option.map_eq_some_iff.mp h
    exact hk v _
  | store value =>
    obtain ⟨a, -, rfl⟩ := Option.map_eq_some_iff.mp h
    rfl
  | modify change next =>
    cases operand with
    | accumulator | address a =>
      cases h
      exact hk _ _
    | implied | immediate v | relative d => cases h
  | internal f =>
    cases h
    exact hk _
  | push value =>
    cases h
    rfl
  | pull f =>
    cases h
    exact hk _ _
  | _ => exact hk.elim

/-- Whatever the action does on its own account, it leaves a part of the
registers as it is. -/
def Spares {α : Type} (part : Registers → α) : Action → Prop
  | take f => ∀ v e, part (f v e).regs = part e.regs
  | modify _ next => ∀ v e, part (next v e).regs = part e.regs
  | internal f => ∀ r, part (f r) = part r
  | pull f => ∀ r v, part (f r v) = part r
  | _ => True

/-- Actions of every kind move SP and PC, and change flags and the last result.
A part of the registers that is none of these, and is not the operand, is left
alone. -/
theorem run_spares {α : Type} {part : Registers → α}
    (hpart : ∀ {r s : Registers}, s.a = r.a → s.x = r.x → s.y = r.y →
      s.totalCycles = r.totalCycles → part s = part r)
    {action : Action} (hs : action.Spares part) {operand : Operand} {m : Machine}
    (hoperand : operand = .accumulator → ∀ v, part (m.regs.setA v) = part m.regs) {o : Outcome}
    (h : action.run operand m = some o) : part o.effect.regs = part m.regs := by
  cases action with
  | take f =>
    obtain ⟨v, -, rfl⟩ := Option.map_eq_some_iff.mp h
    exact hs v _
  | modify change next =>
    cases operand with
    | accumulator =>
      cases h
      exact (hs _ _).trans (hoperand rfl _)
    | address a =>
      cases h
      exact (hs _ _).trans (hpart rfl rfl rfl rfl)
    | implied | immediate v | relative d => cases h
  | internal f =>
    cases h
    exact hs _
  | pull f =>
    cases h
    exact (hs _ _).trans (hpart rfl rfl rfl rfl)
  | store value | jump | callSubroutine =>
    obtain ⟨a, -, rfl⟩ := Option.map_eq_some_iff.mp h
    exact hpart rfl rfl rfl rfl
  | branch flag expected =>
    cases operand with
    | relative d =>
      cases h
      unfold branchBy
      split <;> exact hpart rfl rfl rfl rfl
    | _ => cases h
  | push value | returnFromSubroutine | returnFromInterrupt | softwareInterrupt =>
    cases h
    exact hpart rfl rfl rfl rfl

/-- A branch that is taken moves PC by its signed distance. -/
theorem branchBy_pc (distance flag : UInt8) (expected : Bool) (m : Machine) :
    ((branchBy distance flag expected m).effect.regs.pc.toNat : Int) =
      if m.regs.isSet flag = expected then (m.regs.pc.toNat + signed distance.toNat) % 65536
      else m.regs.pc.toNat := by
  unfold branchBy
  split
  · exact Address.toNat_offsetSigned _ _
  · rfl

theorem leaveSubroutine_pc (m : Machine) :
    (leaveSubroutine m).regs.pc.toNat = (m.stackWord 1 + 1) % 65536 := by
  show (m.popWord.1 + 1).toNat = _
  rw [UInt16.toNat_add, m.toNat_popWord]
  rfl

/-- The popped PC lies above the popped status byte. -/
theorem leaveInterrupt_pc (m : Machine) : (leaveInterrupt m).regs.pc.toNat = m.stackWord 2 := by
  have hpop : (leaveInterrupt m).regs.pc.toNat =
      m.bus.wordAt (256 + ((m.regs.sp + 1).toNat + 1) % 256)
        (256 + ((m.regs.sp + 1).toNat + 1 + 1) % 256) :=
    Machine.toNat_popWord { m.pop.2 with regs := m.pop.2.regs.setStatus m.pop.1 }
  rw [hpop, UInt8.toNat_add, UInt8.toNat_one, Machine.stackWord]
  congr 2 <;> omega

end Action

/-! ### Instructions and PC -/

theorem Opcode.past_pc (op : Opcode) (m : Machine) :
    (op.past m).regs.pc.toNat = (m.regs.pc.toNat + op.length.toNat) % 65536 := by
  show (m.regs.pc + op.length.toUInt16).toNat = _
  rw [UInt16.toNat_add, UInt8.toNat_toUInt16]

theorem Opcode.execute_eq_some {op : Opcode} {m n : Machine} {cycles : Cycles}
    (h : op.execute m = some (n, cycles)) : ∃ branch,
      op.mnemonic.execute (op.mode.resolve m).operand (op.past m) = some (n, branch) := by
  rw [execute_eq] at h
  obtain ⟨done, hdone, he⟩ := Option.map_eq_some_iff.mp h
  cases he
  exact ⟨done.2, hdone⟩

theorem Machine.instruction_eq_ok {m n : Machine} {undocumented : Bool} {cycles : Cycles}
    (h : m.instruction undocumented = .ok (n, cycles)) :
    ∃ op, Opcode.decode? (m.bus.read m.regs.pc) = some op ∧ op.execute m = some (n, cycles) := by
  unfold instruction at h
  simp only at h
  split at h
  · rename_i done hdone
    cases h
    obtain ⟨op, hop, he⟩ := Option.bind_eq_some_iff.mp hdone
    exact ⟨op, (Option.filter_eq_some_iff.mp hop).1, he⟩
  · cases h

/-- The pushes of BRK, whose PC is past its padding byte. -/
theorem Machine.enter_brk_bus {m : Machine} {op : Opcode} (h : op.length = 2) :
    (Interrupt.brk.enter (op.past m)).bus = m.brokenBus := by
  have hpc : (op.past m).regs.pc.toNat = (m.regs.pc.toNat + 2) % 65536 := by
    rw [op.past_pc, h]
    rfl
  have hsp1 := toNat_sub_one m.regs.sp
  have hsp2 : (m.regs.sp - 1 - 1).toNat = (m.regs.sp.toNat + 254) % 256 := by
    rw [toNat_sub_one, hsp1]
    omega
  have hstatus : m.regs.p ||| Flag.unused ||| Flag.brk = m.regs.p ||| 0x30 := UInt8.or_assoc ..
  simp only [brokenBus]
  rw [← stackAddress_eq_ofNat rfl, ← stackAddress_eq_ofNat hsp1, ← stackAddress_eq_ofNat hsp2,
    ← Address.high_eq_ofNat hpc, ← Address.low_eq_ofNat hpc, ← hstatus]
  rfl

/-- The vector of BRK is read after its pushes. -/
theorem Machine.enter_brk_pc {m : Machine} {op : Opcode} (h : op.length = 2) :
    (Interrupt.brk.enter (op.past m)).regs.pc.toNat = m.brokenBus.wordAt 0xFFFE 0xFFFF := by
  show ((Interrupt.brk.enter (op.past m)).bus.readWord Interrupt.irqVector).toNat = _
  rw [enter_brk_bus h]
  exact Bus.toNat_ofBytes_read _ rfl rfl

namespace Mnemonic

/-- Settling the flags changes registers only. -/
theorem execute_eq_some {mnemonic : Mnemonic} {operand : Operand} {m n : Machine} {branch : UInt8}
    (h : mnemonic.execute operand m = some (n, branch)) :
    ∃ o, mnemonic.action.run operand m = some o ∧
      o.effect.settle mnemonic.autoFlags = some n.regs ∧ n.bus = o.bus ∧
      branch = o.branchCycles := by
  rw [execute_eq] at h
  obtain ⟨o, ho, hs⟩ := Option.bind_eq_some_iff.mp h
  obtain ⟨regs, hregs, he⟩ := Option.map_eq_some_iff.mp hs
  cases he
  exact ⟨o, ho, hregs, rfl, rfl⟩

/-- An instruction jumps, branches on one flag, or leaves PC alone. -/
theorem action_cases (mnemonic : Mnemonic) (hj : mnemonic.isJump = false) :
    (mnemonic.action.KeepsPc ∧ ∀ r, mnemonic.taken r = false) ∨
      ∃ flag expected, mnemonic.action = .branch flag expected ∧
        ∀ r, mnemonic.taken r = (r.isSet flag == expected) := by
  cases mnemonic
  case jmp | jsr | rts | rti | brk => cases hj
  case bcc | bcs | bne | beq | bpl | bmi | bvc | bvs =>
    exact .inr ⟨_, _, rfl, fun r => by simp [taken]⟩
  case sta | stx | sty | sax | pha | php => exact .inl ⟨trivial, fun _ => rfl⟩
  case pla | plp => exact .inl ⟨fun _ _ => rfl, fun _ => rfl⟩
  all_goals first
    | exact .inl ⟨fun _ => rfl, fun _ => rfl⟩
    | exact .inl ⟨fun _ _ => rfl, fun _ => rfl⟩

end Mnemonic

namespace Opcode

/-- An instruction is its action, the settling of its flags and the sum of its
cycles. -/
theorem execute_outcome {op : Opcode} {m n : Machine} {cycles : Cycles}
    (h : op.execute m = some (n, cycles)) :
    ∃ o, op.mnemonic.action.run (op.mode.resolve m).operand (op.past m) = some o ∧
      o.effect.settle op.mnemonic.autoFlags = some n.regs ∧ n.bus = o.bus ∧
      cycles = ⟨op.cycles, op.access.indexingCycles op.mode (op.mode.resolve m).crossed,
        o.branchCycles⟩ := by
  rw [execute_eq] at h
  obtain ⟨⟨n', branch⟩, hbody, he⟩ := Option.map_eq_some_iff.mp h
  obtain ⟨o, ho, hregs, hbus, hbranch⟩ := Mnemonic.execute_eq_some hbody
  cases he
  exact ⟨o, ho, hregs, hbus, by rw [hbranch]⟩

/-- A property of all entries of the matrix, checked one by one. -/
theorem forall_decode? {P : Opcode → Bool}
    (h : ∀ i : Fin 256, (decode? (UInt8.ofNat i.val)).all P = true) {byte : UInt8} {op : Opcode}
    (hd : decode? byte = some op) : P op = true := by
  have hbyte := forall_byte (P := fun byte => (decode? byte).all P = true) h byte
  rwa [hd] at hbyte

/-- The modes of the opcodes that jump. -/
def jumpsByMode (op : Opcode) : Bool :=
  match op.mnemonic with
  | .jmp => op.mode == .absolute || op.mode == .indirect
  | .jsr => op.mode == .absolute
  | .brk => op.length == 2
  | _ => true

theorem jumpsByMode_of_decode? {byte : UInt8} {op : Opcode} (h : decode? byte = some op) :
    op.jumpsByMode = true :=
  forall_decode? (by decide +kernel) h

section
variable {op : Opcode} {m : Machine} {o : Outcome}

/-- An instruction that does not jump branches or goes on. -/
theorem nextPc_of_not_isJump (hj : op.mnemonic.isJump = false) (m : Machine) : op.nextPc m =
    if op.mnemonic.taken m.regs then (m.regs.pc.toNat + 2 + signed (m.codeByte 1)) % 65536
    else (m.regs.pc.toNat + op.length.toNat : Nat) % 65536 := by
  unfold nextPc
  split <;> simp_all [Mnemonic.isJump]

theorem run_nextPc_of_not_isJump (hj : op.mnemonic.isJump = false)
    (h : op.mnemonic.action.run (op.mode.resolve m).operand (op.past m) = some o) :
    (o.effect.regs.pc.toNat : Int) = op.nextPc m := by
  have hpast := op.past_pc m
  rw [nextPc_of_not_isJump hj]
  rcases op.mnemonic.action_cases hj with ⟨hk, ht⟩ | ⟨flag, expected, hb, ht⟩
  · rw [Action.run_pc hk h, hpast, ht]
    simp
  · rw [hb] at h
    -- only the relative mode yields a distance
    have hmode : op.mode = .relative := by
      revert h
      cases hmode : op.mode <;> simp [Mode.resolve, Mode.encoding, Resolved.indexed, Action.run]
    have hlen : op.length = 2 := by rw [length, hmode]; rfl
    have hfold : (op.past m).regs.isSet flag = m.regs.isSet flag := rfl
    rw [hmode] at h
    cases h
    rw [Action.branchBy_pc, hpast, hlen, m.toNat_codeByte_one, hfold, ht]
    have htwo : (2 : UInt8).toNat = 2 := rfl
    by_cases htaken : m.regs.isSet flag = expected
    · simp only [htaken, htwo, ↓reduceIte, beq_self_eq_true]
      omega
    · simp only [htaken, htwo, ↓reduceIte, beq_eq_false_iff_ne.2 htaken, Bool.false_eq_true]
      omega

theorem run_nextPc_of_isJump (hj : op.mnemonic.isJump = true) (hm : op.jumpsByMode = true)
    (h : op.mnemonic.action.run (op.mode.resolve m).operand (op.past m) = some o) :
    (o.effect.regs.pc.toNat : Int) = op.nextPc m := by
  have hword := m.toNat_codeWord
  obtain ⟨mnemonic, mode, base, documented⟩ := op
  cases mnemonic
  case jmp =>
    simp only [jumpsByMode, Bool.or_eq_true, beq_iff_eq] at hm
    rcases hm with rfl | rfl
    · cases h
      exact congrArg Int.ofNat hword
    · cases h
      exact congrArg Int.ofNat (m.bus.toNat_samePageWord hword)
  case jsr =>
    simp only [jumpsByMode, beq_iff_eq] at hm
    subst hm
    cases h
    exact congrArg Int.ofNat hword
  case rts =>
    cases h
    exact congrArg Int.ofNat (Action.leaveSubroutine_pc _)
  case rti =>
    cases h
    exact congrArg Int.ofNat (Action.leaveInterrupt_pc _)
  case brk =>
    simp only [jumpsByMode, beq_iff_eq] at hm
    cases h
    exact congrArg Int.ofNat (Machine.enter_brk_pc hm)
  all_goals cases hj

end

/-- **Where an instruction leads.** -/
theorem execute_nextPc {byte : UInt8} {op : Opcode} {m n : Machine} {cycles : Cycles}
    (hd : decode? byte = some op) (h : op.execute m = some (n, cycles)) :
    (n.regs.pc.toNat : Int) = op.nextPc m := by
  obtain ⟨o, ho, hregs, -, -⟩ := execute_outcome h
  obtain ⟨p, hp⟩ := Effect.settle_eq hregs
  have hpc : n.regs.pc = o.effect.regs.pc := by rw [hp]
  rw [hpc]
  cases hj : op.mnemonic.isJump with
  | false => exact run_nextPc_of_not_isJump hj ho
  | true => exact run_nextPc_of_isJump hj (jumpsByMode_of_decode? hd) ho

end Opcode

/-! ### Working at an address -/

/-- The ways of working that look at memory in one place. -/
def Action.Local : Action → Prop
  | .take _ | .store _ | .modify .. | .internal _ => True
  | _ => False

/-- They do the same on every machine with the same registers and the same
byte in that place, and write at most there. -/
theorem Action.run_local {action : Action} (hl : action.Local) {a : Address} {m : Machine}
    {o : Outcome} (h : action.run (.address a) m = some o) :
    ∃ stored : Option UInt8, ∀ m' : Machine, m'.regs = m.regs → m'.bus.read a = m.bus.read a →
      action.run (.address a) m' = some ⟨o.effect, stored.elim m'.bus (m'.bus.write a), 0⟩ := by
  cases action with
  | take f =>
    cases h
    refine ⟨none, fun m' hr hb => ?_⟩
    simp only [run, Operand.byte?, hr, hb, Option.map_some, Option.elim_none]
  | store value =>
    cases h
    refine ⟨some (value m.regs), fun m' hr _ => ?_⟩
    simp only [run, Operand.address?, Outcome.ofMachine, hr, Option.map_some, Option.elim_some]
  | modify change next =>
    cases h
    refine ⟨some (change (m.regs.isSet Flag.carry) (m.bus.read a)).value, fun m' hr hb => ?_⟩
    simp only [run, replace_address, hr, hb, Option.elim_some]
  | internal f =>
    cases h
    refine ⟨none, fun m' hr _ => ?_⟩
    simp only [run, Outcome.ofMachine, hr, Option.elim_none]
  | _ => exact hl.elim

namespace Mnemonic

theorem action_local (mnemonic : Mnemonic) (h : mnemonic.access ≠ .none) : mnemonic.action.Local := by
  cases mnemonic <;> first | exact trivial | exact absurd rfl h

/-- The instruction, on this machine, works at this address only: its
registers and the byte there decide what it does, and it writes at most
there. -/
def WorksAt (mnemonic : Mnemonic) (a : Address) (m : Machine) : Prop :=
  ∃ (regs : Registers) (stored : Option UInt8), ∀ m' : Machine,
    m'.regs = m.regs → m'.bus.read a = m.bus.read a →
      mnemonic.execute (.address a) m' = some (⟨regs, stored.elim m'.bus (m'.bus.write a)⟩, 0)

theorem worksAt_of_execute {mnemonic : Mnemonic} (hm : mnemonic.access ≠ .none) {a : Address}
    {m n : Machine} {branch : UInt8} (h : mnemonic.execute (.address a) m = some (n, branch)) :
    mnemonic.WorksAt a m := by
  obtain ⟨o, ho, hregs, -, -⟩ := execute_eq_some h
  obtain ⟨stored, hstored⟩ := Action.run_local (mnemonic.action_local hm) ho
  refine ⟨n.regs, stored, fun m' hr hb => ?_⟩
  rw [execute_eq, hstored m' hr hb, Option.bind_some, hregs, Option.map_some]

end Mnemonic

/-! ### Steps -/

namespace Computer

/-- The machine that a step finds, an implied reset done. -/
def found (c : Computer) : Machine := ⟨c.started.cpu.regs, c.bus⟩

/-- A step that serves no interrupt executes the instruction at PC. -/
theorem step_ok_execute {c c' : Computer} (hs : c.bus.AtRest)
    (hi : c.started.cpu.lines.next (c.started.cpu.regs.isSet Flag.irqDisable) = none)
    (h : c.step = (.ok true, c')) : ∃ op n cycles,
      Opcode.decode? (c.found.bus.read c.found.regs.pc) = some op ∧
        op.execute c.found = some (n, cycles) ∧
        c'.cpu = (c.started.complete n cycles.total).cpu ∧
        c'.bus.latching c.bus.fault = n.bus := by
  obtain ⟨n, total, hw, hcpu, hbus⟩ := step_ok_complete hs h
  rw [started_bus] at hw
  have hwork : work c.started.cpu c.found =
      (c.found.instruction c.started.cpu.config.undocumentedOpcodes).map fun done =>
        (done.1, done.2.total) := by
    unfold work
    simp only [found, hi]
  have hinstruction := hwork.symm.trans hw
  cases hx : c.found.instruction c.started.cpu.config.undocumentedOpcodes with
  | error reason =>
    rw [hx] at hinstruction
    cases hinstruction
  | ok done =>
    obtain ⟨op, hop, he⟩ := Machine.instruction_eq_ok hx
    rw [hx] at hinstruction
    cases hinstruction
    exact ⟨op, _, _, hop, he, hcpu, hbus⟩

/-- A step that serves an interrupt enters its handler. -/
theorem step_ok_enter {c c' : Computer} (hs : c.bus.AtRest) {kind : Interrupt}
    (hi : c.started.cpu.lines.next (c.started.cpu.regs.isSet Flag.irqDisable) = some kind)
    (h : c.step = (.ok true, c')) :
    c'.cpu = (c.started.complete (kind.enter c.found) interruptCycles).cpu ∧
      c'.bus.latching c.bus.fault = (kind.enter c.found).bus := by
  obtain ⟨n, total, hw, hcpu, hbus⟩ := step_ok_complete hs h
  rw [started_bus] at hw
  have hwork : work c.started.cpu c.found = .ok (kind.enter c.found, interruptCycles) := by
    unfold work
    simp only [found, hi]
  cases hwork.symm.trans hw
  exact ⟨hcpu, hbus⟩

theorem step_ok_instruction {c c' : Computer} (hs : c.bus.AtRest)
    (hi : c.started.cpu.lines.next (c.started.cpu.regs.isSet Flag.irqDisable) = none)
    (h : c.step = (.ok true, c')) : ∃ op n cycles,
      Opcode.decode? (c.found.bus.read c.found.regs.pc) = some op ∧
        op.execute c.found = some (n, cycles) ∧ c'.cpu.regs = n.regs.addCycles cycles.total ∧
        ∀ slot, c'.bus.memory.get slot = n.bus.memory.get slot := by
  obtain ⟨op, n, cycles, hop, he, hcpu, hbus⟩ := step_ok_execute hs hi h
  exact ⟨op, n, cycles, hop, he, by rw [hcpu]; rfl, fun slot => by rw [← hbus]; rfl⟩

/-- **Where an instruction works and where it leads.** A step that executes
an instruction works at the effective address of its mode, if the mode has
one, and ends with PC where the opcode leads. -/
theorem step_targets {c c' : Computer} (hs : c.bus.AtRest)
    (hi : c.started.cpu.lines.next (c.started.cpu.regs.isSet Flag.irqDisable) = none)
    (h : c.step = (.ok true, c')) :
    ∃ op, Opcode.decode? (c.bus.read c.started.cpu.regs.pc) = some op ∧
      (∀ ea, op.mode.effective c.found = some ea → ∃ a : Address, a.toNat = ea ∧
        (op.access ≠ .none → op.mnemonic.WorksAt a (op.past c.found)) ∧
        ∃ n branch cycles, op.mnemonic.execute (.address a) (op.past c.found) = some (n, branch) ∧
          c'.cpu.regs = n.regs.addCycles cycles ∧
          ∀ slot, c'.bus.memory.get slot = n.bus.memory.get slot) ∧
      (c'.cpu.regs.pc.toNat : Int) = op.nextPc c.found := by
  obtain ⟨op, n, cycles, hop, he, hregs, hmemory⟩ := step_ok_instruction hs hi h
  refine ⟨op, hop, fun ea hea => ?_, ?_⟩
  · obtain ⟨a, ha, hoperand⟩ := Mode.resolve_effective c.found op.mode hea
    obtain ⟨branch, hbody⟩ := Opcode.execute_eq_some he
    rw [hoperand] at hbody
    exact ⟨a, ha, fun hm => Mnemonic.worksAt_of_execute hm hbody, n, branch, _, hbody, hregs,
      hmemory⟩
  · rw [hregs]
    exact Opcode.execute_nextPc hop he

/-- `JMP ($10FF)` at `$FFFE`: the high byte of its operand is the one at
`$0000`, which work memory repeats at `$1000`, where the pointer takes its
high byte. -/
def jumpAtTop : Computer where
  cpu := { Processor.powerOn {} with
    regs := { Registers.powerOn {} with pc := 0xFFFE }
    phase := .fetching }
  bus := ((((Bus.withMapping (Nrom.ofSize 16384).toMapping).poke 0xFFFE 0x6C).poke 0xFFFF 0xFF).poke
    0x0000 0x10).poke 0x00FF 0x34

theorem step_targets_jump : ∃ op, Opcode.decode? (jumpAtTop.bus.read 0xFFFE) = some op ∧
    op.mode.effective jumpAtTop.found = some 0x1034 ∧
    (jumpAtTop.step.2.cpu.regs.pc.toNat : Int) = op.nextPc jumpAtTop.found ∧
    op.nextPc jumpAtTop.found = 0x1034 := by
  have hstep : jumpAtTop.step = (.ok true, jumpAtTop.step.2) := Prod.ext rfl rfl
  obtain ⟨op, hop, -, hpc⟩ := step_targets (c := jumpAtTop) ⟨rfl, rfl⟩ rfl hstep
  have hjmp : Opcode.decode? (jumpAtTop.bus.read 0xFFFE) = some ⟨.jmp, .indirect, 5, true⟩ := by
    decide +kernel
  cases hop.symm.trans hjmp
  exact ⟨_, hjmp, by decide +kernel, hpc, by decide +kernel⟩

end Computer
end Cpu6502
