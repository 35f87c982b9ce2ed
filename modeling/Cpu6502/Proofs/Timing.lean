/-
# How long a step takes

The cycles of an instruction follow from its addressing mode and from what it
does at the address: reading, writing or both (`Mode.timing`). Indexing a
16-bit address costs a read one cycle more when it carries into the page, and
a branch costs more when it is taken, and again when it leaves the page of the
next instruction. Jumps, pushes, pops and interrupt entries have times of
their own.

The matrix enters the cycles without what depends on the run, and the access
class adds the cycle of indexing; both agree with the rule for every opcode
(`Opcode.wellTimed_of_decode?`). So a step that succeeds takes the cycles of the rule
(`Computer.step_timing`).

Key definitions: `Mode.timing`, `Mode.crosses`, `Opcode.timing`.
Key theorems: `Address.offset_crossed`, `Mode.resolve_crossed`,
`Opcode.execute_timing`, `Computer.step_timing`.
-/
import Cpu6502.Proofs.Totality

namespace Cpu6502

/-! ### The rule -/

/-- What an action does at its effective address. -/
def Action.use : Action → Access
  | store _ => .write
  | modify .. => .readModifyWrite
  | _ => .read

namespace Mode

/-- Indexing carries into the page of the address. -/
def crosses (mode : Mode) (m : Machine) : Bool :=
  let b1 := m.codeByte 1
  match mode with
  | .absoluteX => 256 ≤ m.codeWord % 256 + m.regs.x.toNat
  | .absoluteY => 256 ≤ m.codeWord % 256 + m.regs.y.toNat
  | .indirectIndexed => 256 ≤ m.bus.wordAt b1 ((b1 + 1) % 256) % 256 + m.regs.y.toNat
  | _ => false

/-- The cycles of an instruction that indexes a 16-bit address. -/
def indexedTiming (base : Nat) (use : Access) (crosses : Bool) : Nat :=
  match use with
  | .write => base + 1
  | .readModifyWrite => base + 3
  | _ => if crosses then base + 1 else base

/-- The cycles of an instruction that works on an operand of this mode. -/
def timing (mode : Mode) (use : Access) (crosses : Bool) : Nat :=
  match mode with
  | .zeroPage => if use = .readModifyWrite then 5 else 3
  | .zeroPageX | .zeroPageY | .absolute => if use = .readModifyWrite then 6 else 4
  | .absoluteX | .absoluteY => indexedTiming 4 use crosses
  | .indexedIndirect => if use = .readModifyWrite then 8 else 6
  | .indirectIndexed => indexedTiming 5 use crosses
  | _ => 2

end Mode

namespace Opcode

/-- The cycles of an instruction that does not branch. -/
def straightTiming (op : Opcode) (crosses : Bool) : Nat :=
  match op.mnemonic with
  | .jmp => if op.mode = .indirect then 5 else 3
  | .jsr | .rts | .rti => 6
  | .brk => 7
  | .pha | .php => 3
  | .pla | .plp => 4
  | mnemonic => op.mode.timing mnemonic.action.use crosses

/-- The cycles of an instruction, in terms of the machine before it. -/
def timing (op : Opcode) (m : Machine) : Nat :=
  let next : Int := (m.regs.pc.toNat + 2) % 65536
  let target : Int := (m.regs.pc.toNat + 2 + signed (m.codeByte 1)) % 65536
  if op.mode = .relative then
    if op.mnemonic.taken m.regs then
      if target / 256 = next / 256 then 3 else 4
    else 2
  else op.straightTiming (op.mode.crosses m)

end Opcode

/-! ### Crossing pages -/

/-- Indexing leaves the page when the low bytes carry, also past the last
address. -/
theorem Address.offset_crossed (a : Address) (d : UInt8) :
    (offset a d).2 = decide (256 ≤ a.toNat % 256 + d.toNat) := by
  have ha := a.toNat_lt
  have hd := d.toNat_lt
  have hhigh : high (a + d.toUInt16) = high a ↔
      (a.toNat + d.toNat) % 65536 / 256 = a.toNat / 256 := by
    rw [← UInt8.toNat_inj, toNat_high, toNat_high, UInt16.toNat_add, UInt8.toNat_toUInt16]
  rw [Bool.eq_iff_iff, decide_eq_true_eq]
  simp only [offset, bne_iff_ne, ne_eq, hhigh]
  omega

theorem Address.offsetSigned_crossed (a : Address) (d : UInt8) :
    (offsetSigned a d).2 =
      decide (¬ ((a.toNat + signed d.toNat) % 65536 / 256 : Int) = (a.toNat / 256 : Int)) := by
  have htarget := toNat_offsetSigned a d
  have hhigh : high (offsetSigned a d).1 = high a ↔
      (offsetSigned a d).1.toNat / 256 = a.toNat / 256 := by
    rw [← UInt8.toNat_inj, toNat_high, toNat_high]
  have hcrossed : (offsetSigned a d).2 = (high (offsetSigned a d).1 != high a) := rfl
  rw [hcrossed, Bool.eq_iff_iff, decide_eq_true_eq, bne_iff_ne, ne_eq, hhigh, ← htarget]
  omega

theorem Mode.resolve_crossed (m : Machine) (mode : Mode) :
    (mode.resolve m).crossed = mode.crosses m := by
  have hword := m.toNat_codeWord
  cases mode with
  | absoluteX | absoluteY =>
    refine (Address.offset_crossed _ _).trans ?_
    rw [hword]
    rfl
  | indirectIndexed =>
    refine (Address.offset_crossed _ _).trans ?_
    rw [m.bus.toNat_zeroPageWord m.toNat_codeByte_one]
    rfl
  | _ => rfl

/-! ### Branches -/

namespace Action

/-- The action is a branch. -/
def isBranch : Action → Bool
  | branch .. => true
  | _ => false

theorem run_branchCycles {action : Action} (hb : action.isBranch = false) {operand : Operand}
    {m : Machine} {o : Outcome} (h : action.run operand m = some o) : o.branchCycles = 0 := by
  cases action with
  | branch flag expected => cases hb
  | take f | store value | jump | callSubroutine =>
    obtain ⟨v, -, rfl⟩ := Option.map_eq_some_iff.mp h
    rfl
  | modify change next =>
    cases operand with
    | accumulator | address a =>
      cases h
      rfl
    | implied | immediate v | relative d => cases h
  | _ =>
    cases h
    rfl

theorem branchBy_branchCycles (distance flag : UInt8) (expected : Bool) (m : Machine) :
    (branchBy distance flag expected m).branchCycles.toNat =
      if m.regs.isSet flag = expected then
        if (m.regs.pc.toNat + signed distance.toNat) % 65536 / 256 = (m.regs.pc.toNat / 256 : Int)
        then 1 else 2
      else 0 := by
  unfold branchBy
  by_cases htaken : m.regs.isSet flag = expected
  · have hcrossed := Address.offsetSigned_crossed m.regs.pc distance
    by_cases hpage : (m.regs.pc.toNat + signed distance.toNat) % 65536 / 256 =
        (m.regs.pc.toNat / 256 : Int)
    · simp only [htaken, hcrossed, hpage]
      rfl
    · simp only [htaken, hcrossed, hpage]
      rfl
  · simp only [htaken]
    rfl

end Action

namespace Mnemonic

theorem branch_cases (mnemonic : Mnemonic) (h : mnemonic.action.isBranch = true) :
    ∃ flag expected, mnemonic.action = .branch flag expected ∧
      ∀ r, mnemonic.taken r = (r.isSet flag == expected) := by
  cases mnemonic
  case bcc | bcs | bne | beq | bpl | bmi | bvc | bvs => exact ⟨_, _, rfl, fun r => by simp [taken]⟩
  all_goals cases h

end Mnemonic

/-! ### Instructions -/

namespace Opcode

/-- The cycles before those of a branch agree with the rule, and the branches
are the instructions of the relative mode. -/
def wellTimed (op : Opcode) (crosses : Bool) : Bool :=
  let cycles := op.cycles.toNat + (op.access.indexingCycles op.mode crosses).toNat
  if op.mode = .relative then op.mnemonic.action.isBranch && cycles == 2
  else !op.mnemonic.action.isBranch && cycles == op.straightTiming crosses

theorem wellTimed_of_decode? {byte : UInt8} {op : Opcode} (h : decode? byte = some op)
    (crosses : Bool) : op.wellTimed crosses = true := by
  revert crosses
  simpa using forall_decode? (P := fun op => decide (∀ crosses, op.wellTimed crosses = true))
    (by decide +kernel) h

/-- **What an instruction costs.** -/
theorem execute_timing {byte : UInt8} {op : Opcode} {m n : Machine} {cycles : Cycles}
    (hd : decode? byte = some op) (h : op.execute m = some (n, cycles)) :
    cycles.total = op.timing m := by
  have htimed := wellTimed_of_decode? hd (op.mode.crosses m)
  obtain ⟨o, ho, -, -, rfl⟩ := execute_outcome h
  simp only [Cycles.total, Mode.resolve_crossed]
  unfold wellTimed at htimed
  by_cases hmode : op.mode = .relative
  -- a branch costs two cycles and those of its outcome
  · rw [if_pos hmode, Bool.and_eq_true, beq_iff_eq] at htimed
    obtain ⟨hb, hsum⟩ := htimed
    obtain ⟨flag, expected, haction, htaken⟩ := op.mnemonic.branch_cases hb
    have hoperand : (op.mode.resolve m).operand = .relative (m.bus.read (m.regs.pc + 1)) := by
      rw [hmode]
      rfl
    have hlen : op.length.toNat = 2 := by rw [length, hmode]; rfl
    have hfold : (op.past m).regs.isSet flag = m.regs.isSet flag := rfl
    rw [haction, hoperand] at ho
    cases ho
    rw [hsum, Action.branchBy_branchCycles, op.past_pc m, hlen, m.toNat_codeByte_one, hfold]
    simp only [timing, if_pos hmode, htaken, beq_iff_eq]
    have htarget : (((m.regs.pc.toNat + 2) % 65536 : Nat) + signed (m.codeByte 1)) % 65536 =
        (m.regs.pc.toNat + 2 + signed (m.codeByte 1)) % 65536 := by omega
    have hnext : (((m.regs.pc.toNat + 2) % 65536 : Nat) : Int) =
        ((m.regs.pc.toNat : Int) + 2) % 65536 := by omega
    rw [htarget, hnext]
    split
    · split <;> rfl
    · rfl
  -- nothing else has cycles of a branch
  · simp only [hmode, ↓reduceIte, Bool.and_eq_true, Bool.not_eq_true', beq_iff_eq] at htimed
    obtain ⟨hb, hsum⟩ := htimed
    rw [Action.run_branchCycles hb ho, UInt8.toNat_zero, Nat.add_zero, hsum, timing, if_neg hmode]

end Opcode

/-! ### Steps -/

namespace Computer

/-- **How long a step takes.** An interrupt entry takes seven cycles, an
instruction those of its opcode. -/
theorem step_timing {c c' : Computer} (hs : c.bus.AtRest) (h : c.step = (.ok true, c')) :
    (∀ kind, c.started.cpu.lines.next (c.started.cpu.regs.isSet Flag.irqDisable) = some kind →
      c'.cpu.lastCycles = 7) ∧
    (c.started.cpu.lines.next (c.started.cpu.regs.isSet Flag.irqDisable) = none →
      ∃ op, Opcode.decode? (c.found.bus.read c.found.regs.pc) = some op ∧
        c'.cpu.lastCycles = op.timing c.found) := by
  constructor
  · intro kind hi
    obtain ⟨n, cycles, hw, hcpu, -⟩ := step_ok_complete hs h
    have hcycles : cycles = 7 := by
      unfold work at hw
      simp only [hi] at hw
      cases hw
      rfl
    rw [hcpu, ← hcycles]
    rfl
  · intro hi
    obtain ⟨op, n, cycles, hop, he, hcpu, -⟩ := step_ok_execute hs hi h
    refine ⟨op, hop, ?_⟩
    rw [← Opcode.execute_timing hop he, hcpu]
    rfl

/-- `LDA $FFFF,X` with 1 in X reads at `$0000`. -/
def readPastTop : Computer where
  cpu := { Processor.powerOn {} with
    regs := { Registers.powerOn {} with x := 1, pc := 0x0200 }
    phase := .fetching }
  bus := (Bus.withMapping .flat).load 0x0200 [0xBD, 0xFF, 0xFF]

theorem step_timing_past_top : ∃ op,
    Opcode.decode? (readPastTop.bus.read 0x0200) = some op ∧
      op.mode.effective readPastTop.found = some 0x0000 ∧
      readPastTop.step.2.cpu.lastCycles = op.timing readPastTop.found ∧
      op.timing readPastTop.found = 5 := by
  have hstep : readPastTop.step = (.ok true, readPastTop.step.2) := Prod.ext rfl rfl
  obtain ⟨op, hop, hcycles⟩ := (step_timing (c := readPastTop) ⟨rfl, rfl⟩ hstep).2 rfl
  have hlda : Opcode.decode? (readPastTop.bus.read 0x0200) = some ⟨.lda, .absoluteX, 4, true⟩ := by
    decide +kernel
  cases hop.symm.trans hlda
  exact ⟨_, hlda, by decide +kernel, hcycles, by decide +kernel⟩

end Computer
end Cpu6502
