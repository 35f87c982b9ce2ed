/-
# What a step writes, and when it fails

A step's writes follow from the machine it begins with: a store or a
read-modify-write instruction makes one, at its effective address; a push
makes one below SP, JSR two and an interrupt entry three; everything else
makes none. They are listed here in program order and in plain arithmetic
(`Opcode.writes`, `Interrupt.writes`), and the work of a step leaves the bus
that performing them in that order leaves (`Computer.work_bus`).

The bus keeps the first write that it rejects (`Bus.fault_writeAll`). So a
step fails in two ways only: its opcode is refused, or one of its writes falls
on a protected address, and then the first such write is reported
(`Computer.step_error_iff`).

Key definitions: `Write`, `Bus.writeAll`, `Mnemonic.stored?`,
`Opcode.writes`, `Interrupt.writes`, `Computer.issued`, `Computer.Refuses`.
Key theorems: `Bus.fault_writeAll`, `Opcode.execute_bus`, `Computer.work_bus`,
`Computer.step_error_iff`.
-/
import Cpu6502.Proofs.Totality

namespace Cpu6502

/-! ### Lists of writes -/

/-- A program's write: where, and which byte. -/
structure Write where
  address : Address
  value : UInt8
  deriving DecidableEq

namespace Bus

/-- The bus after these writes, the first of the list made first. -/
def writeAll (bus : Bus) (writes : List Write) : Bus :=
  writes.foldl (fun bus w => bus.write w.address w.value) bus

/-- The first of the writes that falls on a protected address. -/
def firstRejected (bus : Bus) (writes : List Write) : Option Write :=
  writes.find? fun w => (bus.locate w.address).readOnly

theorem fault_write (bus : Bus) (a : Address) (v : UInt8) : (bus.write a v).fault =
    (bus.fault <|> if (bus.locate a).readOnly then some ⟨a, v⟩ else none) := by
  unfold write
  split
  · rfl
  · unfold put
    split <;> cases bus.fault <;> rfl

/-- The fault that was latched first stays; else the first rejected write is
latched. -/
theorem fault_writeAll (bus : Bus) (writes : List Write) : (bus.writeAll writes).fault =
    (bus.fault <|> (bus.firstRejected writes).map fun w => ⟨w.address, w.value⟩) := by
  induction writes generalizing bus with
  | nil => simp [writeAll, firstRejected]
  | cons w ws ih =>
    have hrest : (bus.write w.address w.value).firstRejected ws = bus.firstRejected ws := by
      simp only [firstRejected, locate_write]
    have hstep : (bus.writeAll (w :: ws)) = (bus.write w.address w.value).writeAll ws := rfl
    rw [hstep, ih, hrest, fault_write]
    cases hw : (bus.locate w.address).readOnly <;> cases bus.fault <;>
      simp [firstRejected, hw]

/-- A single write that is accepted is read back. -/
theorem read_writeAll_singleton {bus : Bus} {a : Address} {v : UInt8}
    (h : bus.firstRejected [⟨a, v⟩] = none) : (bus.writeAll [⟨a, v⟩]).read a = v := by
  have hwritable : (bus.locate a).readOnly = false := by simpa [firstRejected] using h
  rw [writeAll, List.foldl_cons, List.foldl_nil, read_write, if_pos ⟨hwritable, rfl⟩]

end Bus

/-! ### Pushes -/

/-- The writes that push these bytes one after the other. The place after the
lowest one of the stack page is its highest one. -/
def pushes (sp : Nat) : List UInt8 → List Write
  | [] => []
  | v :: vs => ⟨UInt16.ofNat (256 + sp), v⟩ :: pushes ((sp + 255) % 256) vs

theorem pushes_cons (sp v : UInt8) (vs : List UInt8) :
    pushes sp.toNat (v :: vs) = ⟨Machine.stackAddress sp, v⟩ :: pushes (sp - 1).toNat vs := by
  rw [pushes, ← toNat_sub_one, ← Machine.stackAddress_eq_ofNat rfl]

theorem Machine.bus_foldl_push (m : Machine) (vs : List UInt8) :
    (vs.foldl push m).bus = m.bus.writeAll (pushes m.regs.sp.toNat vs) := by
  induction vs generalizing m with
  | nil => rfl
  | cons v vs ih =>
    rw [List.foldl_cons, ih, pushes_cons]
    rfl

/-- The high and the low byte of an address, as they are pushed. -/
def highLow (a : Nat) : List UInt8 := [UInt8.ofNat (a / 256), UInt8.ofNat (a % 256)]

theorem highLow_eq {a : Address} {n : Nat} (h : a.toNat = n) :
    highLow n = [Address.high a, Address.low a] := by
  rw [highLow, Address.high_eq_ofNat h, Address.low_eq_ofNat h]
  congr 2
  apply UInt8.toNat_inj.1
  simp

/-- The copy of the status byte that an interrupt entry pushes. -/
def Interrupt.pushedStatus (p : UInt8) : Interrupt → UInt8
  | brk => p ||| 0x30
  | nmi | irq => (p ||| 0x20) &&& 0xEF

theorem Interrupt.pushedStatus_eq (kind : Interrupt) (p : UInt8) :
    kind.pushedStatus p = Status.pushed p kind.setsBreak := by
  cases kind with
  | brk => exact (UInt8.or_assoc p Flag.unused Flag.brk).symm
  | nmi | irq => rfl

/-- The writes of an interrupt entry that will come back to `back`. -/
def Interrupt.writes (kind : Interrupt) (r : Registers) (back : Nat) : List Write :=
  pushes r.sp.toNat (highLow back ++ [kind.pushedStatus r.p])

theorem Interrupt.enter_bus (kind : Interrupt) (m : Machine) {back : Nat}
    (h : m.regs.pc.toNat = back) :
    (kind.enter m).bus = m.bus.writeAll (kind.writes m.regs back) := by
  rw [writes, ← Machine.bus_foldl_push, highLow_eq h, kind.pushedStatus_eq]
  rfl

/-! ### Stored bytes -/

/-- The byte that takes the place of `v` in a read-modify-write instruction. -/
def Mnemonic.replaced? (carry : Bool) (v : Nat) : Mnemonic → Option Nat
  | asl | slo => some (2 * v % 256)
  | rol | rla => some (2 * v % 256 + carry.toNat)
  | lsr | sre => some (v / 2)
  | ror | rra => some (v / 2 + 128 * carry.toNat)
  | inc | isb => some ((v + 1) % 256)
  | dec | dcp => some ((v + 255) % 256)
  | _ => none

/-- The byte that an instruction stores at its effective address, where `v`
is, if it stores one. -/
def Mnemonic.stored? (r : Registers) (v : Nat) : Mnemonic → Option Nat
  | sta => some r.a.toNat
  | stx => some r.x.toNat
  | sty => some r.y.toNat
  | sax => some (r.a &&& r.x).toNat
  | mnemonic => mnemonic.replaced? (r.isSet Flag.carry) v

theorem Mnemonic.stored?_of_replaced? {mnemonic : Mnemonic} {r : Registers} {v w : Nat}
    (h : mnemonic.replaced? (r.isSet Flag.carry) v = some w) : mnemonic.stored? r v = some w := by
  cases mnemonic <;> first | exact h | cases h

/-- The change of bytes is this function of numbers. -/
def Change.Computes (change : Change) (f : Bool → Nat → Nat) : Prop :=
  ∀ carry v, (change carry v).value.toNat = f carry v.toNat

namespace Change

/-- A change computes a function if it does on every byte with either carry. -/
theorem computes_of_table {change : Change} {f : Bool → Nat → Nat}
    (h : ∀ (carry : Bool) (i : Fin 256), (change carry (UInt8.ofNat i.val)).value.toNat =
      f carry (UInt8.ofNat i.val).toNat) : change.Computes f :=
  fun carry => forall_byte (h carry)

theorem computes_shiftLeft : shiftLeft.Computes fun _ v => 2 * v % 256 :=
  computes_of_table (by decide +kernel)

theorem computes_rotateLeft : rotateLeft.Computes fun carry v => 2 * v % 256 + carry.toNat :=
  computes_of_table (by decide +kernel)

theorem computes_shiftRight : shiftRight.Computes fun _ v => v / 2 :=
  computes_of_table (by decide +kernel)

theorem computes_rotateRight : rotateRight.Computes fun carry v => v / 2 + 128 * carry.toNat :=
  computes_of_table (by decide +kernel)

theorem computes_increment : increment.Computes fun _ v => (v + 1) % 256 :=
  fun _ v => UInt8.toNat_add v 1

theorem computes_decrement : decrement.Computes fun _ v => (v + 255) % 256 :=
  fun _ v => toNat_sub_one v

end Change

/-! ### The writes of an instruction -/

/-- The ways of working that write nothing. -/
def Action.Quiet : Action → Prop
  | take _ | internal _ | pull _ | branch .. | jump | returnFromSubroutine
  | returnFromInterrupt => True
  | _ => False

theorem Action.run_quiet {action : Action} (hq : action.Quiet) {operand : Operand} {m : Machine}
    {o : Outcome} (h : action.run operand m = some o) : o.bus = m.bus := by
  cases action with
  | take f | jump =>
    obtain ⟨v, -, rfl⟩ := Option.map_eq_some_iff.mp h
    rfl
  | branch flag expected =>
    cases operand with
    | relative d =>
      cases h
      unfold branchBy
      split <;> rfl
    | _ => cases h
  | internal f | pull f | returnFromSubroutine | returnFromInterrupt =>
    cases h
    rfl
  | _ => exact hq.elim

namespace Mnemonic

/-- The instructions that push. -/
def isPush : Mnemonic → Bool
  | pha | php | jsr | brk => true
  | _ => false

theorem isPush_of_replaced? {mnemonic : Mnemonic} {carry : Bool} {v w : Nat}
    (h : mnemonic.replaced? carry v = some w) : mnemonic.isPush = false := by
  cases mnemonic <;> first | rfl | cases h

/-- What an instruction that does not push does to memory. -/
inductive Storing (mnemonic : Mnemonic) : Prop
  | store (value : Registers → UInt8) (ha : mnemonic.action = .store value)
      (hv : ∀ r d, value (r.advancePc d) = value r)
      (hs : ∀ r v, mnemonic.stored? r v = some (value r).toNat)
  | replace (change : Change) (next : UInt8 → Effect → Effect) (f : Bool → Nat → Nat)
      (ha : mnemonic.action = .modify change next) (hf : change.Computes f)
      (hs : ∀ r v, mnemonic.stored? r v = some (f (r.isSet Flag.carry) v))
  | quiet (ha : mnemonic.action.Quiet) (hs : ∀ r v, mnemonic.stored? r v = none)

theorem storing (mnemonic : Mnemonic) (h : mnemonic.isPush = false) : mnemonic.Storing := by
  cases mnemonic
  case pha | php | jsr | brk => cases h
  case sta | stx | sty | sax => exact .store _ rfl (fun _ _ => rfl) fun _ _ => rfl
  case asl | slo => exact .replace _ _ _ rfl Change.computes_shiftLeft fun _ _ => rfl
  case rol | rla => exact .replace _ _ _ rfl Change.computes_rotateLeft fun _ _ => rfl
  case lsr | sre => exact .replace _ _ _ rfl Change.computes_shiftRight fun _ _ => rfl
  case ror | rra => exact .replace _ _ _ rfl Change.computes_rotateRight fun _ _ => rfl
  case inc | isb => exact .replace _ _ _ rfl Change.computes_increment fun _ _ => rfl
  case dec | dcp => exact .replace _ _ _ rfl Change.computes_decrement fun _ _ => rfl
  all_goals exact .quiet trivial fun _ _ => rfl

end Mnemonic

/-- The write that an instruction makes at its effective address, if any. -/
def Opcode.stores (op : Opcode) (m : Machine) : List Write :=
  match op.mode.effective m with
  | none => []
  | some ea =>
    match op.mnemonic.stored? m.regs (m.bus.byteAt ea) with
    | none => []
    | some v => [⟨UInt16.ofNat ea, UInt8.ofNat v⟩]

/-- The writes of an instruction in program order, in terms of the machine
before it. -/
def Opcode.writes (op : Opcode) (m : Machine) : List Write :=
  let sp := m.regs.sp.toNat
  let back := (m.regs.pc.toNat + 2) % 65536
  match op.mnemonic with
  | .pha => pushes sp [m.regs.a]
  | .php => pushes sp [m.regs.p ||| 0x30]
  | .jsr => pushes sp (highLow back)
  | .brk => Interrupt.brk.writes m.regs back
  | _ => op.stores m

/-- An instruction that does not push writes at its effective address only. -/
theorem Opcode.writes_of_not_isPush (op : Opcode) {m : Machine} (hp : op.mnemonic.isPush = false) :
    op.writes m = op.stores m := by
  unfold writes
  split <;> simp_all [Mnemonic.isPush]

/-- An operand that is an address is the effective address of its mode. -/
theorem Mode.effective_of_address {mode : Mode} {m : Machine} {a : Address}
    (h : (mode.resolve m).operand = .address a) : mode.effective m = some a.toNat := by
  cases he : mode.effective m with
  | none =>
    cases mode with
    | implied | accumulator | immediate | relative => cases h
    | _ => cases he
  | some ea =>
    obtain ⟨a', rfl, hoperand⟩ := Mode.resolve_effective m mode he
    cases h.symm.trans hoperand
    rfl

theorem Mode.accumulator_of_operand {mode : Mode} {m : Machine}
    (h : (mode.resolve m).operand = .accumulator) : mode = .accumulator := by
  cases mode <;> first | rfl | cases h

namespace Opcode

section
variable {op : Opcode} {m : Machine} {o : Outcome}

/-- A byte that is replaced outside A is at an address. -/
theorem operand_of_modify (hmode : op.mode ≠ .accumulator) {past : Machine} {change : Change}
    {next : UInt8 → Effect → Effect}
    (h : (Action.modify change next).run (op.mode.resolve m).operand past = some o) :
    ∃ a, (op.mode.resolve m).operand = .address a := by
  cases hoperand : (op.mode.resolve m).operand with
  | address a => exact ⟨a, rfl⟩
  | accumulator => exact absurd (Mode.accumulator_of_operand hoperand) hmode
  | implied | immediate v | relative d =>
    rw [hoperand] at h
    cases h

/-- The write of an instruction whose operand is an address. -/
theorem stores_of_address {a : Address} (ha : (op.mode.resolve m).operand = .address a)
    {v : UInt8} (hv : op.mnemonic.stored? m.regs (m.bus.read a).toNat = some v.toNat) :
    op.stores m = [⟨a, v⟩] := by
  have hbyte : m.bus.byteAt a.toNat = (m.bus.read a).toNat := (m.bus.toNat_read rfl).symm
  simp only [stores, Mode.effective_of_address ha, hbyte, hv, UInt16.ofNat_toNat, UInt8.ofNat_toNat]

theorem run_bus_of_not_isPush (hp : op.mnemonic.isPush = false)
    (h : op.mnemonic.action.run (op.mode.resolve m).operand (op.past m) = some o) :
    o.bus = m.bus.writeAll (op.stores m) := by
  cases op.mnemonic.storing hp with
  | store value haction hvalue hstored =>
    rw [haction] at h
    obtain ⟨a, ha, rfl⟩ := Option.map_eq_some_iff.mp h
    have hoperand : (op.mode.resolve m).operand = .address a := by
      revert ha
      cases (op.mode.resolve m).operand <;> simp [Operand.address?]
    rw [stores_of_address hoperand (hstored _ _), ← hvalue m.regs op.length.toUInt16]
    rfl
  | replace change next f haction hf hstored =>
    rw [haction] at h
    cases hoperand : (op.mode.resolve m).operand with
    | address a =>
      rw [hoperand] at h
      cases h
      have hbyte := hf (m.regs.isSet Flag.carry) (m.bus.read a)
      rw [stores_of_address hoperand ((hstored _ _).trans (congrArg some hbyte.symm))]
      rfl
    | accumulator =>
      rw [hoperand] at h
      cases h
      have hnone : op.mode.effective m = none := by
        cases hmode : op.mode <;>
          simp_all [Mode.resolve, Mode.encoding, Mode.effective, Resolved.indexed]
      simp only [stores, hnone]
      rfl
    | implied | immediate v | relative d =>
      rw [hoperand] at h
      cases h
  | quiet haction hstored =>
    have hnone : op.stores m = [] := by
      unfold stores
      simp only [hstored]
      split <;> rfl
    rw [Action.run_quiet haction h, hnone]
    rfl

theorem run_bus_of_isPush (hp : op.mnemonic.isPush = true) (hm : op.jumpsByMode = true)
    (h : op.mnemonic.action.run (op.mode.resolve m).operand (op.past m) = some o) :
    o.bus = m.bus.writeAll (op.writes m) := by
  have hpc := op.past_pc m
  obtain ⟨mnemonic, mode, base, documented⟩ := op
  cases mnemonic
  case pha =>
    cases h
    exact m.bus_foldl_push [m.regs.a]
  case php =>
    cases h
    have hstatus : m.regs.pushedStatus true = m.regs.p ||| 0x30 := UInt8.or_assoc ..
    simp only [writes, ← hstatus, ← Machine.bus_foldl_push]
    rfl
  case jsr =>
    simp only [jumpsByMode, beq_iff_eq] at hm
    subst hm
    cases h
    have hback : (m.regs.pc + 3 - 1).toNat = (m.regs.pc.toNat + 2) % 65536 := by
      rw [UInt16.toNat_sub, UInt16.toNat_add, UInt16.toNat_one]
      have : (3 : UInt16).toNat = 3 := rfl
      omega
    simp only [writes, highLow_eq hback, ← Machine.bus_foldl_push]
    rfl
  case brk =>
    simp only [jumpsByMode, beq_iff_eq] at hm
    cases h
    rw [hm] at hpc
    exact Interrupt.enter_bus .brk _ hpc
  all_goals cases hp

theorem run_bus (hm : op.jumpsByMode = true)
    (h : op.mnemonic.action.run (op.mode.resolve m).operand (op.past m) = some o) :
    o.bus = m.bus.writeAll (op.writes m) := by
  cases hp : op.mnemonic.isPush with
  | true => exact run_bus_of_isPush hp hm h
  | false =>
    rw [op.writes_of_not_isPush hp, run_bus_of_not_isPush hp h]

end

/-- **What an instruction writes.** -/
theorem execute_bus {byte : UInt8} {op : Opcode} {m n : Machine} {cycles : Cycles}
    (hd : decode? byte = some op) (h : op.execute m = some (n, cycles)) :
    n.bus = m.bus.writeAll (op.writes m) := by
  obtain ⟨o, ho, -, hbus, -⟩ := execute_outcome h
  exact hbus.trans (run_bus (jumpsByMode_of_decode? hd) ho)

end Opcode

/-! ### The writes of a step -/

/-- The writes that the work of a step issues, in program order. -/
def Processor.issues (cpu : Processor) (m : Machine) : List Write :=
  match cpu.lines.next (m.regs.isSet Flag.irqDisable) with
  | some kind => kind.writes m.regs m.regs.pc.toNat
  | none =>
    match Opcode.allowed? cpu.config.undocumentedOpcodes (m.bus.read m.regs.pc) with
    | none => []
    | some op => op.writes m

/-- The registers and the bytes at the addresses decide what is written. -/
theorem Processor.issues_congr (cpu : Processor) {m n : Machine} (hr : m.regs = n.regs)
    (hb : ∀ a, m.bus.read a = n.bus.read a) : cpu.issues m = cpu.issues n := by
  have hbyte (k : Nat) : m.bus.byteAt k = n.bus.byteAt k := by simp only [Bus.byteAt, hb]
  have heffective (mode : Mode) : mode.effective m = mode.effective n := by
    cases mode <;>
      simp only [Mode.effective, Machine.codeWord, Machine.codeByte, Bus.wordAt, hr, hbyte]
  simp only [issues, Opcode.writes, Opcode.stores, hr, hb, heffective, hbyte]

namespace Computer

/-- **What a step writes.** Its work leaves the bus that the issued writes
leave, made one after the other. -/
theorem work_bus {cpu : Processor} {m n : Machine} {cycles : Nat}
    (h : work cpu m = .ok (n, cycles)) : n.bus = m.bus.writeAll (cpu.issues m) := by
  unfold work at h
  unfold Processor.issues
  cases hnext : cpu.lines.next (m.regs.isSet Flag.irqDisable) with
  | some kind =>
    rw [hnext] at h
    cases h
    exact kind.enter_bus m rfl
  | none =>
    rw [hnext] at h
    simp only at h ⊢
    cases hop : Opcode.allowed? cpu.config.undocumentedOpcodes (m.bus.read m.regs.pc) with
    | none =>
      rw [Machine.instruction_of_refused hop] at h
      cases h
    | some op =>
      obtain ⟨n', cycles', he, hok⟩ := Machine.instruction_of_allowed hop
      rw [hok] at h
      cases h
      exact Opcode.execute_bus (Option.filter_eq_some_iff.mp hop).1 he

/-- The writes that the next step issues, in terms of the machine it finds. -/
def issued (c : Computer) : List Write := c.started.cpu.issues c.found

/-- The next step serves no interrupt, and the byte at PC is undefined as an
opcode, or undocumented while those are not allowed. -/
def Refuses (c : Computer) : Prop :=
  c.started.cpu.lines.next (c.started.cpu.regs.isSet Flag.irqDisable) = none ∧
    (Opcode.decode? (c.found.bus.read c.found.regs.pc) = none ∨
      ∃ op, Opcode.decode? (c.found.bus.read c.found.regs.pc) = some op ∧
        op.documented = false ∧ c.cpu.config.undocumentedOpcodes = false)

section
variable {c : Computer} (hs : c.bus.AtRest)
include hs

/-- A step reads, from the transaction it opens, what it finds. -/
theorem opened_read (a : Address) : c.started.opened.bus.read a = c.found.bus.read a := by
  simp only [opened, started_bus]
  exact Bus.visible_begin hs _

theorem opened_issues : c.started.cpu.issues c.started.opened = c.issued :=
  c.started.cpu.issues_congr rfl (opened_read hs)

theorem work_opened_eq_error_iff {reason : HaltReason} :
    work c.started.cpu c.started.opened = .error reason ↔
      c.Refuses ∧ reason = .illegalOpcode (c.found.bus.read c.found.regs.pc) c.found.regs.pc := by
  have hregs : c.started.opened.regs = c.started.cpu.regs := rfl
  unfold work Refuses
  rw [hregs]
  cases hnext : c.started.cpu.lines.next (c.started.cpu.regs.isSet Flag.irqDisable) with
  | some kind => simp
  | none =>
    have hmap : ((c.started.opened.instruction c.started.cpu.config.undocumentedOpcodes).map
          fun done => (done.1, done.2.total)) = .error reason ↔
        c.started.opened.instruction c.started.cpu.config.undocumentedOpcodes = .error reason := by
      cases c.started.opened.instruction c.started.cpu.config.undocumentedOpcodes <;>
        simp [Except.map]
    rw [hmap, Machine.instruction_eq_error_iff, Opcode.allowed?_eq_none_iff, opened_read hs,
      started_config]
    simp only [true_and]
    rfl

theorem fault_of_work {m : Machine} {cycles : Nat}
    (hw : work c.started.cpu c.started.opened = .ok (m, cycles)) :
    m.bus.fault = (c.bus.firstRejected c.issued).map fun w => ⟨w.address, w.value⟩ := by
  rw [work_bus hw, opened_issues hs, Bus.fault_writeAll]
  simp only [opened, started_bus]
  rfl

/-- A step that succeeds made the writes that it issued, all of them accepted. -/
theorem step_ok_issued {c' : Computer} (h : c.step = (.ok true, c')) :
    c.bus.firstRejected c.issued = none ∧
      ∀ a, c'.bus.read a = (c.bus.writeAll c.issued).read a := by
  constructor
  · cases stepped_of_eq h with
    | done m cycles _ hw hf => simpa using (fault_of_work hs hw).symm.trans hf
  · intro a
    obtain ⟨n, cycles, hw, -, hbus⟩ := step_ok_complete hs h
    rw [started_bus] at hw
    have hn : n.bus = c.bus.writeAll c.issued := work_bus hw
    rw [← hn, ← hbus]
    rfl

/-- A step that executes an instruction issues the writes of its opcode. -/
theorem step_ok_writes {c' : Computer}
    (hi : c.started.cpu.lines.next (c.started.cpu.regs.isSet Flag.irqDisable) = none)
    (h : c.step = (.ok true, c')) {op : Opcode}
    (hop : Opcode.decode? (c.found.bus.read c.found.regs.pc) = some op) :
    c.issued = op.writes c.found := by
  have hnext : c.started.cpu.lines.next (c.found.regs.isSet Flag.irqDisable) = none := hi
  obtain ⟨n, cycles, hw, -, -⟩ := step_ok_complete hs h
  rw [started_bus] at hw
  have hfound : work c.started.cpu c.found = .ok (n, cycles) := hw
  cases hallowed : Opcode.allowed? c.started.cpu.config.undocumentedOpcodes
      (c.found.bus.read c.found.regs.pc) with
  | none =>
    unfold work at hfound
    simp only [hnext, Machine.instruction_of_refused hallowed] at hfound
    cases hfound
  | some op' =>
    cases hop.symm.trans (Option.filter_eq_some_iff.mp hallowed).1
    simp only [issued, Processor.issues, hnext, hallowed]

omit hs in
theorem Refuses.issued_eq_nil (h : c.Refuses) : c.issued = [] := by
  obtain ⟨hnext, hop⟩ := h
  have hnone := Opcode.allowed?_eq_none_iff.mpr hop
  rw [← started_config] at hnone
  unfold issued Processor.issues
  simp only [hnone]
  simp only [found, hnext]

end

/-- A step of a processor that is not halted answers in one of three ways, and
the opcode and the issued writes tell which. -/
theorem step_answer {c : Computer} (hh : c.cpu.isHalted = false) (hs : c.bus.AtRest) :
    (c.Refuses ∧
      c.step.1 = .error (.illegalOpcode (c.found.bus.read c.found.regs.pc) c.found.regs.pc)) ∨
    (¬ c.Refuses ∧ ∃ w, c.bus.firstRejected c.issued = some w ∧
      c.step.1 = .error (.protectedWrite w.address w.value c.found.regs.pc)) ∨
    (¬ c.Refuses ∧ c.bus.firstRejected c.issued = none ∧ c.step.1 = .ok true) := by
  -- work that is done was not refused
  have hworks {m : Machine} {cycles : Nat}
      (hw : work c.started.cpu c.started.opened = .ok (m, cycles)) : ¬ c.Refuses := by
    intro hr
    cases hw.symm.trans ((work_opened_eq_error_iff hs).mpr ⟨hr, rfl⟩)
  have hstep := step_stepped c
  generalize c.step.1 = answer at hstep ⊢
  generalize c.step.2 = c' at hstep
  cases hstep with
  | idle hp => cases hh.symm.trans hp
  | done m cycles _ hw hf =>
    have hnone := (fault_of_work hs hw).symm.trans hf
    exact .inr (.inr ⟨hworks hw, Option.map_eq_none_iff.mp hnone, rfl⟩)
  | refused reason _ hw =>
    obtain ⟨hr, rfl⟩ := (work_opened_eq_error_iff hs).mp hw
    exact .inl ⟨hr, rfl⟩
  | rejected m cycles fault _ hw hf =>
    obtain ⟨w, hfirst, rfl⟩ := Option.map_eq_some_iff.mp ((fault_of_work hs hw).symm.trans hf)
    exact .inr (.inl ⟨hworks hw, w, hfirst, rfl⟩)

/-- A step that is not refused and whose writes are accepted succeeds. -/
theorem step_ok_of_accepted {c : Computer} (hh : c.cpu.isHalted = false) (hs : c.bus.AtRest)
    (hr : ¬ c.Refuses) (ha : ∀ w ∈ c.issued, (c.bus.locate w.address).readOnly = false) :
    c.step.1 = .ok true := by
  have hnone : c.bus.firstRejected c.issued = none :=
    List.find?_eq_none.mpr fun w hw => Bool.not_eq_true _ ▸ ha w hw
  rcases step_answer hh hs with ⟨hrefuses, -⟩ | ⟨-, w, hw, -⟩ | ⟨-, -, hok⟩
  · exact absurd hrefuses hr
  · cases hnone.symm.trans hw
  · exact hok

/-- Where no interrupt is served, a documented instruction is not refused and
issues its writes. -/
theorem issued_of_documented {c : Computer}
    (hi : c.started.cpu.lines.next (c.started.cpu.regs.isSet Flag.irqDisable) = none) {op : Opcode}
    (hop : Opcode.decode? (c.found.bus.read c.found.regs.pc) = some op)
    (hd : op.documented = true) : ¬ c.Refuses ∧ c.issued = op.writes c.found := by
  have hallowed : Opcode.allowed? c.started.cpu.config.undocumentedOpcodes
      (c.found.bus.read c.found.regs.pc) = some op := by simp [Opcode.allowed?, hop, hd]
  have hfound : c.started.cpu.lines.next (c.found.regs.isSet Flag.irqDisable) = none := hi
  refine ⟨?_, ?_⟩
  · rintro ⟨-, hundefined | ⟨op', hop', hundocumented, -⟩⟩
    · cases hop.symm.trans hundefined
    · cases hop.symm.trans hop'
      cases hd.symm.trans hundocumented
  · simp only [issued, Processor.issues, hfound, hallowed]

/-- **When a step fails, and what it reports.** A step of a processor that is
not halted fails exactly if its opcode is refused, or a write that it issues
falls on a protected address; the first such write is reported. A fault that
was latched before plays no part. The issued writes are those that the work
makes, in this order. -/
theorem step_error_iff {c : Computer} (hh : c.cpu.isHalted = false) (hs : c.bus.AtRest) :
    (∀ reason, c.step.1 = .error reason ↔
      (c.Refuses ∧
        reason = .illegalOpcode (c.found.bus.read c.found.regs.pc) c.found.regs.pc) ∨
      ∃ w, c.bus.firstRejected c.issued = some w ∧
        reason = .protectedWrite w.address w.value c.found.regs.pc) ∧
    (∀ reason, c.step.1 = .error reason → reason.pc = c.found.regs.pc) ∧
    (c.step.1 = .ok true ∨ ∃ reason, c.step.1 = .error reason) ∧
    ∀ n cycles, work c.started.cpu c.found = .ok (n, cycles) →
      n.bus = c.bus.writeAll c.issued := by
  have hanswer := step_answer hh hs
  -- what is refused issues nothing, so at most one of the two cases applies
  have hquiet (hr : c.Refuses) : c.bus.firstRejected c.issued = none := by
    rw [hr.issued_eq_nil]
    rfl
  refine ⟨fun reason => ?_, fun reason he => ?_, ?_, fun n cycles hw => work_bus hw⟩
  · rcases hanswer with ⟨hr, hstep⟩ | ⟨hr, w, hfirst, hstep⟩ | ⟨hr, hnone, hstep⟩
    · rw [hstep, hquiet hr]
      simp [hr, eq_comm]
    · rw [hstep, hfirst]
      simp [hr, eq_comm]
    · rw [hstep, hnone]
      simp [hr]
  · rcases hanswer with ⟨-, hstep⟩ | ⟨-, w, -, hstep⟩ | ⟨-, -, hstep⟩
    · cases hstep.symm.trans he
      rfl
    · cases hstep.symm.trans he
      rfl
    · cases hstep.symm.trans he
  · rcases hanswer with ⟨-, hstep⟩ | ⟨-, w, -, hstep⟩ | ⟨-, -, hstep⟩
    · exact .inr ⟨_, hstep⟩
    · exact .inr ⟨_, hstep⟩
    · exact .inl hstep

/-- `JSR` with SP at `$00`: of the two bytes it pushes the second falls on a
protected address. The host has met that protection before. -/
def callOntoGuard : Computer where
  cpu := { Processor.powerOn {} with
    regs := { Registers.powerOn { resetSp := 0x00 } with pc := 0x02FF }
    phase := .fetching }
  bus := { ((Bus.withMapping (.guarding 0x01FF)).poke 0x02FF 0x20) with
    fault := some ⟨0x01FF, 0x55⟩ }

theorem step_error_iff_call :
    callOntoGuard.issued = [⟨0x0100, 0x03⟩, ⟨0x01FF, 0x01⟩] ∧
      callOntoGuard.step.1 = .error (.protectedWrite 0x01FF 0x01 0x02FF) := by
  have hissued : callOntoGuard.issued = [⟨0x0100, 0x03⟩, ⟨0x01FF, 0x01⟩] := by decide +kernel
  have hfirst : callOntoGuard.bus.firstRejected callOntoGuard.issued = some ⟨0x01FF, 0x01⟩ := by
    rw [hissued]
    decide +kernel
  exact ⟨hissued, ((step_error_iff rfl ⟨rfl, rfl⟩).1 _).mpr (.inr ⟨_, hfirst, rfl⟩)⟩

end Computer

end Cpu6502
