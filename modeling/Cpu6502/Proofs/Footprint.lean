/-
# What a step leaves alone

A store or a read-modify-write instruction writes at its effective address, a
push at the free places of the stack, and all others write nowhere
(`Opcode.footprint`). So a step that executes an instruction changes the memory
at most where the mapping sends these addresses, whatever the mapping is
(`Bus.memory_writeAll`). SP moves by what is pushed and popped
(`Mnemonic.spAfter`), and A, X and Y change under the instructions listed in
`Opcode.changes` only. An interrupt entry changes three places of the stack and
moves SP (`Computer.step_footprint`).

Key definitions: `stackPlaces`, `Opcode.writesOperand`, `Opcode.footprint`,
`Mnemonic.spAfter`, `Register`, `Opcode.changes`, `Opcode.ChangesAtMost`.
Key theorems: `Bus.memory_writeAll`, `Opcode.writes_footprint`,
`Opcode.execute_sp`, `Opcode.execute_register`, `Computer.step_footprint`.
-/
import Cpu6502.Proofs.Writes

namespace Cpu6502

/-! ### Where an instruction writes -/

/-- The next free places of the stack, the first one first. The place after the
lowest one of the stack page is its highest one. -/
def stackPlaces (sp : Nat) : Nat → List Nat
  | 0 => []
  | k + 1 => (256 + sp) :: stackPlaces ((sp + 255) % 256) k

namespace Opcode

/-- The instruction writes through its operand: it stores or replaces a byte,
and not in the accumulator. -/
def writesOperand (op : Opcode) : Bool :=
  (op.access == .write || op.access == .readModifyWrite) && op.mode != .accumulator

/-- The addresses that an instruction writes, in program order. -/
def footprint (op : Opcode) (m : Machine) : List Nat :=
  let sp := m.regs.sp.toNat
  match op.mnemonic with
  | .pha | .php => stackPlaces sp 1
  | .jsr => stackPlaces sp 2
  | .brk => stackPlaces sp 3
  | _ => if op.writesOperand then (op.mode.effective m).toList else []

end Opcode

/-- Pushes go to the next free places. -/
theorem map_address_pushes {sp : Nat} (hsp : sp < 256) (vs : List UInt8) :
    (pushes sp vs).map (·.address.toNat) = stackPlaces sp vs.length := by
  induction vs generalizing sp with
  | nil => rfl
  | cons v vs ih =>
    have hplace : (UInt16.ofNat (256 + sp)).toNat = 256 + sp :=
      UInt16.toNat_ofNat_of_lt' (show 256 + sp < 65536 by omega)
    rw [pushes, List.map_cons, ih (Nat.mod_lt _ (by decide)), hplace]
    rfl

/-- An instruction stores a byte exactly if its access says so. -/
theorem Mnemonic.stored?_isSome (mnemonic : Mnemonic) (r : Registers) (v : Nat) :
    (mnemonic.stored? r v).isSome =
      (mnemonic.access == .write || mnemonic.access == .readModifyWrite) := by
  cases mnemonic <;> rfl

namespace Opcode

theorem effective_of_writesOperand {byte : UInt8} {op : Opcode} (hd : decode? byte = some op)
    (hw : op.writesOperand = true) (m : Machine) : ∃ ea, op.mode.effective m = some ea := by
  have hmode : op.mode.namesMemory = true := by
    have hop := forall_decode? (P := fun op => !op.writesOperand || op.mode.namesMemory)
      (by decide +kernel) hd
    simpa [hw] using hop
  revert hmode
  cases op.mode <;> first | exact fun _ => ⟨_, rfl⟩ | exact fun h => nomatch h

/-- The write through the operand, if there is one. -/
theorem map_address_stores (op : Opcode) (m : Machine) : (op.stores m).map (·.address.toNat) =
    if op.writesOperand then (op.mode.effective m).toList else [] := by
  unfold stores
  cases he : op.mode.effective m with
  | none => simp
  | some ea =>
    have hmode : op.mode ≠ .accumulator := by
      intro hacc
      rw [hacc] at he
      cases he
    have hstored := op.mnemonic.stored?_isSome m.regs (m.bus.byteAt ea)
    have hwrites : op.writesOperand = (op.mnemonic.stored? m.regs (m.bus.byteAt ea)).isSome := by
      rw [hstored, writesOperand, bne_iff_ne.mpr hmode, Bool.and_true]
      rfl
    obtain ⟨a, rfl, -⟩ := Mode.resolve_effective m op.mode he
    rw [hwrites]
    cases hv : op.mnemonic.stored? m.regs (m.bus.byteAt a.toNat) <;> simp [hv]

theorem stores_eq_nil_iff {byte : UInt8} {op : Opcode} (hd : decode? byte = some op) (m : Machine) :
    op.stores m = [] ↔ op.writesOperand = false := by
  rw [← List.map_eq_nil_iff, op.map_address_stores m]
  cases hw : op.writesOperand with
  | false => simp
  | true =>
    obtain ⟨ea, he⟩ := effective_of_writesOperand hd hw m
    simp [he]

theorem footprint_of_not_isPush (op : Opcode) {m : Machine} (hp : op.mnemonic.isPush = false) :
    op.footprint m = if op.writesOperand then (op.mode.effective m).toList else [] := by
  unfold footprint
  split <;> simp_all [Mnemonic.isPush]

/-- **Where an instruction writes.** -/
theorem writes_footprint (op : Opcode) (m : Machine) :
    (op.writes m).map (·.address.toNat) = op.footprint m := by
  have hsp := m.regs.sp.toNat_lt
  cases hp : op.mnemonic.isPush with
  | false =>
    rw [op.writes_of_not_isPush hp, op.map_address_stores, op.footprint_of_not_isPush hp]
  | true =>
    obtain ⟨mnemonic, mode, base, documented⟩ := op
    cases mnemonic
    case pha | php | jsr | brk => exact map_address_pushes hsp _
    all_goals cases hp

end Opcode

/-! ### The memory outside the footprint -/

namespace Bus

theorem mapping_writeAll (bus : Bus) (writes : List Write) :
    (bus.writeAll writes).mapping = bus.mapping := by
  induction writes generalizing bus with
  | nil => rfl
  | cons w ws ih => exact (ih _).trans (mapping_write ..)

theorem visible_writeAll (bus : Bus) {writes : List Write} {slot : UInt16}
    (h : ∀ w ∈ writes, (bus.locate w.address).slot ≠ slot) :
    (bus.writeAll writes).visible slot = bus.visible slot := by
  induction writes generalizing bus with
  | nil => rfl
  | cons w ws ih =>
    obtain ⟨hw, hws⟩ := List.forall_mem_cons.mp h
    refine (ih _ fun w' hmem => ?_).trans ?_
    · rw [locate_write]
      exact hws w' hmem
    · rw [visible_write, if_neg fun hslot => hw hslot.2.symm]

theorem AtRest.writeAll {bus : Bus} (hs : bus.AtRest) (writes : List Write) :
    (bus.writeAll writes).AtRest := by
  induction writes generalizing bus with
  | nil => exact hs
  | cons w ws ih => exact ih (hs.write w.address w.value)

theorem memory_writeAll {bus : Bus} (hs : bus.AtRest) (writes : List Write) {slot : UInt16}
    (h : ∀ w ∈ writes, (bus.locate w.address).slot ≠ slot) :
    (bus.writeAll writes).memory.get slot = bus.memory.get slot := by
  rw [← visible_of_atRest (hs.writeAll writes), bus.visible_writeAll h, visible_of_atRest hs]

/-- Accepted writes that lead apart from each other are all read back. -/
theorem read_writeAll {bus : Bus} {writes : List Write}
    (ha : ∀ w ∈ writes, (bus.locate w.address).readOnly = false)
    (hd : (writes.map fun w => (bus.locate w.address).slot).Nodup) :
    ∀ w ∈ writes, (bus.writeAll writes).read w.address = w.value := by
  induction writes generalizing bus with
  | nil => exact List.forall_mem_nil _
  | cons w ws ih =>
    obtain ⟨haw, haws⟩ := List.forall_mem_cons.mp ha
    obtain ⟨hdw, hdws⟩ := List.nodup_cons.mp hd
    refine List.forall_mem_cons.mpr ⟨?_, ?_⟩
    · -- no later write leads to the slot of the first one
      have hlater (w' : Write) (hmem : w' ∈ ws) :
          ((bus.write w.address w.value).locate w'.address).slot ≠ (bus.locate w.address).slot := by
        rw [locate_write]
        exact fun heq => hdw (List.mem_map.mpr ⟨w', hmem, heq⟩)
      have hloc : (bus.writeAll (w :: ws)).locate w.address = bus.locate w.address := by
        rw [locate, mapping_writeAll, locate]
      rw [read, hloc]
      refine (visible_writeAll _ hlater).trans ?_
      rw [visible_write, if_pos ⟨haw, rfl⟩]
    · have hrest := @ih (bus.write w.address w.value)
      simp only [locate_write] at hrest
      exact hrest haws hdws

end Bus

/-! ### SP -/

namespace Action

/-- The byte that the action takes has no effect on SP. -/
def SparesSp : Action → Prop
  | take f => ∀ v e, (f v e).regs.sp = e.regs.sp
  | modify _ next => ∀ v e, (next v e).regs.sp = e.regs.sp
  | pull f => ∀ r v, (f r v).sp = r.sp
  | _ => True

/-- SP after the action. -/
def spAfter (r : Registers) : Action → UInt8
  | push _ => r.sp - 1
  | pull _ => r.sp + 1
  | callSubroutine => r.sp - 1 - 1
  | returnFromSubroutine => r.sp + 1 + 1
  | returnFromInterrupt => r.sp + 1 + 1 + 1
  | softwareInterrupt => r.sp - 1 - 1 - 1
  | internal f => (f r).sp
  | _ => r.sp

theorem run_sp {action : Action} (hs : action.SparesSp) {operand : Operand} {m : Machine}
    {o : Outcome} (h : action.run operand m = some o) :
    o.effect.regs.sp = action.spAfter m.regs := by
  cases action with
  | take f =>
    obtain ⟨v, -, rfl⟩ := Option.map_eq_some_iff.mp h
    exact hs v _
  | modify change next =>
    cases operand with
    | accumulator | address a =>
      cases h
      exact hs _ _
    | implied | immediate v | relative d => cases h
  | pull f =>
    cases h
    exact hs _ _
  | store value | jump | callSubroutine =>
    obtain ⟨a, -, rfl⟩ := Option.map_eq_some_iff.mp h
    rfl
  | branch flag expected =>
    cases operand with
    | relative d =>
      cases h
      unfold branchBy
      split <;> rfl
    | _ => cases h
  | internal f | push value | returnFromSubroutine | returnFromInterrupt | softwareInterrupt =>
    cases h
    rfl

end Action

namespace Mnemonic

/-- SP after an instruction. -/
def spAfter (r : Registers) : Mnemonic → Nat
  | pha | php => (r.sp.toNat + 255) % 256
  | pla | plp => (r.sp.toNat + 1) % 256
  | jsr => (r.sp.toNat + 254) % 256
  | rts => (r.sp.toNat + 2) % 256
  | rti => (r.sp.toNat + 3) % 256
  | brk => (r.sp.toNat + 253) % 256
  | txs => r.x.toNat
  | _ => r.sp.toNat

theorem action_sparesSp (mnemonic : Mnemonic) : mnemonic.action.SparesSp := by
  cases mnemonic <;> first | trivial | exact fun _ _ => rfl

theorem toNat_spAfter (mnemonic : Mnemonic) (r : Registers) :
    (mnemonic.action.spAfter r).toNat = mnemonic.spAfter r := by
  have hdown (sp : UInt8) : (sp - 1).toNat = (sp.toNat + 255) % 256 := by
    rw [UInt8.toNat_sub, Nat.add_comm, UInt8.toNat_one]
  have hup (sp : UInt8) : (sp + 1).toNat = (sp.toNat + 1) % 256 := UInt8.toNat_add sp 1
  cases mnemonic
  case pha | php => exact hdown r.sp
  case jsr =>
    show (r.sp - 1 - 1).toNat = (r.sp.toNat + 254) % 256
    rw [hdown, hdown]
    omega
  case brk =>
    show (r.sp - 1 - 1 - 1).toNat = (r.sp.toNat + 253) % 256
    rw [hdown, hdown, hdown]
    omega
  case pla | plp => exact hup r.sp
  case rts =>
    show (r.sp + 1 + 1).toNat = (r.sp.toNat + 2) % 256
    rw [hup, hup]
    omega
  case rti =>
    show (r.sp + 1 + 1 + 1).toNat = (r.sp.toNat + 3) % 256
    rw [hup, hup, hup]
    omega
  all_goals rfl

end Mnemonic

theorem Opcode.execute_spAfter {op : Opcode} {m n : Machine} {cycles : Cycles}
    (h : op.execute m = some (n, cycles)) :
    n.regs.sp = op.mnemonic.action.spAfter (op.past m).regs := by
  obtain ⟨o, ho, hregs, -, -⟩ := execute_outcome h
  obtain ⟨p, hn⟩ := Effect.settle_eq hregs
  have hsp : n.regs.sp = o.effect.regs.sp := by rw [hn]
  rw [hsp, Action.run_sp op.mnemonic.action_sparesSp ho]

/-- **What an instruction does to SP.** -/
theorem Opcode.execute_sp {op : Opcode} {m n : Machine} {cycles : Cycles}
    (h : op.execute m = some (n, cycles)) : n.regs.sp.toNat = op.mnemonic.spAfter m.regs := by
  rw [execute_spAfter h, Mnemonic.toNat_spAfter]
  cases op.mnemonic <;> rfl

/-! ### A, X and Y -/

/-- The registers that hold bytes of a program. -/
inductive Register
  | a
  | x
  | y
  deriving DecidableEq

/-- The byte in the register. -/
def Register.read (r : Registers) : Register → UInt8
  | a => r.a
  | x => r.x
  | y => r.y

@[simp] theorem Register.read_addCycles (r : Registers) (n : Nat) (reg : Register) :
    reg.read (r.addCycles n) = reg.read r := by
  cases reg <;> rfl

theorem Interrupt.read_enter (kind : Interrupt) (m : Machine) (reg : Register) :
    reg.read (kind.enter m).regs = reg.read m.regs := by
  cases reg <;> rfl

namespace Action

/-- Whatever the action does, it leaves the register as it is, unless that is
its operand. -/
def Keeps (reg : Register) : Action → Prop
  | take f => ∀ v e, reg.read (f v e).regs = reg.read e.regs
  | modify _ next => ∀ v e, reg.read (next v e).regs = reg.read e.regs
  | internal f => ∀ r, reg.read (f r) = reg.read r
  | pull f => ∀ r v, reg.read (f r v) = reg.read r
  | _ => True

theorem run_keeps {reg : Register} {action : Action} (hk : action.Keeps reg) {operand : Operand}
    (hoperand : operand = .accumulator → reg ≠ .a) {m : Machine} {o : Outcome}
    (h : action.run operand m = some o) : reg.read o.effect.regs = reg.read m.regs := by
  have hspares : action.Spares (Register.read · reg) := by cases action <;> exact hk
  refine run_spares ?_ hspares (fun hacc v => ?_) h
  · intro r s ha hx hy _
    cases reg with
    | a => exact ha
    | x => exact hx
    | y => exact hy
  · cases reg with
    | a => exact absurd rfl (hoperand hacc)
    | x | y => rfl

end Action

namespace Opcode

/-- The instructions that may change a register. -/
def changes (op : Opcode) : Register → Bool
  | .a =>
    match op.mnemonic with
    | .lda | .lax | .txa | .tya | .pla | .and | .ora | .eor | .adc | .sbc | .slo | .rla | .sre
    | .rra | .isb => true
    | .asl | .lsr | .rol | .ror => op.mode == .accumulator
    | _ => false
  | .x =>
    match op.mnemonic with
    | .ldx | .lax | .tax | .tsx | .inx | .dex => true
    | _ => false
  | .y =>
    match op.mnemonic with
    | .ldy | .tay | .iny | .dey => true
    | _ => false

theorem action_keeps (op : Opcode) {reg : Register} (h : op.changes reg = false) :
    op.mnemonic.action.Keeps reg := by
  obtain ⟨mnemonic, mode, base, documented⟩ := op
  cases reg <;> cases mnemonic <;>
    first | trivial | exact fun _ => rfl | exact fun _ _ => rfl

theorem changes_of_accumulator {byte : UInt8} {op : Opcode} (hd : decode? byte = some op)
    (h : op.mode = .accumulator) : op.changes .a = true := by
  have hop := forall_decode? (P := fun op => op.mode != .accumulator || op.changes .a)
    (by decide +kernel) hd
  simpa [h] using hop

/-- **Which instructions spare a register.** -/
theorem execute_register {byte : UInt8} {op : Opcode} {m n : Machine} {cycles : Cycles}
    (hd : decode? byte = some op) (h : op.execute m = some (n, cycles)) {reg : Register}
    (hreg : op.changes reg = false) : reg.read n.regs = reg.read m.regs := by
  obtain ⟨o, ho, hregs, -, -⟩ := execute_outcome h
  obtain ⟨p, hn⟩ := Effect.settle_eq hregs
  have hread : reg.read n.regs = reg.read o.effect.regs := by
    rw [hn]
    cases reg <;> rfl
  have hoperand (hacc : (op.mode.resolve m).operand = .accumulator) : reg ≠ .a := by
    rintro rfl
    cases hreg.symm.trans (changes_of_accumulator hd (Mode.accumulator_of_operand hacc))
  rw [hread, Action.run_keeps (op.action_keeps hreg) hoperand ho]
  cases reg <;> rfl

theorem execute_nop {op : Opcode} {m n : Machine} {cycles : Cycles}
    (h : op.execute m = some (n, cycles)) (hnop : op.mnemonic = .nop) : n = op.past m := by
  obtain ⟨o, ho, hregs, hbus, -⟩ := execute_outcome h
  rw [hnop] at ho hregs
  cases ho
  have hpast : (op.past m).regs = n.regs := Option.some.inj hregs
  obtain ⟨regs, bus⟩ := n
  cases hpast
  cases hbus
  rfl

end Opcode

/-! ### Steps -/

/-- Without mirrors and protection every address is its own writable slot. -/
theorem Bus.locate_of_flat {bus : Bus} (h : bus.mapping = .flat) (a : Address) :
    bus.locate a = ⟨a, false⟩ := by
  rw [locate, h]
  rfl

/-- From one bus to the other the memory changes at most where these addresses
lead. -/
structure Bus.ChangesAt (places : List Nat) (b d : Bus) : Prop where
  mapping : d.mapping = b.mapping
  memory : ∀ slot, (∀ a ∈ places, (b.locate (UInt16.ofNat a)).slot ≠ slot) →
    d.memory.get slot = b.memory.get slot

namespace Bus.ChangesAt

variable {places places' : List Nat} {b d e : Bus}

theorem refl (places : List Nat) (b : Bus) : b.ChangesAt places b := ⟨rfl, fun _ _ => rfl⟩

theorem locate_eq (h : b.ChangesAt places d) (a : Address) : d.locate a = b.locate a := by
  rw [locate, locate, h.mapping]

theorem mono (h : b.ChangesAt places d) (hp : ∀ a ∈ places, a ∈ places') :
    b.ChangesAt places' d :=
  ⟨h.mapping, fun slot hslot => h.memory slot fun a ha => hslot a (hp a ha)⟩

theorem trans (h : b.ChangesAt places d) (h' : d.ChangesAt places e) : b.ChangesAt places e := by
  refine ⟨h'.mapping.trans h.mapping, fun slot hslot => ?_⟩
  rw [h'.memory slot fun a ha => by rw [h.locate_eq]; exact hslot a ha, h.memory slot hslot]

theorem read_eq (h : b.ChangesAt places d) (hb : b.AtRest) (hd : d.AtRest)
    {a : Address} (ha : ∀ p ∈ places, (b.locate (UInt16.ofNat p)).slot ≠ (b.locate a).slot) :
    d.read a = b.read a := by
  rw [read, read, visible_of_atRest hd, visible_of_atRest hb, h.locate_eq]
  exact h.memory _ ha

end Bus.ChangesAt

/-- What a step with this instruction changes at most. -/
structure Opcode.ChangesAtMost (op : Opcode) (c c' : Computer) : Prop where
  memory : c.bus.ChangesAt (op.footprint c.found) c'.bus
  /-- The writes of the step, in program order, go to these addresses. -/
  issued : c.issued.map (·.address.toNat) = op.footprint c.found
  /-- There is a write through the operand exactly if access and mode say so. -/
  operand : op.stores c.found ≠ [] ↔ op.writesOperand = true
  /-- What is written through the operand is then in memory. -/
  stored : op.writesOperand = true → ∃ ea v, op.mode.effective c.found = some ea ∧
    op.mnemonic.stored? c.found.regs (c.found.bus.byteAt ea) = some v ∧
    (c'.bus.memory.get (c.bus.locate (UInt16.ofNat ea)).slot).toNat = v
  sp : c'.cpu.regs.sp.toNat = op.mnemonic.spAfter c.found.regs
  register : ∀ reg, op.changes reg = false →
    Register.read c'.cpu.regs reg = Register.read c.found.regs reg
  /-- NOP itself moves PC and nothing else. The step that executes it counts its
  cycles, and had forgotten an earlier fault when it began. -/
  nop : op.mnemonic = .nop →
    (∃ cycles, op.execute c.found = some (op.past c.found, cycles)) ∧
    c'.cpu = { c.started.cpu with
      regs := (c.found.regs.advancePc op.length.toUInt16).addCycles c'.cpu.lastCycles
      phase := .fetching
      lastCycles := c'.cpu.lastCycles } ∧
    c'.bus = { c.bus with fault := none }

/-- A byte in place of a byte is a byte. -/
theorem Mnemonic.stored?_lt {mnemonic : Mnemonic} {r : Registers} {v w : Nat} (hv : v < 256)
    (h : mnemonic.stored? r v = some w) : w < 256 := by
  have hc := (r.isSet Flag.carry).toNat_le
  have ha := r.a.toNat_lt
  have hx := r.x.toNat_lt
  have hy := r.y.toNat_lt
  have hcommon := (r.a &&& r.x).toNat_lt
  cases mnemonic <;>
    simp only [stored?, replaced?, Option.some.injEq, reduceCtorEq] at h <;> omega

/-- Where no interrupt is served there is none to acknowledge. -/
theorem InterruptLines.acknowledge_of_next {lines : InterruptLines} {masked : Bool}
    (h : lines.next masked = none) : lines.acknowledge = lines := by
  obtain ⟨nmiPending, irqAsserted⟩ := lines
  cases nmiPending with
  | false => rfl
  | true => cases h

namespace Computer

theorem issued_of_interrupt {c : Computer} {kind : Interrupt}
    (hi : c.started.cpu.lines.next (c.started.cpu.regs.isSet Flag.irqDisable) = some kind) :
    c.issued.map (·.address.toNat) = stackPlaces c.found.regs.sp.toNat 3 := by
  have hissued : c.issued = kind.writes c.found.regs c.found.regs.pc.toNat := by
    simp only [issued, Processor.issues, found, hi]
  rw [hissued]
  exact map_address_pushes (UInt8.toNat_lt _) _

section
variable {c c' : Computer} (hs : c.bus.AtRest) (h : c.step = (.ok true, c'))
include hs h

/-- A step leaves the memory that its writes leave. -/
theorem step_ok_memory : c'.bus.memory = (c.bus.writeAll c.issued).memory ∧
    c'.bus.mapping = c.bus.mapping ∧ c'.bus.AtRest ∧ c'.bus.fault = none := by
  obtain ⟨n, cycles, hw, -, hbus⟩ := step_ok_complete hs h
  rw [started_bus] at hw
  have hn : n.bus = c.bus.writeAll c.issued := work_bus hw
  have hmapping : c'.bus.mapping = n.bus.mapping := by rw [← hbus]; rfl
  refine ⟨?_, hmapping.trans ?_, ?_, ?_⟩
  · rw [← hn, ← hbus]
    rfl
  · rw [hn, Bus.mapping_writeAll]
  · cases stepped_of_eq h with
    | done m total hp hwork hf => exact m.bus.atRest_commit
  · cases stepped_of_eq h with
    | done m total hp hwork hf => exact hf

theorem step_ok_changesAt :
    c.bus.ChangesAt (c.issued.map (·.address.toNat)) c'.bus := by
  obtain ⟨hmemory, hmapping, -, -⟩ := step_ok_memory hs h
  refine ⟨hmapping, fun slot hslot => ?_⟩
  rw [hmemory]
  refine Bus.memory_writeAll hs c.issued fun w hw => ?_
  have hplace := hslot _ (List.mem_map_of_mem hw)
  rwa [UInt16.ofNat_toNat] at hplace

/-- A step that writes nothing forgets an earlier fault, and leaves the rest of the
bus as it was. -/
theorem step_ok_quiet (hissued : c.issued = []) : c'.bus = { c.bus with fault := none } := by
  obtain ⟨hmemory, hmapping, hrest, hfault⟩ := step_ok_memory hs h
  rw [hissued] at hmemory
  have houtside := hrest.outside.trans hs.outside.symm
  have hjournal := hrest.unstaged.trans hs.unstaged.symm
  generalize c'.bus = bus at hmemory hmapping houtside hjournal hfault
  obtain ⟨memory, mapping, inTransaction, journal, fault⟩ := bus
  cases hmemory
  cases hmapping
  cases houtside
  cases hjournal
  cases hfault
  rfl

theorem step_ok_read (a : Address) : c'.bus.memory.get (c.bus.locate a).slot = c'.bus.read a := by
  obtain ⟨-, hmapping, hrest, -⟩ := step_ok_memory hs h
  rw [Bus.read, Bus.visible_of_atRest hrest, Bus.locate, Bus.locate, hmapping]

/-- The byte written through the operand. -/
theorem step_ok_stored
    (hi : c.started.cpu.lines.next (c.started.cpu.regs.isSet Flag.irqDisable) = none) {op : Opcode}
    (hop : Opcode.decode? (c.found.bus.read c.found.regs.pc) = some op)
    (hw : op.writesOperand = true) : ∃ ea v, op.mode.effective c.found = some ea ∧
      op.mnemonic.stored? c.found.regs (c.found.bus.byteAt ea) = some v ∧
      (c'.bus.memory.get (c.bus.locate (UInt16.ofNat ea)).slot).toNat = v := by
  obtain ⟨ea, hea⟩ := Opcode.effective_of_writesOperand hop hw c.found
  have haccess : op.mnemonic.access == .write || op.mnemonic.access == .readModifyWrite :=
    (Bool.and_eq_true_iff.mp hw).1
  obtain ⟨v, hv⟩ := Option.isSome_iff_exists.mp
    ((op.mnemonic.stored?_isSome c.found.regs (c.found.bus.byteAt ea)).trans haccess)
  have hpush : op.mnemonic.isPush = false := by
    revert haccess
    cases op.mnemonic <;> first | exact fun _ => rfl | exact fun h => nomatch h
  have hissued : c.issued = [⟨UInt16.ofNat ea, UInt8.ofNat v⟩] := by
    rw [step_ok_writes hs hi h hop, op.writes_of_not_isPush hpush, Opcode.stores, hea]
    simp only [hv]
  obtain ⟨haccepted, hread⟩ := step_ok_issued hs h
  rw [hissued] at haccepted hread
  have hlt : v < 256 := Mnemonic.stored?_lt (UInt8.toNat_lt _) hv
  refine ⟨ea, v, hea, hv, ?_⟩
  rw [step_ok_read hs h, hread, Bus.read_writeAll_singleton haccepted,
    UInt8.toNat_ofNat_of_lt' hlt]

theorem step_ok_nop
    (hi : c.started.cpu.lines.next (c.started.cpu.regs.isSet Flag.irqDisable) = none) {op : Opcode}
    (hop : Opcode.decode? (c.found.bus.read c.found.regs.pc) = some op)
    (hnop : op.mnemonic = .nop) :
    (∃ cycles, op.execute c.found = some (op.past c.found, cycles)) ∧
    c'.cpu = { c.started.cpu with
      regs := (c.found.regs.advancePc op.length.toUInt16).addCycles c'.cpu.lastCycles
      phase := .fetching
      lastCycles := c'.cpu.lastCycles } ∧
    c'.bus = { c.bus with fault := none } := by
  obtain ⟨op', n, cycles, hop', he, hcpu, -⟩ := step_ok_execute hs hi h
  cases hop.symm.trans hop'
  obtain rfl := Opcode.execute_nop he hnop
  have hlast : c'.cpu.lastCycles = cycles.total := by rw [hcpu]; rfl
  have hlines := InterruptLines.acknowledge_of_next hi
  refine ⟨⟨cycles, he⟩, ?_, step_ok_quiet hs h ?_⟩
  · rw [hlast, hcpu]
    simp only [complete, hlines]
    rfl
  · rw [step_ok_writes hs hi h hop, op.writes_of_not_isPush (by rw [hnop]; rfl),
      Opcode.stores_eq_nil_iff hop, Opcode.writesOperand, Opcode.access, hnop]
    rfl

/-- **What a step changes at most.** A step that executes an instruction writes
at the addresses of its footprint, moves SP as its opcode says, and spares the
registers that its opcode does not change. A step that serves an interrupt
writes in three places of the stack, moves SP by three and spares all others. -/
theorem step_footprint :
    (∀ kind, c.started.cpu.lines.next (c.found.regs.isSet Flag.irqDisable) = some kind →
      c.bus.ChangesAt (stackPlaces c.found.regs.sp.toNat 3) c'.bus ∧
      c.issued.map (·.address.toNat) = stackPlaces c.found.regs.sp.toNat 3 ∧
      c'.cpu.regs.sp.toNat = (c.found.regs.sp.toNat + 253) % 256 ∧
      ∀ reg, Register.read c'.cpu.regs reg = Register.read c.found.regs reg) ∧
    (c.started.cpu.lines.next (c.found.regs.isSet Flag.irqDisable) = none →
      ∃ op, Opcode.decode? (c.found.bus.read c.found.regs.pc) = some op ∧
        op.ChangesAtMost c c') := by
  have hchanges := step_ok_changesAt hs h
  constructor
  · intro kind hi
    obtain ⟨hcpu, -⟩ := step_ok_enter hs hi h
    have hissued := issued_of_interrupt hi
    rw [hissued] at hchanges
    have hregs : c'.cpu.regs = (kind.enter c.found).regs.addCycles interruptCycles := by
      rw [hcpu]
      rfl
    refine ⟨hchanges, hissued, ?_, fun reg => ?_⟩
    · rw [hregs]
      exact Mnemonic.brk.toNat_spAfter c.found.regs
    · rw [hregs, Register.read_addCycles, Interrupt.read_enter]
  · intro hi
    obtain ⟨op, n, cycles, hop, he, hcpu, -⟩ := step_ok_execute hs hi h
    have hissued : c.issued.map (·.address.toNat) = op.footprint c.found := by
      rw [step_ok_writes hs hi h hop, op.writes_footprint]
    have hregs : c'.cpu.regs = n.regs.addCycles cycles.total := by rw [hcpu]; rfl
    rw [hissued] at hchanges
    exact ⟨op, hop,
      { memory := hchanges
        issued := hissued
        operand := by
          rw [Ne, Opcode.stores_eq_nil_iff hop, Bool.not_eq_false]
        stored := step_ok_stored hs h hi hop
        sp := by
          rw [hregs]
          exact Opcode.execute_sp he
        register := fun reg hreg => by
          rw [hregs, Register.read_addCycles, Opcode.execute_register hop he hreg]
        nop := step_ok_nop hs h hi hop }⟩

end

/-- `INC $0810`, where work memory repeats `$0010`, which holds `$FF`. -/
def incrementMirrored : Computer where
  cpu := { Processor.powerOn {} with
    regs := { Registers.powerOn {} with a := 0x12, pc := 0x0200 }
    phase := .fetching }
  bus := ((Bus.withMapping (Nrom.ofSize 16384).toMapping).load 0x0200 [0xEE, 0x10, 0x08]).poke
    0x0010 0xFF

theorem step_footprint_mirrored : ∃ c', incrementMirrored.step = (.ok true, c') ∧
    (∀ slot, slot ≠ 0x0010 →
      c'.bus.memory.get slot = incrementMirrored.bus.memory.get slot) ∧
    (c'.bus.memory.get 0x0010).toNat = 0 ∧ c'.cpu.regs.sp.toNat = 0xFD ∧ c'.cpu.regs.a = 0x12 := by
  have hstep : incrementMirrored.step = (.ok true, incrementMirrored.step.2) := Prod.ext rfl rfl
  have hinc : Opcode.decode? (incrementMirrored.found.bus.read incrementMirrored.found.regs.pc) =
      some ⟨.inc, .absolute, 6, true⟩ := by decide +kernel
  obtain ⟨op, hop, hchanges⟩ := (step_footprint ⟨rfl, rfl⟩ hstep).2 rfl
  cases hop.symm.trans hinc
  have hplaces : Opcode.footprint ⟨.inc, .absolute, 6, true⟩ incrementMirrored.found = [0x0810] := by
    decide +kernel
  have hslot : (incrementMirrored.bus.locate (UInt16.ofNat 0x0810)).slot = 0x0010 := by
    decide +kernel
  obtain ⟨ea, v, hea, hv, hbyte⟩ := hchanges.stored rfl
  have heffective : Mode.effective .absolute incrementMirrored.found = some 0x0810 := by
    decide +kernel
  cases hea.symm.trans heffective
  have hreplaced : Mnemonic.stored? incrementMirrored.found.regs
      (incrementMirrored.found.bus.byteAt 0x0810) .inc = some 0 := by decide +kernel
  cases hv.symm.trans hreplaced
  refine ⟨_, hstep, fun slot hne => hchanges.memory.memory slot ?_, ?_, hchanges.sp,
    hchanges.register .a rfl⟩
  · rw [hplaces, List.forall_mem_singleton, hslot]
    exact hne.symm
  · rw [hslot] at hbyte
    exact hbyte

end Computer

end Cpu6502
