/-
# The status byte, saved and restored

PHP pushes the status byte, and every way into a handler pushes PC and the
status byte. PLP takes the status back, and RTI both. Between the two anything
may happen: as long as SP is where the save left it and the saved bytes are
still there, the restoring instruction brings back the six flags, SP and, from
a handler, PC (`Computer.save_restore`). The break bit is no part of it: it is
set in the pushed copy exactly for PHP and BRK, and a load of P leaves it alone
(`Status.restore_pushed`).

What is pushed comes back if the places of a save are writable and lead to slots
apart from each other (`Save.Fits`): then no write of the save covers another
(`Bus.read_writeAll`).

Key definitions: `Save`, `Save.writes`, `Computer.Saves`, `Save.Fits`,
`Save.Kept`, `Save.Restored`.
Key theorems: `Status.restore_pushed`, `Save.Fits.step`,
`Computer.save_restore`.
-/
import Cpu6502.Proofs.Footprint

namespace Cpu6502

/-! ### The copy of P -/

namespace Status

/-- From the pushed copy come the six flags, and from P the break bit. -/
theorem restore_pushed (p q : UInt8) (byProgram : Bool) : restore q (pushed p byProgram) =
    p &&& Flag.arithmetic ||| q &&& Flag.brk ||| Flag.unused := by
  have hflags : pushed p byProgram &&& ~~~(Flag.brk ||| Flag.unused) = p &&& Flag.arithmetic :=
    forall_byte (P := fun p => pushed p byProgram &&& ~~~(Flag.brk ||| Flag.unused) =
      p &&& Flag.arithmetic) (by cases byProgram <;> decide +kernel) p
  rw [restore, hflags]

theorem isSet_restore_pushed (p q : UInt8) (byProgram : Bool) :
    (∀ bit ∈ [Flag.carry, Flag.zero, Flag.irqDisable, Flag.decimal, Flag.overflow, Flag.negative],
      isSet (restore q (pushed p byProgram)) bit = isSet p bit) ∧
    isSet (restore q (pushed p byProgram)) Flag.brk = isSet q Flag.brk ∧
    isSet (restore q (pushed p byProgram)) Flag.unused = true := by
  have hbit (bit : UInt8) : isSet (restore q (pushed p byProgram)) bit =
      (isSet p (Flag.arithmetic &&& bit) || isSet q (Flag.brk &&& bit) ||
        isSet Flag.unused bit) := by
    rw [restore_pushed, isSet_or, isSet_or, isSet_and, isSet_and]
  have hnone (v : UInt8) : isSet v 0 = false := by simp [isSet]
  refine ⟨?_, ?_, ?_⟩
  · -- each of the six is in the first mask and in neither of the others
    have hmasks : ∀ bit ∈ [Flag.carry, Flag.zero, Flag.irqDisable, Flag.decimal, Flag.overflow,
        Flag.negative], Flag.arithmetic &&& bit = bit ∧ Flag.brk &&& bit = 0 ∧
          isSet Flag.unused bit = false := by decide +kernel
    intro bit hmem
    obtain ⟨hflag, hbrk, hunused⟩ := hmasks bit hmem
    rw [hbit, hflag, hbrk, hunused, hnone, Bool.or_false, Bool.or_false]
  · have hflag : Flag.arithmetic &&& Flag.brk = 0 := by decide
    have hbrk : Flag.brk &&& Flag.brk = Flag.brk := by decide
    have hunused : isSet Flag.unused Flag.brk = false := by decide
    rw [hbit, hflag, hbrk, hunused, hnone, Bool.false_or, Bool.or_false]
  · rw [hbit]
    exact Bool.or_true _

theorem isSet_pushed (p : UInt8) (byProgram : Bool) :
    isSet (pushed p byProgram) Flag.unused = true ∧
      isSet (pushed p byProgram) Flag.brk = byProgram :=
  forall_byte (P := fun p => isSet (pushed p byProgram) Flag.unused = true ∧
    isSet (pushed p byProgram) Flag.brk = byProgram) (by cases byProgram <;> decide +kernel) p

end Status

/-! ### Saves -/

/-- The address that a handler returns to: BRK skips its padding byte. -/
def Interrupt.back (r : Registers) : Interrupt → Nat
  | brk => (r.pc.toNat + 2) % 65536
  | nmi | irq => r.pc.toNat

/-- The ways to save the status byte. -/
inductive Save
  | php
  /-- Into a handler, by an instruction or by a line of the host. -/
  | entry (kind : Interrupt)
  deriving DecidableEq

namespace Save

/-- The pushed copy has the break bit set. -/
def setsBreak : Save → Bool
  | php => true
  | entry kind => kind.setsBreak

/-- How many bytes are pushed. -/
def size : Save → Nat
  | php => 1
  | entry _ => 3

/-- The writes of the save; the copy of the status byte is the last one. -/
def writes (r : Registers) : Save → List Write
  | php => pushes r.sp.toNat [r.p ||| 0x30]
  | entry kind => kind.writes r (kind.back r)

/-- SP after the save. -/
def spAfter (sp : UInt8) : Save → UInt8
  | php => sp - 1
  | entry _ => sp - 1 - 1 - 1

/-- SP after as many bytes are popped. -/
def spRestored (sp : UInt8) : Save → UInt8
  | php => sp + 1
  | entry _ => sp + 1 + 1 + 1

theorem spRestored_spAfter (save : Save) (sp : UInt8) : save.spRestored (save.spAfter sp) = sp := by
  cases save <;> simp only [spRestored, spAfter, UInt8.sub_add_cancel]

/-- The instruction that takes back what was saved. -/
def restorer : Save → Mnemonic
  | php => .plp
  | entry _ => .rti

/-- The places that the save fills, the first one first. -/
def places (save : Save) (r : Registers) : List Nat := stackPlaces r.sp.toNat save.size

theorem map_address_writes (save : Save) (r : Registers) :
    (save.writes r).map (·.address.toNat) = save.places r := by
  cases save with
  | php | entry kind => exact map_address_pushes (UInt8.toNat_lt _) _

theorem writes_php (r : Registers) :
    php.writes r = [⟨Machine.stackAddress r.sp, Status.pushed r.p true⟩] := by
  have hstatus : r.p ||| 0x30 = Status.pushed r.p true :=
    (UInt8.or_assoc r.p Flag.unused Flag.brk).symm
  rw [writes, hstatus, pushes_cons]
  rfl

theorem writes_entry (kind : Interrupt) (r : Registers) : (entry kind).writes r =
    [⟨Machine.stackAddress r.sp, UInt8.ofNat (kind.back r / 256)⟩,
      ⟨Machine.stackAddress (r.sp - 1), UInt8.ofNat (kind.back r % 256)⟩,
      ⟨Machine.stackAddress (r.sp - 1 - 1), Status.pushed r.p kind.setsBreak⟩] := by
  have hbytes : highLow (kind.back r) ++ [kind.pushedStatus r.p] = [UInt8.ofNat (kind.back r / 256),
      UInt8.ofNat (kind.back r % 256), Status.pushed r.p kind.setsBreak] := by
    rw [highLow, kind.pushedStatus_eq]
    rfl
  rw [writes, Interrupt.writes, hbytes, pushes_cons, pushes_cons, pushes_cons]
  rfl

end Save

namespace Computer

/-- The next step executes an instruction with this mnemonic. -/
def Executes (c : Computer) (mnemonic : Mnemonic) : Prop :=
  c.started.cpu.lines.next (c.started.cpu.regs.isSet Flag.irqDisable) = none ∧
    ∃ op, Opcode.decode? (c.found.bus.read c.found.regs.pc) = some op ∧ op.mnemonic = mnemonic

/-- The next step saves the status byte in this way. -/
def Saves (c : Computer) : Save → Prop
  | .php => c.Executes .php
  | .entry .brk => c.Executes .brk
  | .entry kind =>
    c.started.cpu.lines.next (c.started.cpu.regs.isSet Flag.irqDisable) = some kind

end Computer

/-- The save has room: its places may be written, and lead to slots apart. -/
structure Save.Fits (save : Save) (c : Computer) : Prop where
  writable : ∀ a ∈ save.places c.found.regs, (c.bus.locate (UInt16.ofNat a)).readOnly = false
  apart : ((save.places c.found.regs).map fun a => (c.bus.locate (UInt16.ofNat a)).slot).Nodup

/-! ### The saving step -/

/-- The instructions that save or restore the status byte are documented. -/
theorem Opcode.documented_of_mnemonic {byte : UInt8} {op : Opcode} (hd : decode? byte = some op)
    (hm : op.mnemonic ∈ [.php, .plp, .brk, .rti]) : op.documented = true := by
  have hop := forall_decode?
    (P := fun op => !decide (op.mnemonic ∈ [.php, .plp, .brk, .rti]) || op.documented)
    (by decide +kernel) hd
  simpa [hm] using hop

namespace Computer

theorem Executes.issued {c : Computer} {mnemonic : Mnemonic} (h : c.Executes mnemonic)
    (hm : mnemonic ∈ [.php, .plp, .brk, .rti]) : ¬ c.Refuses ∧
      ∃ op, Opcode.decode? (c.found.bus.read c.found.regs.pc) = some op ∧ op.mnemonic = mnemonic ∧
        c.issued = op.writes c.found := by
  obtain ⟨hnext, op, hop, rfl⟩ := h
  obtain ⟨hr, hissued⟩ := issued_of_documented hnext hop (Opcode.documented_of_mnemonic hop hm)
  exact ⟨hr, op, hop, rfl, hissued⟩

/-- A save is an instruction that writes and moves SP like it, or the service of
a line. -/
theorem Saves.executes_or_next {c : Computer} {save : Save} (h : c.Saves save) :
    (∃ mnemonic ∈ [.php, .plp, .brk, .rti], c.Executes mnemonic ∧
      (∀ op : Opcode, op.mnemonic = mnemonic → ∀ m, op.writes m = save.writes m.regs) ∧
      ∀ r, mnemonic.action.spAfter r = save.spAfter r.sp) ∨
    ∃ kind, save = .entry kind ∧ (∀ r, kind.back r = r.pc.toNat) ∧
      c.started.cpu.lines.next (c.started.cpu.regs.isSet Flag.irqDisable) = some kind := by
  have hwrites {mnemonic : Mnemonic} {list : Machine → List Write}
      (hw : ∀ mode base documented m,
        (⟨mnemonic, mode, base, documented⟩ : Opcode).writes m = list m) :
      ∀ op : Opcode, op.mnemonic = mnemonic → ∀ m, op.writes m = list m := by
    rintro ⟨_, mode, base, documented⟩ rfl m
    exact hw mode base documented m
  cases save with
  | php => exact .inl ⟨.php, by decide, h, hwrites fun _ _ _ _ => rfl, fun _ => rfl⟩
  | entry kind =>
    cases kind with
    | brk => exact .inl ⟨.brk, by decide, h, hwrites fun _ _ _ _ => rfl, fun _ => rfl⟩
    | nmi | irq => exact .inr ⟨_, rfl, fun _ => rfl, h⟩

/-- A save issues its writes and no others. -/
theorem Saves.issued {c : Computer} {save : Save} (h : c.Saves save) :
    ¬ c.Refuses ∧ c.issued = save.writes c.found.regs := by
  rcases h.executes_or_next with ⟨mnemonic, hmem, he, hwrites, -⟩ | ⟨kind, rfl, hback, hnext⟩
  · obtain ⟨hr, op, -, hm, hissued⟩ := he.issued hmem
    exact ⟨hr, hissued.trans (hwrites op hm c.found)⟩
  · refine ⟨fun hr => ?_, ?_⟩
    · cases hr.1.symm.trans hnext
    · simp only [Computer.issued, Processor.issues, found, hnext, Save.writes, hback]

/-- A step that succeeds in executing an instruction leaves its registers. -/
theorem Executes.step_ok {c c' : Computer} {mnemonic : Mnemonic} (hs : c.bus.AtRest)
    (h : c.Executes mnemonic) (hstep : c.step = (.ok true, c')) :
    ∃ (op : Opcode) (n : Machine) (cycles : Cycles), op.mnemonic = mnemonic ∧
      op.execute c.found = some (n, cycles) ∧ c'.cpu.regs = n.regs.addCycles cycles.total := by
  obtain ⟨hnext, op, hop, hm⟩ := h
  obtain ⟨op', n, cycles, hop', he, hregs, -⟩ := step_ok_instruction hs hnext hstep
  cases hop.symm.trans hop'
  exact ⟨op, n, cycles, hm, he, hregs⟩

theorem Saves.spAfter {c c' : Computer} {save : Save} (hs : c.bus.AtRest) (h : c.Saves save)
    (hstep : c.step = (.ok true, c')) : c'.cpu.regs.sp = save.spAfter c.found.regs.sp := by
  rcases h.executes_or_next with ⟨mnemonic, -, he, -, hafter⟩ | ⟨kind, rfl, -, hnext⟩
  · obtain ⟨op, n, cycles, rfl, hn, hregs⟩ := he.step_ok hs hstep
    have hsp := (Opcode.execute_spAfter hn).trans (hafter (op.past c.found).regs)
    rw [hregs]
    exact hsp
  · rw [(step_ok_enter hs hnext hstep).1]
    rfl

end Computer

namespace Save.Fits

variable {save : Save} {c : Computer}

theorem accepted (hf : save.Fits c) :
    ∀ w ∈ save.writes c.found.regs, (c.bus.locate w.address).readOnly = false := by
  intro w hw
  have hplace := hf.writable w.address.toNat
    (save.map_address_writes c.found.regs ▸ List.mem_map_of_mem hw)
  rwa [UInt16.ofNat_toNat] at hplace

theorem distinct (hf : save.Fits c) :
    ((save.writes c.found.regs).map fun w => (c.bus.locate w.address).slot).Nodup := by
  have hapart := hf.apart
  rw [← map_address_writes, List.map_map] at hapart
  simpa only [Function.comp_def, UInt16.ofNat_toNat] using hapart

/-- **A save that has room succeeds**, and its bytes are in their places. -/
theorem step (hf : save.Fits c) (hsave : c.Saves save) (hh : c.cpu.isHalted = false)
    (hs : c.bus.AtRest) : ∃ c', c.step = (.ok true, c') ∧
      c'.cpu.regs.sp = save.spAfter c.found.regs.sp ∧
      ∀ w ∈ save.writes c.found.regs,
        c'.bus.memory.get (c.bus.locate w.address).slot = w.value := by
  obtain ⟨hr, hissued⟩ := hsave.issued
  have haccepted := hf.accepted
  have hok : c.step.1 = .ok true := Computer.step_ok_of_accepted hh hs hr (hissued ▸ haccepted)
  have hstep : c.step = (.ok true, c.step.2) := Prod.ext hok rfl
  refine ⟨c.step.2, hstep, hsave.spAfter hs hstep, fun w hw => ?_⟩
  rw [Computer.step_ok_read hs hstep, (Computer.step_ok_issued hs hstep).2, hissued]
  exact Bus.read_writeAll haccepted hf.distinct w hw

end Save.Fits

/-! ### The restoring step -/

/-- What PLP and RTI do: the status byte is popped first, then the address. -/
theorem Opcode.execute_restorer {op : Opcode} {m n : Machine} {cycles : Cycles} {save : Save}
    (h : op.execute m = some (n, cycles)) (hm : op.mnemonic = save.restorer) :
    n.regs.p = Status.restore m.regs.p (m.bus.read (Machine.stackAddress (m.regs.sp + 1))) ∧
      n.regs.sp = save.spRestored m.regs.sp ∧
      (∀ reg : Register, reg.read n.regs = reg.read m.regs) ∧
      ∀ kind, save = .entry kind → n.regs.pc = Address.ofBytes
        (m.bus.read (Machine.stackAddress (m.regs.sp + 1 + 1)))
        (m.bus.read (Machine.stackAddress (m.regs.sp + 1 + 1 + 1))) := by
  obtain ⟨o, ho, hregs, -, -⟩ := execute_outcome h
  cases save with
  | php =>
    have hplp : op.mnemonic = .plp := hm
    rw [hplp] at ho hregs
    cases ho
    rw [← Option.some.inj hregs]
    exact ⟨rfl, rfl, fun reg => by cases reg <;> rfl, fun kind hk => by cases hk⟩
  | entry kind =>
    have hrti : op.mnemonic = .rti := hm
    rw [hrti] at ho hregs
    cases ho
    rw [← Option.some.inj hregs]
    exact ⟨rfl, rfl, fun reg => by cases reg <;> rfl, fun kind hk => rfl⟩

/-- The instruction that restores reads only, so its step succeeds. -/
theorem Computer.Executes.restorer_step {d : Computer} {save : Save} (hh : d.cpu.isHalted = false)
    (hs : d.bus.AtRest) (h : d.Executes save.restorer) : d.step.1 = .ok true := by
  obtain ⟨hr, op, hop, hm, hissued⟩ := h.issued (by cases save <;> simp [Save.restorer])
  have hquiet : op.mnemonic.isPush = false ∧ op.writesOperand = false := by
    rw [Opcode.writesOperand, Opcode.access, hm]
    cases save <;> exact ⟨rfl, rfl⟩
  have hnone : d.issued = [] := by
    rw [hissued, op.writes_of_not_isPush hquiet.1]
    exact (Opcode.stores_eq_nil_iff hop d.found).mpr hquiet.2
  refine Computer.step_ok_of_accepted hh hs hr ?_
  rw [hnone]
  exact List.forall_mem_nil _

/-- The two bytes of an address make it again. -/
theorem Address.toNat_ofBytes_ofNat {n : Nat} (h : n < 65536) :
    (ofBytes (UInt8.ofNat (n % 256)) (UInt8.ofNat (n / 256))).toNat = n := by
  rw [toNat_ofBytes, UInt8.toNat_ofNat', UInt8.toNat_ofNat']
  omega

theorem Interrupt.back_lt (kind : Interrupt) (r : Registers) : kind.back r < 65536 := by
  cases kind with
  | brk => exact Nat.mod_lt _ (by decide)
  | nmi | irq => exact r.pc.toNat_lt

namespace Save

/-- The copy of the status byte is the next to be popped. -/
theorem copy_mem (save : Save) (r : Registers) :
    ⟨Machine.stackAddress (save.spAfter r.sp + 1), Status.pushed r.p save.setsBreak⟩ ∈
      save.writes r := by
  cases save with
  | php =>
    simp only [writes_php, spAfter, UInt8.sub_add_cancel]
    exact List.mem_cons_self
  | entry kind =>
    simp only [writes_entry, spAfter, UInt8.sub_add_cancel]
    exact List.mem_cons_of_mem _ (List.mem_cons_of_mem _ List.mem_cons_self)

/-- After it come the low byte and the high byte of the address. -/
theorem back_mem (kind : Interrupt) (r : Registers) :
    ⟨Machine.stackAddress ((entry kind).spAfter r.sp + 1 + 1), UInt8.ofNat (kind.back r % 256)⟩ ∈
        (entry kind).writes r ∧
      ⟨Machine.stackAddress ((entry kind).spAfter r.sp + 1 + 1 + 1),
        UInt8.ofNat (kind.back r / 256)⟩ ∈ (entry kind).writes r := by
  simp only [writes_entry, spAfter, UInt8.sub_add_cancel]
  exact ⟨List.mem_cons_of_mem _ List.mem_cons_self, List.mem_cons_self⟩

/-- What may have happened between a save and a step that restores: the mapping
is the same, SP is where the save left it, and so are the saved bytes. -/
structure Kept (save : Save) (c c' d : Computer) : Prop where
  mapping : d.bus.mapping = c.bus.mapping
  sp : d.found.regs.sp = c'.cpu.regs.sp
  held : ∀ a ∈ save.places c.found.regs, d.bus.memory.get (c.bus.locate (UInt16.ofNat a)).slot =
    c'.bus.memory.get (c.bus.locate (UInt16.ofNat a)).slot

/-- What a step that restores leaves: of the registers before the save the six
flags, SP and the address to return to, and the others as it finds them. -/
structure Restored (save : Save) (before between after : Registers) : Prop where
  flags : ∀ bit ∈ [Flag.carry, Flag.zero, Flag.irqDisable, Flag.decimal, Flag.overflow,
    Flag.negative], after.isSet bit = before.isSet bit
  brk : after.isSet Flag.brk = between.isSet Flag.brk
  unused : after.isSet Flag.unused = true
  sp : after.sp = before.sp
  register : ∀ reg : Register, reg.read after = reg.read between
  pc : ∀ kind, save = .entry kind → after.pc.toNat = kind.back before

theorem Kept.read {save : Save} {c c' d : Computer} (hk : save.Kept c c' d)
    (hs : d.bus.AtRest) {w : Write} (hw : w ∈ save.writes c.found.regs)
    (hsaved : c'.bus.memory.get (c.bus.locate w.address).slot = w.value) :
    d.bus.read w.address = w.value := by
  have hplace := hk.held w.address.toNat
    (save.map_address_writes c.found.regs ▸ List.mem_map_of_mem hw)
  rw [UInt16.ofNat_toNat] at hplace
  rw [Bus.read, Bus.visible_of_atRest hs, Bus.locate, hk.mapping]
  exact hplace.trans hsaved

theorem Kept.back {kind : Interrupt} {c c' d : Computer} (hk : (entry kind).Kept c c' d)
    (hs : d.bus.AtRest) (hsp : d.found.regs.sp = (entry kind).spAfter c.found.regs.sp)
    (hsaved : ∀ w ∈ (entry kind).writes c.found.regs,
      c'.bus.memory.get (c.bus.locate w.address).slot = w.value) :
    (Address.ofBytes (d.bus.read (Machine.stackAddress (d.found.regs.sp + 1 + 1)))
      (d.bus.read (Machine.stackAddress (d.found.regs.sp + 1 + 1 + 1)))).toNat =
        kind.back c.found.regs := by
  obtain ⟨hlow, hhigh⟩ := back_mem kind c.found.regs
  rw [← hsp] at hlow hhigh
  have hlo := hk.read hs hlow (hsaved _ hlow)
  have hhi := hk.read hs hhigh (hsaved _ hhigh)
  simp only at hlo hhi
  rw [hlo, hhi]
  exact Address.toNat_ofBytes_ofNat (kind.back_lt c.found.regs)

end Save

namespace Computer

/-- **What a save stores, a restore brings back.** A save with room for its
bytes succeeds; its copy of the status byte has the unused bit set, and the
break bit exactly for PHP and BRK. Whatever happens then, as long as SP and the
saved bytes are in place again, the instruction that restores succeeds and
brings back the flags, SP, and for a handler PC. -/
theorem save_restore {save : Save} {c : Computer} (hh : c.cpu.isHalted = false)
    (hs : c.bus.AtRest) (hsave : c.Saves save) (hf : save.Fits c) :
    ∃ c', c.step = (.ok true, c') ∧
      Status.isSet (c'.bus.read (Machine.stackAddress (c'.cpu.regs.sp + 1))) Flag.unused = true ∧
      Status.isSet (c'.bus.read (Machine.stackAddress (c'.cpu.regs.sp + 1))) Flag.brk =
        save.setsBreak ∧
      ∀ d : Computer, d.cpu.isHalted = false → d.bus.AtRest → save.Kept c c' d →
        d.Executes save.restorer →
        ∃ d', d.step = (.ok true, d') ∧ save.Restored c.found.regs d.found.regs d'.cpu.regs := by
  obtain ⟨c', hstep, hsp, hsaved⟩ := hf.step hsave hh hs
  have hcopy := save.copy_mem c.found.regs
  have hpushed : c'.bus.read (Machine.stackAddress (c'.cpu.regs.sp + 1)) =
      Status.pushed c.found.regs.p save.setsBreak := by
    rw [hsp, ← step_ok_read hs hstep]
    exact hsaved _ hcopy
  obtain ⟨hunused, hbrk⟩ := Status.isSet_pushed c.found.regs.p save.setsBreak
  refine ⟨c', hstep, by rw [hpushed, hunused], by rw [hpushed, hbrk], ?_⟩
  intro d hhd hsd hk hexecutes
  have hrestores : d.step = (.ok true, d.step.2) := Prod.ext (hexecutes.restorer_step hhd hsd) rfl
  refine ⟨d.step.2, hrestores, ?_⟩
  obtain ⟨op, n, cycles, hm, he, hregs⟩ := hexecutes.step_ok hsd hrestores
  obtain ⟨hp, hspn, hreg, hpc⟩ := Opcode.execute_restorer he hm
  have hspd : d.found.regs.sp = save.spAfter c.found.regs.sp := hk.sp.trans hsp
  have hpopped := hk.read hsd hcopy (hsaved _ hcopy)
  have hstatus : n.regs.p =
      Status.restore d.found.regs.p (Status.pushed c.found.regs.p save.setsBreak) := by
    rw [hp, hspd]
    exact congrArg _ hpopped
  obtain ⟨hflags, hbreak, hone⟩ :=
    Status.isSet_restore_pushed c.found.regs.p d.found.regs.p save.setsBreak
  rw [← hstatus] at hflags hbreak hone
  rw [hregs]
  exact
    { flags := hflags
      brk := hbreak
      unused := hone
      sp := by
        have hback := save.spRestored_spAfter c.found.regs.sp
        rw [← hspd] at hback
        exact hspn.trans hback
      register := fun reg => (reg.read_addCycles n.regs cycles.total).trans (hreg reg)
      pc := by
        rintro kind rfl
        exact (congrArg UInt16.toNat (hpc kind rfl)).trans (hk.back hsd hspd hsaved) }

/-- BRK near the lowest place of the stack page, so that its pushes wrap, and a
handler that sets D, loads A and clears C before RTI. -/
def breakAtBottom : Computer where
  cpu := { Processor.powerOn {} with
    regs := { Registers.powerOn {} with a := 0x12, sp := 0x01, pc := 0x0200, p := 0xE3 }
    phase := .fetching }
  bus := ((((Bus.withMapping .flat).load 0x0200 [0x00, 0xFF]).load 0xFFFE [0x00, 0x03]).load 0x0300
    [0xF8, 0xA9, 0x00, 0x18, 0x40])

theorem save_restore_wrap : ∃ c' d', breakAtBottom.step = (.ok true, c') ∧
    Status.isSet (c'.bus.read (Machine.stackAddress (c'.cpu.regs.sp + 1))) Flag.brk = true ∧
    (c'.run 3).2.step = (.ok true, d') ∧ d'.cpu.regs.isSet Flag.carry = true ∧
    d'.cpu.regs.isSet Flag.decimal = false ∧ d'.cpu.regs.isSet Flag.irqDisable = false ∧
    d'.cpu.regs.sp = 0x01 ∧ d'.cpu.regs.a = 0x00 ∧ d'.cpu.regs.pc.toNat = 0x0202 := by
  have hsaves : breakAtBottom.Saves (.entry .brk) :=
    ⟨rfl, ⟨.brk, .immediate, 7, true⟩, by decide +kernel, rfl⟩
  have hfits : Save.Fits (.entry .brk) breakAtBottom := ⟨by decide +kernel, by decide +kernel⟩
  obtain ⟨c', hstep, -, hbrk, hrestore⟩ := save_restore rfl ⟨rfl, rfl⟩ hsaves hfits
  obtain rfl : breakAtBottom.step.2 = c' := congrArg Prod.snd hstep
  have hexecutes : (breakAtBottom.step.2.run 3).2.Executes .rti :=
    ⟨rfl, ⟨.rti, .implied, 6, true⟩, by decide +kernel, rfl⟩
  have hkept : Save.Kept (.entry .brk) breakAtBottom breakAtBottom.step.2
      (breakAtBottom.step.2.run 3).2 := ⟨rfl, by decide +kernel, by decide +kernel⟩
  obtain ⟨d', hrestores, hrestored⟩ := hrestore _ rfl ⟨rfl, rfl⟩ hkept hexecutes
  have hflags := hrestored.flags
  exact ⟨_, d', hstep, hbrk, hrestores, hflags _ (by decide), hflags _ (by decide),
    hflags _ (by decide), hrestored.sp, hrestored.register .a, hrestored.pc .brk rfl⟩

end Computer

end Cpu6502
