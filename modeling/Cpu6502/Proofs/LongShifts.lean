/-
# Shifting and rotating numbers of several bytes

ASL of the lowest byte and ROL of the others double a number of any length, and
LSR of the highest and ROR of the others halve it; with ROL or ROR in the first
place the carry comes in (`Computer.long_shifts`). What such a chain does to the
number is known (`Computer.Trail.number_up`, `Computer.Trail.number_down`). That
it runs at all is read off the code: it lies apart from the bytes that it
shifts, and an instruction that stands on the bus of before still stands there
when only those bytes have changed (`Machine.HoldsOne.agrees`), so each shift is
executed when its turn comes (`Computer.Ready.follows`).

A shift of A uses no memory, and makes the same of the same byte and carry
(`Computer.Ready.run_accumulator`).

Key definitions: `Machine.Holds`, `Machine.HoldsOfA`, `Machine.AgreesOff`,
`Computer.Leaves`.
Key theorems: `Computer.Ready.shifts`, `Computer.Ready.follows`,
`Computer.Ready.doubles`, `Computer.Ready.halves`, `Computer.Ready.restores`,
`Computer.long_shifts`.
-/
import Cpu6502.Proofs.Shifts

namespace Cpu6502

/-! ### Chains in memory -/

/-- The address modes of the shifts. -/
def Mode.shifting : List Mode := [.accumulator, .zeroPage, .zeroPageX, .absolute, .absoluteX]

/-- The addresses of the bytes of an instruction. -/
def Opcode.bytesAt (op : Opcode) (pc : Address) : List Address :=
  (List.range op.length.toNat).map fun k => pc + UInt16.ofNat k

theorem Opcode.mem_bytesAt {op : Opcode} {k : Nat} (hk : k < op.length.toNat) (pc : Address) :
    pc + UInt16.ofNat k ∈ op.bytesAt pc :=
  List.mem_map.mpr ⟨k, List.mem_range.mpr hk, rfl⟩

theorem Shift.opcodes {shift : Shift} {byte : UInt8} {op : Opcode}
    (hd : Opcode.decode? byte = some op) (hm : op.mnemonic = shift.mnemonic) :
    op.documented = true ∧ op.mode ∈ Mode.shifting := by
  have hrow := Opcode.forall_decode? (P := fun op =>
    !decide (op.mnemonic ∈ [.asl, .rol, .lsr, .ror]) ||
      op.documented && decide (op.mode ∈ Mode.shifting)) (by decide +kernel) hd
  have hlisted : op.mnemonic ∈ [.asl, .rol, .lsr, .ror] := by
    rw [hm]
    cases shift <;> decide
  simpa [hlisted] using hrow

/-- In such a mode an address comes from X and the bytes of the instruction. -/
theorem Opcode.effective_congr {op : Opcode} (hmode : op.mode ∈ Mode.shifting) {m n : Machine}
    (hpc : n.regs.pc = m.regs.pc) (hx : n.regs.x = m.regs.x)
    (hread : ∀ a ∈ op.bytesAt m.regs.pc, n.bus.read a = m.bus.read a) :
    op.mode.effective n = op.mode.effective m := by
  have hbyte {k : Nat} (hk : k < op.length.toNat) (hk' : k < 65536) :
      n.codeByte k = m.codeByte k := by
    have ha : (m.regs.pc + UInt16.ofNat k).toNat = (m.regs.pc.toNat + k) % 65536 := by
      rw [UInt16.toNat_add, UInt16.toNat_ofNat_of_lt' hk']
    rw [Machine.codeByte, Machine.codeByte, hpc, ← n.bus.toNat_read ha, ← m.bus.toNat_read ha,
      hread _ (Opcode.mem_bytesAt hk _)]
  rw [length] at hbyte
  revert hmode hbyte
  cases op.mode with
  | accumulator => exact fun _ _ => rfl
  | zeroPage =>
    intro _ hbyte
    simp only [Mode.effective, hbyte (show 1 < 2 by decide) (by decide)]
  | zeroPageX =>
    intro _ hbyte
    simp only [Mode.effective, hx, hbyte (show 1 < 2 by decide) (by decide)]
  | absolute =>
    intro _ hbyte
    simp only [Mode.effective, Machine.codeWord, hbyte (show 1 < 3 by decide) (by decide),
      hbyte (show 2 < 3 by decide) (by decide)]
  | absoluteX =>
    intro _ hbyte
    simp only [Mode.effective, hx, Machine.codeWord, hbyte (show 1 < 3 by decide) (by decide),
      hbyte (show 2 < 3 by decide) (by decide)]
  | _ => exact fun hmode => absurd hmode (by decide)

/-- The instruction at PC is this shift, and stands outside the slots of these
addresses. -/
def Machine.HoldsOne (places : List Address) (label : Shift × Address) (op : Opcode)
    (m : Machine) : Prop :=
  op.mnemonic = label.1.mnemonic ∧ op.mode.effective m = some label.2.toNat ∧
    ∀ a ∈ op.bytesAt m.regs.pc, ∀ b ∈ places, (m.bus.locate b).slot ≠ (m.bus.locate a).slot

/-- From PC on stand these shifts, outside the slots of these addresses. -/
def Machine.Holds (places : List Address) : List (Shift × Address) → Machine → Prop
  | [], _ => True
  | label :: labels, m => ∃ op ∈ Opcode.decode? (m.bus.read m.regs.pc),
      m.HoldsOne places label op ∧ Holds places labels (op.past m)

instance (places : List Address) (label : Shift × Address) (op : Opcode) (m : Machine) :
    Decidable (m.HoldsOne places label op) :=
  have (a : Address) : Decidable (∀ b ∈ places, (m.bus.locate b).slot ≠ (m.bus.locate a).slot) :=
    List.decidableBAll _ _
  have : Decidable (∀ a ∈ op.bytesAt m.regs.pc, ∀ b ∈ places,
      (m.bus.locate b).slot ≠ (m.bus.locate a).slot) :=
    List.decidableBAll _ _
  inferInstanceAs (Decidable (_ ∧ _))

instance Machine.decidableHolds (places : List Address) :
    (labels : List (Shift × Address)) → (m : Machine) → Decidable (m.Holds places labels)
  | [], _ => inferInstanceAs (Decidable True)
  | label :: labels, m =>
    have (op : Opcode) : Decidable ((op.past m).Holds places labels) :=
      decidableHolds places labels (op.past m)
    inferInstanceAs (Decidable (∃ op ∈ Opcode.decode? (m.bus.read m.regs.pc),
      m.HoldsOne places label op ∧ (op.past m).Holds places labels))

/-- At PC stands this shift of A. -/
def Machine.HoldsOfA (shift : Shift) (m : Machine) : Prop :=
  ∃ op, Opcode.decode? (m.bus.read m.regs.pc) = some op ∧ op.mnemonic = shift.mnemonic ∧
    op.mode = .accumulator

/-- The machines agree on PC and X, and on the memory but for these addresses. -/
structure Machine.AgreesOff (places : List Address) (m n : Machine) : Prop where
  pc : n.regs.pc = m.regs.pc
  x : n.regs.x = m.regs.x
  bus : m.bus.ChangesAt (places.map (·.toNat)) n.bus
  atRest : m.bus.AtRest
  atRest' : n.bus.AtRest

namespace Machine

variable {places : List Address} {label : Shift × Address} {labels : List (Shift × Address)}
  {op : Opcode} {m n : Machine}

theorem AgreesOff.read_eq (h : m.AgreesOff places n) {a : Address}
    (ha : ∀ b ∈ places, (m.bus.locate b).slot ≠ (m.bus.locate a).slot) :
    n.bus.read a = m.bus.read a := by
  refine h.bus.read_eq h.atRest h.atRest' fun p hp => ?_
  obtain ⟨b, hb, rfl⟩ := List.mem_map.mp hp
  rw [UInt16.ofNat_toNat]
  exact ha b hb

theorem AgreesOff.trans {o : Machine} (h : m.AgreesOff places n) (h' : n.AgreesOff places o) :
    m.AgreesOff places o :=
  ⟨h'.pc.trans h.pc, h'.x.trans h.x, h.bus.trans h'.bus, h.atRest, h'.atRest'⟩

theorem AgreesOff.past (h : m.AgreesOff places n) (op : Opcode) :
    (op.past m).AgreesOff places (op.past n) :=
  ⟨congrArg (· + op.length.toUInt16) h.pc, h.x, h.bus, h.atRest, h.atRest'⟩

theorem HoldsOne.agrees (hop : Opcode.decode? (m.bus.read m.regs.pc) = some op)
    (h : m.HoldsOne places label op) (hagree : m.AgreesOff places n) :
    Opcode.decode? (n.bus.read n.regs.pc) = some op ∧ n.HoldsOne places label op := by
  obtain ⟨hm, hea, hapart⟩ := h
  have hmode := (Shift.opcodes hop hm).2
  have hread : ∀ a ∈ op.bytesAt m.regs.pc, n.bus.read a = m.bus.read a :=
    fun a ha => hagree.read_eq (hapart a ha)
  have hfirst : m.regs.pc ∈ op.bytesAt m.regs.pc := by
    have hlength : 0 < op.length.toNat := by
      rw [Opcode.length]
      cases op.mode <;> decide
    have hmem := Opcode.mem_bytesAt hlength m.regs.pc
    simpa using hmem
  refine ⟨?_, hm, ?_, ?_⟩
  · rw [hagree.pc, hread _ hfirst, hop]
  · rw [Opcode.effective_congr hmode hagree.pc hagree.x hread, hea]
  · simpa only [hagree.pc, hagree.bus.locate_eq] using hapart

end Machine

namespace Computer

variable {places : List Address} {labels : List (Shift × Address)} {c : Computer}

/-- **A shift that stands at PC is executed**, and what comes after it is still
there. -/
theorem Ready.shifts (hr : c.Ready) {shift : Shift} {a : Address} {op : Opcode}
    (hop : Opcode.decode? (c.found.bus.read c.found.regs.pc) = some op)
    (hhere : c.found.HoldsOne places (shift, a) op) (hmem : a ∈ places)
    (hwritable : ∀ b ∈ places, (c.bus.locate b).readOnly = false) :
    ∃ d, Shifts (shift, a) c d ∧ d.Ready ∧ (op.past c.found).AgreesOff places d.found := by
  obtain ⟨hm, hea, -⟩ := hhere
  obtain ⟨a', ha', hoperand⟩ := Mode.resolve_effective c.found op.mode hea
  cases UInt16.toNat_inj.mp ha'
  have haccepted : ∀ w ∈ op.writes c.found, (c.bus.locate w.address).readOnly = false := by
    rw [Shifts.writes hm hoperand]
    simpa using hwritable a hmem
  obtain ⟨d, hd⟩ := hr.performs hop (Shift.opcodes hop hm).1 haccepted
  have hshifts : Shifts (shift, a) c d := ⟨op, hd, hm, hea⟩
  have hflags : Status.isSet op.affectedFlags Flag.irqDisable = false := by
    rw [Opcode.affectedFlags, Opcode.autoFlags, Opcode.manualFlags, hm]
    exact shift.spares_irqDisable
  obtain ⟨n, cycles, he, hregs⟩ := hd.execute
  refine ⟨d, hshifts, hd.ready hflags, ?_, hshifts.regs.1.x, ?_, hr.atRest, hd.atRest_after⟩
  · rw [hd.found, hregs, Opcode.execute_shift he hm hoperand]
    rfl
  · refine hshifts.changesAt.mono fun p hp => ?_
    rw [List.mem_singleton.mp hp]
    exact List.mem_map_of_mem hmem

/-- **Shifts that stand in memory are executed one after the other.** They stand
in a machine that no step has changed; the computer has come as far in it. -/
theorem Ready.follows {m : Machine} (hholds : m.Holds places labels) (hr : c.Ready)
    (hagree : m.AgreesOff places c.found) (hmem : ∀ label ∈ labels, label.2 ∈ places)
    (hwritable : ∀ b ∈ places, (c.bus.locate b).readOnly = false) :
    ∃ d, Trail Shifts labels c d := by
  induction labels generalizing m c with
  | nil => exact ⟨c, .nil c⟩
  | cons label labels ih =>
    obtain ⟨hfirst, hothers⟩ := List.forall_mem_cons.mp hmem
    obtain ⟨op, hop, here, rest⟩ := hholds
    obtain ⟨hop', here'⟩ := here.agrees hop hagree
    obtain ⟨e, hshifts, hready, hagree'⟩ := hr.shifts hop' here' hfirst hwritable
    -- past this instruction the computer still agrees with the unchanged machine
    obtain ⟨d, hd⟩ := ih rest hready ((hagree.past op).trans hagree') hothers fun b hb => by
      rw [hshifts.changesAt.locate_eq]
      exact hwritable b hb
    exact ⟨d, .cons hshifts hd⟩

/-- What shifts of these bytes make of the computer: the number that the bytes
are then, the carry, and the rest, which is left alone. -/
structure Leaves (c : Computer) (places : List Address) (value : Nat) (carry : Bool)
    (d : Computer) : Prop extends c.found.regs.SparesShift d.cpu.regs where
  number : d.bus.number places = value
  carry : d.cpu.regs.isSet Flag.carry = carry
  memory : c.bus.ChangesAt (places.map (·.toNat)) d.bus

theorem Ready.run_shifts (hr : c.Ready) (hholds : c.found.Holds places labels)
    (hne : labels ≠ []) (hmem : ∀ label ∈ labels, label.2 ∈ places)
    (hwritable : ∀ b ∈ places, (c.bus.locate b).readOnly = false) :
    ∃ d, Trail Shifts labels c d ∧ c.run labels.length = (.ok labels.length, d) ∧
      c.Leaves places (d.bus.number places) (d.found.regs.isSet Flag.carry) d := by
  obtain ⟨d, hd⟩ := hr.follows hholds
    ⟨rfl, rfl, .refl _ _, hr.atRest, hr.atRest⟩ hmem hwritable
  have hfound : d.found.regs = d.cpu.regs := by rw [found, hd.started Shifts.step hne]
  refine ⟨d, hd, hd.run Shifts.step, hfound ▸ hd.spares, rfl, by rw [hfound], ?_⟩
  refine hd.changesAt.mono fun p hp => ?_
  obtain ⟨label, hl, rfl⟩ := List.mem_map.mp hp
  exact List.mem_map_of_mem (hmem label hl)

theorem Ready.run_accumulator (hr : c.Ready) {shift : Shift} (hholds : c.found.HoldsOfA shift) :
    ∃ d, c.run 1 = (.ok 1, d) ∧
      { c.found.regs with
        a := (shift.change (c.found.regs.isSet Flag.carry) c.found.regs.a).value }.SparesShift
          d.cpu.regs ∧
      d.cpu.regs.p = Status.afterComparison c.found.regs.p
        (shift.change (c.found.regs.isSet Flag.carry) c.found.regs.a).value
        (shift.bitOut c.found.regs.a) ∧ c.bus.ChangesAt [] d.bus := by
  obtain ⟨op, hop, hm, hmode⟩ := hholds
  have hwrites : op.writes c.found = [] := by
    have hpush : op.mnemonic.isPush = false := by
      rw [hm]
      cases shift <;> rfl
    rw [op.writes_of_not_isPush hpush, Opcode.stores, hmode]
    rfl
  obtain ⟨d, hd⟩ := hr.performs hop (Shift.opcodes hop hm).1 (hwrites ▸ List.forall_mem_nil _)
  obtain ⟨n, cycles, he, hregs⟩ := hd.execute
  have hchanges := hd.changesAt
  rw [← op.writes_footprint, hwrites] at hchanges
  have htrail : Trail (fun op c d => c.Performs op d) [op] c d := .cons hd (.nil d)
  refine ⟨d, htrail.run Performs.step, ?_⟩
  rw [hregs, Opcode.execute_shift_accumulator he hm hmode]
  exact ⟨.of_afterComparison rfl rfl rfl rfl rfl, rfl, hchanges⟩

theorem Shifts.flags_eq {shift : Shift} {a : Address} {d : Computer} (h : Shifts (shift, a) c d)
    {p : UInt8} {r : Registers}
    (hp : r.p = Status.afterComparison p
      (shift.change (c.found.regs.isSet Flag.carry) (c.bus.read a)).value
      (shift.bitOut (c.bus.read a))) :
    ∀ bit ∈ [Flag.negative, Flag.zero, Flag.carry], r.isSet bit = d.found.regs.isSet bit := by
  have hmemory := Status.isSet_afterComparison c.found.regs.p
    (shift.change (c.found.regs.isSet Flag.carry) (c.bus.read a)).value
    (shift.bitOut (c.bus.read a))
  have hregister := Status.isSet_afterComparison p
    (shift.change (c.found.regs.isSet Flag.carry) (c.bus.read a)).value
    (shift.bitOut (c.bus.read a))
  rw [← hp] at hregister
  rw [← h.regs.2] at hmemory
  simp only [List.forall_mem_cons, Registers.isSet, hmemory, hregister]
  simp

end Computer

/-! ### Numbers of any length -/

section
variable {n X R : Nat} {carryIn carryOut : Bool}

theorem restored (h : 2 * R + carryOut.toNat = 2 * X + carryIn.toNat) :
    R = X ∧ carryOut = carryIn := by
  cases carryOut <;> cases carryIn <;> simp at h ⊢ <;> omega

variable (hn : 0 < n)
include hn

theorem doubled (hX : X < 256 ^ n) (hR : R < 256 ^ n)
    (h : R + 256 ^ n * carryOut.toNat = 2 * X + carryIn.toNat) :
    R = (2 * X + carryIn.toNat) % 256 ^ n ∧ carryOut = X.testBit (8 * n - 1) := by
  rw [← h, Nat.add_mul_mod_self_left, Nat.mod_eq_of_lt hR]
  have htop := testBit_top hn hX
  have heven := pow_eq_two_mul hn
  have hin := carryIn.toNat_le
  refine ⟨rfl, Bool.eq_iff_iff.mpr (Iff.trans ?_ htop.symm)⟩
  cases carryOut <;> simp at h ⊢ <;> omega

theorem halved (h : 2 * R + carryOut.toNat = X + 256 ^ n * carryIn.toNat) :
    R = carryIn.toNat * 2 ^ (8 * n - 1) + X / 2 ∧ carryOut = X.testBit 0 := by
  rw [pow_eq_two_mul hn] at h
  rw [Nat.testBit_zero]
  refine ⟨?_, Bool.eq_iff_iff.mpr ?_⟩ <;> cases carryOut <;> cases carryIn <;> simp at h ⊢ <;> omega

end

namespace Computer

section
variable {c : Computer} (hr : c.Ready) {places : List Address} (hne : places ≠ [])
  (hapart : c.bus.Apart places)
include hr hne hapart

/-- **A chain up doubles.** -/
theorem Ready.doubles {first : Shift} (hup : first.isUp = true)
    (hholds : c.found.Holds places (chainOf first .rol places)) :
    ∃ d, c.run places.length = (.ok places.length, d) ∧
      c.Leaves places
        ((2 * c.bus.number places + (first.bitIn (c.found.regs.isSet Flag.carry)).toNat) %
          256 ^ places.length)
        ((c.bus.number places).testBit (8 * places.length - 1)) d := by
  obtain ⟨d, htrail, hrun, hleaves⟩ :=
    hr.run_shifts hholds (chainOf_ne_nil hne) mem_of_mem_chainOf hapart.writable
  have hnumber := htrail.number_up hup hne hapart.apart
  obtain ⟨hvalue, hcarry⟩ := doubled (List.length_pos_iff.mpr hne) (c.bus.number_lt places)
    (d.bus.number_lt places) hnumber
  rw [length_chainOf] at hrun
  rw [hvalue, hcarry] at hleaves
  exact ⟨d, hrun, hleaves⟩

/-- **A chain down halves.** -/
theorem Ready.halves {first : Shift} (hdown : first.isUp = false)
    (hholds : c.found.Holds places (chainOf first .ror places.reverse)) :
    ∃ d, c.run places.length = (.ok places.length, d) ∧
      c.Leaves places
        ((first.bitIn (c.found.regs.isSet Flag.carry)).toNat * 2 ^ (8 * places.length - 1) +
          c.bus.number places / 2)
        ((c.bus.number places).testBit 0) d := by
  have hne' : places.reverse ≠ [] := by simpa using hne
  obtain ⟨d, htrail, hrun, hleaves⟩ := hr.run_shifts hholds (chainOf_ne_nil hne')
    (fun label hl => List.mem_reverse.mp (mem_of_mem_chainOf label hl)) hapart.writable
  have hnumber := htrail.number_down hdown hne' hapart.reverse.apart
  rw [List.reverse_reverse, List.length_reverse] at hnumber
  obtain ⟨hvalue, hcarry⟩ := halved (List.length_pos_iff.mpr hne) hnumber
  rw [length_chainOf, List.length_reverse] at hrun
  rw [hvalue, hcarry] at hleaves
  exact ⟨d, hrun, hleaves⟩

/-- **Rotating up and then down** restores number and carry: the two equations
cancel. -/
theorem Ready.restores
    (hholds : c.found.Holds places (chainOf .rol .rol places ++ chainOf .ror .ror places.reverse)) :
    ∃ d, c.run (2 * places.length) = (.ok (2 * places.length), d) ∧
      c.Leaves places (c.bus.number places) (c.found.regs.isSet Flag.carry) d := by
  have hne' : places.reverse ≠ [] := by simpa using hne
  have hmem : ∀ label ∈ chainOf .rol .rol places ++ chainOf .ror .ror places.reverse,
      label.2 ∈ places := by
    intro label hl
    rcases List.mem_append.mp hl with hl | hl
    · exact mem_of_mem_chainOf label hl
    · exact List.mem_reverse.mp (mem_of_mem_chainOf label hl)
  obtain ⟨d, htrail, hrun, hleaves⟩ :=
    hr.run_shifts hholds (by simp [chainOf_ne_nil hne]) hmem hapart.writable
  obtain ⟨e, hup, hdown⟩ := htrail.split
  have hdoubled := hup.number_up rfl hne hapart.apart
  have hhalved := hdown.number_down rfl hne'
    (by simpa only [hup.changesAt.locate_eq] using hapart.reverse.apart)
  rw [List.reverse_reverse, List.length_reverse] at hhalved
  obtain ⟨hvalue, hcarry⟩ := restored (hhalved.trans hdoubled)
  rw [List.length_append, length_chainOf, length_chainOf, List.length_reverse, ← Nat.two_mul] at hrun
  rw [hvalue, hcarry] at hleaves
  exact ⟨d, hrun, hleaves⟩

end

/-- **Numbers of any length are shifted and rotated.** Let the bytes of a number
be held at addresses that may be written and lead to slots apart, and let the
shifts of these bytes stand from PC on, outside those slots. From the lowest
byte to the highest, ASL or ROL and then ROLs double the number; from the
highest to the lowest, LSR or ROR and then RORs halve it. The bit that enters is
the carry, or zero if the first of them is ASL or LSR, and the bit that leaves
is the carry then. To rotate up and then down again restores everything. A, X,
Y, SP, the other flags and the other memory stay as they were. A shift of A does
with the byte in A what it does with one in memory. -/
theorem long_shifts {c : Computer} (hr : c.Ready) {places : List Address} (hne : places ≠ [])
    (hapart : c.bus.Apart places) {n X : Nat} (hn : places.length = n)
    (hX : c.bus.number places = X) :
    (∀ first : Shift, first.isUp = true → c.found.Holds places (chainOf first .rol places) →
      ∃ d, c.run n = (.ok n, d) ∧
        c.Leaves places
          ((2 * X + (first.bitIn (c.found.regs.isSet Flag.carry)).toNat) % 256 ^ n)
          (X.testBit (8 * n - 1)) d) ∧
    (∀ first : Shift, first.isUp = false →
      c.found.Holds places (chainOf first .ror places.reverse) →
      ∃ d, c.run n = (.ok n, d) ∧
        c.Leaves places
          ((first.bitIn (c.found.regs.isSet Flag.carry)).toNat * 2 ^ (8 * n - 1) + X / 2)
          (X.testBit 0) d) ∧
    (c.found.Holds places (chainOf .rol .rol places ++ chainOf .ror .ror places.reverse) →
      ∃ d, c.run (2 * n) = (.ok (2 * n), d) ∧
        c.Leaves places X (c.found.regs.isSet Flag.carry) d) ∧
    ∀ (shift : Shift) (a : Address), places = [a] → c.found.Holds places [(shift, a)] →
      ∀ e : Computer, e.Ready → e.found.HoldsOfA shift → e.found.regs.a = c.bus.read a →
        e.found.regs.isSet Flag.carry = c.found.regs.isSet Flag.carry →
        ∃ d f, c.run 1 = (.ok 1, d) ∧ e.run 1 = (.ok 1, f) ∧
          { e.found.regs with a := d.bus.read a }.SparesShift f.cpu.regs ∧
          (∀ bit ∈ [Flag.negative, Flag.zero, Flag.carry],
            f.cpu.regs.isSet bit = d.cpu.regs.isSet bit) ∧
          e.bus.ChangesAt [] f.bus := by
  subst hn hX
  refine ⟨fun first hup hholds => hr.doubles hne hapart hup hholds,
    fun first hdown hholds => hr.halves hne hapart hdown hholds,
    fun hholds => hr.restores hne hapart hholds, ?_⟩
  rintro shift a rfl hholds e hre hholdsA ha hcarry
  obtain ⟨d, htrail, hrun, hleaves⟩ := hr.run_shifts hholds (by simp) (by simp) hapart.writable
  obtain ⟨f, hrunA, hspares, hp, hchanges⟩ := hre.run_accumulator hholdsA
  cases htrail with
  | cons hshifts hrest =>
    cases hrest
    rw [ha, hcarry] at hspares hp
    rw [← hshifts.byte] at hspares
    have hflags := hshifts.flags_eq hp
    rw [hshifts.found] at hflags
    exact ⟨d, f, hrun, hrunA, hspares, hflags, hchanges⟩

/-- The number `$8001` at `$0010` and a program at `$0200`, with the carry set and
`$01` in A. -/
def shiftingWord (program : List UInt8) : Computer where
  cpu := { Processor.powerOn {} with
    regs := { Registers.powerOn {} with a := 0x01, pc := 0x0200, p := 0x65 }
    phase := .fetching }
  bus := ((Bus.withMapping .flat).load 0x0010 [0x01, 0x80]).load 0x0200 program

/-- `ROL $10`, `ROL $11`, `ROR $11`, `ROR $0010`. -/
def rotatesWord : Computer :=
  shiftingWord [0x26, 0x10, 0x26, 0x11, 0x66, 0x11, 0x6E, 0x10, 0x00]

/-- `LSR $11`, `ROR $10`. -/
def halvesWord : Computer := shiftingWord [0x46, 0x11, 0x66, 0x10]

/-- `ROL A`. -/
def rotatesA : Computer := shiftingWord [0x2A]

theorem long_shifts_word :
    (∃ d, rotatesWord.run 2 = (.ok 2, d) ∧ d.bus.number [0x10, 0x11] = 0x0003 ∧
      d.cpu.regs.isSet Flag.carry = true) ∧
    (∃ d, halvesWord.run 2 = (.ok 2, d) ∧ d.bus.number [0x10, 0x11] = 0x4000 ∧
      d.cpu.regs.isSet Flag.carry = true) ∧
    (∃ d, rotatesWord.run 4 = (.ok 4, d) ∧ d.bus.number [0x10, 0x11] = 0x8001 ∧
      d.cpu.regs.isSet Flag.carry = true) ∧
    ∃ d f, rotatesWord.run 1 = (.ok 1, d) ∧ rotatesA.run 1 = (.ok 1, f) ∧
      f.cpu.regs.a = d.bus.read 0x10 := by
  have hready : rotatesWord.Ready := ⟨rfl, ⟨rfl, rfl⟩, rfl⟩
  have hapart : rotatesWord.bus.Apart [0x10, 0x11] := Bus.apart_of_flat rfl (by decide)
  have hapart' : halvesWord.bus.Apart [0x10, 0x11] := Bus.apart_of_flat rfl (by decide)
  have hlow : rotatesWord.bus.Apart [0x10] := Bus.apart_of_flat rfl (by decide)
  have hword : rotatesWord.bus.number [0x10, 0x11] = 0x8001 := by decide +kernel
  have hword' : halvesWord.bus.number [0x10, 0x11] = 0x8001 := by decide +kernel
  obtain ⟨hup, -, hround, -⟩ := long_shifts hready (by decide) hapart rfl hword
  obtain ⟨-, hdown, -, -⟩ := long_shifts ⟨rfl, ⟨rfl, rfl⟩, rfl⟩ (by decide) hapart' rfl hword'
  obtain ⟨-, -, -, hbyte⟩ := long_shifts hready (by decide) hlow rfl rfl
  obtain ⟨d₁, hrun₁, hleaves₁⟩ := hup .rol rfl (by decide +kernel)
  obtain ⟨d₂, hrun₂, hleaves₂⟩ := hdown .lsr rfl (by decide +kernel)
  obtain ⟨d₃, hrun₃, hleaves₃⟩ := hround (by decide +kernel)
  obtain ⟨d₄, f, hrun₄, hrunA, hspares, -⟩ := hbyte .rol 0x10 rfl (by decide +kernel) rotatesA
    ⟨rfl, ⟨rfl, rfl⟩, rfl⟩ ⟨⟨.rol, .accumulator, 2, true⟩, by decide +kernel⟩ (by decide +kernel)
    rfl
  exact ⟨⟨d₁, hrun₁, hleaves₁.number, hleaves₁.carry⟩,
    ⟨d₂, hrun₂, hleaves₂.number, hleaves₂.carry⟩, ⟨d₃, hrun₃, hleaves₃.number, hleaves₃.carry⟩,
    d₄, f, hrun₄, hrunA, hspares.a⟩

end Computer
end Cpu6502
