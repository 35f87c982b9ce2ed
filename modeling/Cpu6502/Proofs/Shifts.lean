/-
# Chains of shifts

ASL and ROL move a byte one bit up, LSR and ROR one bit down; the bit that
leaves it is the carry, and ROL and ROR let the carry in at the other end. So
with the carry out the new byte is exactly twice the old one with the carry in,
or half of it (`Shift.up_exact`, `Shift.down_exact`). A chain of them over the
bytes of a number, from the lowest to the highest or back, hands the carry from
byte to byte and does the same to the whole number (`Computer.Trail.number_up`,
`Computer.Trail.number_down`). Both equations are by induction on the bytes that
are still to be shifted: they are in slots apart, so the shifts of the others
leave the first one alone.

Key definitions: `Shift`, `Registers.SparesShift`, `Computer.Shifts`,
`Bus.number`, `Bus.Apart`, `chainOf`.
Key theorems: `Shift.up_exact`, `Shift.down_exact`, `Computer.Shifts.byte`,
`Computer.Shifts.regs`, `Computer.Trail.number_up`, `Computer.Trail.number_down`.
-/
import Cpu6502.Proofs.LittleEndian
import Cpu6502.Proofs.Trail

namespace Cpu6502

/-! ### Shifts of a byte -/

/-- The instructions that shift a byte by one bit. -/
inductive Shift
  | asl
  | rol
  | lsr
  | ror
  deriving DecidableEq

namespace Shift

def mnemonic : Shift → Mnemonic
  | asl => .asl
  | rol => .rol
  | lsr => .lsr
  | ror => .ror

/-- The shift of a byte, given the carry. -/
def change : Shift → Change
  | asl => .shiftLeft
  | rol => .rotateLeft
  | lsr => .shiftRight
  | ror => .rotateRight

/-- The bit that leaves the byte. -/
def bitOut (v : UInt8) : Shift → Bool
  | asl | rol => v &&& 0x80 != 0
  | lsr | ror => v &&& 0x01 != 0

/-- The bit that enters the byte. -/
def bitIn (carry : Bool) : Shift → Bool
  | asl | lsr => false
  | rol | ror => carry

/-- From the low bits to the high ones. -/
def isUp : Shift → Bool
  | asl | rol => true
  | lsr | ror => false

theorem action_mnemonic (shift : Shift) :
    shift.mnemonic.action = .modify shift.change Effect.keep := by
  cases shift <;> rfl

theorem autoFlags_mnemonic (shift : Shift) :
    shift.mnemonic.autoFlags = Flag.negative ||| Flag.zero ||| Flag.carry := by
  cases shift <;> rfl

theorem spares_irqDisable (shift : Shift) :
    Status.isSet (shift.mnemonic.autoFlags ||| shift.mnemonic.manualFlags) Flag.irqDisable =
      false := by
  cases shift <;> decide

theorem change_carry (shift : Shift) (carry : Bool) (v : UInt8) :
    (shift.change carry v).carry = some (shift.bitOut v) := by
  cases shift <;> rfl

/-- A shift up doubles. -/
theorem up_exact {shift : Shift} (h : shift.isUp = true) (carry : Bool) (v : UInt8) :
    (shift.change carry v).value.toNat + 256 * (shift.bitOut v).toNat =
      2 * v.toNat + (shift.bitIn carry).toNat := by
  have hv := v.toNat_lt
  have hout : (v &&& 0x80 != 0).toNat = v.toNat / 128 :=
    forall_byte (P := fun v => (v &&& 0x80 != 0).toNat = v.toNat / 128) (by decide +kernel) v
  cases shift with
  | asl =>
    have hvalue := Change.computes_shiftLeft carry v
    simp only [change, bitOut, bitIn, hout, hvalue, Bool.toNat_false]
    omega
  | rol =>
    have hvalue := Change.computes_rotateLeft carry v
    simp only [change, bitOut, bitIn, hout, hvalue]
    omega
  | lsr | ror => cases h

/-- A shift down halves. -/
theorem down_exact {shift : Shift} (h : shift.isUp = false) (carry : Bool) (v : UInt8) :
    2 * (shift.change carry v).value.toNat + (shift.bitOut v).toNat =
      v.toNat + 256 * (shift.bitIn carry).toNat := by
  have hout := Mnemonic.toNat_shiftedOut v
  cases shift with
  | lsr =>
    have hvalue := Change.computes_shiftRight carry v
    simp only [change, bitOut, bitIn, hout, hvalue, Bool.toNat_false]
    omega
  | ror =>
    have hvalue := Change.computes_rotateRight carry v
    simp only [change, bitOut, bitIn, hout, hvalue]
    omega
  | asl | rol => cases h

end Shift

/-! ### One instruction -/

/-- What a shift leaves alone, unless it is of A. -/
structure Registers.SparesShift (r r' : Registers) : Prop extends r.Spares r' where
  a : r'.a = r.a
  overflow : r'.isSet Flag.overflow = r.isSet Flag.overflow

namespace Registers.SparesShift

variable {r r' r'' : Registers}

/-- Setting C, N and Z spares the other flags. -/
theorem of_afterComparison {v : UInt8} {carry : Bool}
    (hp : r'.p = Status.afterComparison r.p v carry) (ha : r'.a = r.a) (hx : r'.x = r.x)
    (hy : r'.y = r.y) (hsp : r'.sp = r.sp) : r.SparesShift r' := by
  have hspared := Status.isSet_afterComparison_spared r.p v carry
  have hset := Status.isSet_afterComparison r.p v carry
  rw [← hp] at hspared hset
  exact ⟨⟨hx, hy, hsp, hspared _ (by simp), hspared _ (by simp), hspared _ (by simp)⟩, ha,
    hset.2.1⟩

theorem refl (r : Registers) : r.SparesShift r := ⟨⟨rfl, rfl, rfl, rfl, rfl, rfl⟩, rfl, rfl⟩

theorem trans (h : r.SparesShift r') (h' : r'.SparesShift r'') : r.SparesShift r'' where
  x := h'.x.trans h.x
  y := h'.y.trans h.y
  sp := h'.sp.trans h.sp
  irqDisable := h'.irqDisable.trans h.irqDisable
  decimal := h'.decimal.trans h.decimal
  brk := h'.brk.trans h.brk
  a := h'.a.trans h.a
  overflow := h'.overflow.trans h.overflow

end Registers.SparesShift

namespace Opcode

variable {op : Opcode} {m n : Machine} {cycles : Cycles} {shift : Shift}

/-- A shift of a byte in memory. -/
theorem execute_shift (h : op.execute m = some (n, cycles)) (hm : op.mnemonic = shift.mnemonic)
    {a : Address} (ha : (op.mode.resolve m).operand = .address a) :
    n.regs = { (op.past m).regs with
      lastResult := (shift.change (m.regs.isSet Flag.carry) (m.bus.read a)).value
      p := Status.afterComparison m.regs.p
        (shift.change (m.regs.isSet Flag.carry) (m.bus.read a)).value
        (shift.bitOut (m.bus.read a)) } := by
  obtain ⟨o, ho, hregs, -, -⟩ := execute_outcome h
  rw [ha, hm, shift.action_mnemonic, Action.run, Action.replace_address] at ho
  cases ho
  rw [hm, shift.autoFlags_mnemonic, Effect.keep, shift.change_carry, Effect.settle_carry] at hregs
  exact (Option.some.inj hregs).symm

/-- A shift of the byte in A. -/
theorem execute_shift_accumulator (h : op.execute m = some (n, cycles))
    (hm : op.mnemonic = shift.mnemonic) (ha : op.mode = .accumulator) :
    n.regs = { (op.past m).regs with
      a := (shift.change (m.regs.isSet Flag.carry) m.regs.a).value
      lastResult := (shift.change (m.regs.isSet Flag.carry) m.regs.a).value
      p := Status.afterComparison m.regs.p
        (shift.change (m.regs.isSet Flag.carry) m.regs.a).value (shift.bitOut m.regs.a) } := by
  obtain ⟨o, ho, hregs, -, -⟩ := execute_outcome h
  have hoperand : (op.mode.resolve m).operand = .accumulator := by rw [ha]; rfl
  rw [hoperand, hm, shift.action_mnemonic, Action.run, Action.replace_accumulator] at ho
  cases ho
  rw [hm, shift.autoFlags_mnemonic, Effect.keep, shift.change_carry, Effect.settle_carry] at hregs
  exact (Option.some.inj hregs).symm

end Opcode

namespace Computer

/-- The step executes a shift of the byte at this address. -/
def Shifts (label : Shift × Address) (c d : Computer) : Prop :=
  ∃ op, c.Performs op d ∧ op.mnemonic = label.1.mnemonic ∧
    op.mode.effective c.found = some label.2.toNat

namespace Shifts

variable {shift : Shift} {a : Address} {c d : Computer}

theorem step {label : Shift × Address} (h : Shifts label c d) : c.step = (.ok true, d) := by
  obtain ⟨op, hop, -, -⟩ := h
  exact hop.step

theorem found (h : Shifts (shift, a) c d) : d.found = ⟨d.cpu.regs, d.bus⟩ := by
  obtain ⟨op, hop, -, -⟩ := h
  exact hop.found

theorem operand (h : Shifts (shift, a) c d) : ∃ op, c.Performs op d ∧
    op.mnemonic = shift.mnemonic ∧ (op.mode.resolve c.found).operand = .address a := by
  obtain ⟨op, hop, hm, hea⟩ := h
  obtain ⟨a', ha', hoperand⟩ := Mode.resolve_effective c.found op.mode hea
  cases UInt16.toNat_inj.mp ha'
  exact ⟨op, hop, hm, hoperand⟩

/-- The registers after the step, but for PC, the last result and the count. -/
theorem regs (h : Shifts (shift, a) c d) :
    c.found.regs.SparesShift d.found.regs ∧
      d.found.regs.p = Status.afterComparison c.found.regs.p
        (shift.change (c.found.regs.isSet Flag.carry) (c.bus.read a)).value
        (shift.bitOut (c.bus.read a)) := by
  obtain ⟨op, hop, hm, ha⟩ := h.operand
  obtain ⟨n, cycles, he, hregs⟩ := hop.execute
  rw [hop.found, hregs, Opcode.execute_shift he hm ha]
  exact ⟨.of_afterComparison rfl rfl rfl rfl rfl, rfl⟩

theorem carry (h : Shifts (shift, a) c d) :
    d.found.regs.isSet Flag.carry = shift.bitOut (c.bus.read a) := by
  rw [Registers.isSet, h.regs.2]
  exact (Status.isSet_afterComparison _ _ _).1

/-- The one write of the step. -/
theorem writes {op : Opcode} (hm : op.mnemonic = shift.mnemonic)
    (ha : (op.mode.resolve c.found).operand = .address a) : op.writes c.found =
      [⟨a, (shift.change (c.found.regs.isSet Flag.carry) (c.bus.read a)).value⟩] :=
  Opcode.writes_of_modify (hm ▸ shift.action_mnemonic) ha

theorem changesAt (h : Shifts (shift, a) c d) : c.bus.ChangesAt [a.toNat] d.bus := by
  obtain ⟨op, hop, hm, ha⟩ := h.operand
  have hchanges := hop.changesAt
  rwa [← op.writes_footprint, writes hm ha] at hchanges

/-- The byte is shifted. -/
theorem byte (h : Shifts (shift, a) c d) : d.bus.read a =
    (shift.change (c.found.regs.isSet Flag.carry) (c.bus.read a)).value := by
  obtain ⟨op, hop, hm, ha⟩ := h.operand
  have hread := hop.read (by simp [writes hm ha])
  rw [writes hm ha] at hread
  exact hread _ List.mem_cons_self

/-- Bytes in other slots are not. -/
theorem read_eq (h : Shifts (shift, a) c d) {b : Address}
    (hb : (c.bus.locate a).slot ≠ (c.bus.locate b).slot) : d.bus.read b = c.bus.read b := by
  obtain ⟨op, hop, -, -⟩ := h.operand
  refine h.changesAt.read_eq hop.atRest hop.atRest_after fun p hp => ?_
  rw [List.mem_singleton.mp hp, UInt16.ofNat_toNat]
  exact hb

end Shifts

/-! ### Chains -/

namespace Trail

variable {labels : List (Shift × Address)} {c d : Computer}

theorem changesAt (h : Trail Shifts labels c d) :
    c.bus.ChangesAt (labels.map (·.2.toNat)) d.bus := by
  induction h with
  | nil c => exact .refl _ _
  | @cons label labels c d e first rest ih =>
    have hfirst : c.bus.ChangesAt ((label :: labels).map (·.2.toNat)) d.bus :=
      first.changesAt.mono fun p hp => List.mem_singleton.mp hp ▸ List.mem_cons_self
    exact hfirst.trans (ih.mono fun p => List.mem_cons_of_mem _)

theorem spares (h : Trail Shifts labels c d) : c.found.regs.SparesShift d.found.regs := by
  induction h with
  | nil c => exact .refl _
  | cons first rest ih => exact first.regs.1.trans ih

/-- Bytes in other slots stay as they were. -/
theorem read_eq (h : Trail Shifts labels c d) {b : Address}
    (hb : ∀ label ∈ labels, (c.bus.locate label.2).slot ≠ (c.bus.locate b).slot) :
    d.bus.read b = c.bus.read b := by
  induction h with
  | nil c => rfl
  | @cons label labels c d e first rest ih =>
    obtain ⟨hfirst, hrest⟩ := List.forall_mem_cons.mp hb
    rw [ih fun label hl => by
      rw [first.changesAt.locate_eq, first.changesAt.locate_eq]
      exact hrest label hl]
    exact first.read_eq hfirst

end Trail
end Computer

/-- The number whose bytes are at these addresses, the low one first. -/
def Bus.number (bus : Bus) (places : List Address) : Nat := littleEndian (places.map bus.read)

theorem Bus.number_cons (bus : Bus) (a : Address) (places : List Address) :
    bus.number (a :: places) = (bus.read a).toNat + 256 * bus.number places := rfl

theorem Bus.number_concat (bus : Bus) (places : List Address) (a : Address) :
    bus.number (places ++ [a]) = bus.number places + 256 ^ places.length * (bus.read a).toNat := by
  rw [number, List.map_append, littleEndian_append, List.length_map]
  rfl

theorem Bus.number_congr {b d : Bus} {places : List Address}
    (h : ∀ a ∈ places, d.read a = b.read a) : d.number places = b.number places := by
  rw [number, List.map_congr_left h, number]

theorem Bus.number_lt (bus : Bus) (places : List Address) :
    bus.number places < 256 ^ places.length := by
  have hlt := littleEndian_lt (places.map bus.read)
  rwa [List.length_map] at hlt

/-- The addresses may be written, and lead to slots apart. -/
structure Bus.Apart (bus : Bus) (places : List Address) : Prop where
  writable : ∀ a ∈ places, (bus.locate a).readOnly = false
  apart : (places.map fun a => (bus.locate a).slot).Nodup

/-- Different addresses do where every address is its own writable slot. -/
theorem Bus.apart_of_flat {bus : Bus} (h : bus.mapping = .flat) {places : List Address}
    (hplaces : places.Nodup) : bus.Apart places := by
  constructor
  · intro a _
    rw [locate_of_flat h]
  · simpa only [locate_of_flat h, List.map_id'] using hplaces

theorem Bus.Apart.reverse {bus : Bus} {places : List Address} (h : bus.Apart places) :
    bus.Apart places.reverse where
  writable a ha := h.writable a (List.mem_reverse.mp ha)
  apart := by
    rw [List.map_reverse]
    exact (List.reverse_perm _).symm.nodup h.apart

/-- One shift for the first of the bytes, and another one for the others. -/
def chainOf (first next : Shift) : List Address → List (Shift × Address)
  | [] => []
  | a :: places => (first, a) :: places.map (next, ·)

theorem length_chainOf (first next : Shift) (places : List Address) :
    (chainOf first next places).length = places.length := by
  cases places <;> simp [chainOf]

theorem chainOf_ne_nil {first next : Shift} {places : List Address} (hne : places ≠ []) :
    chainOf first next places ≠ [] := by
  cases places with
  | nil => exact absurd rfl hne
  | cons a places => simp [chainOf]

theorem mem_of_mem_chainOf {first next : Shift} {places : List Address} :
    ∀ label ∈ chainOf first next places, label.2 ∈ places := by
  cases places with
  | nil => exact List.forall_mem_nil _
  | cons a places =>
    refine List.forall_mem_cons.mpr ⟨List.mem_cons_self, fun label hl => ?_⟩
    obtain ⟨b, hb, rfl⟩ := List.mem_map.mp hl
    exact List.mem_cons_of_mem a hb

namespace Computer.Trail

variable {shift first next : Shift} {a : Address} {places : List Address} {c d e : Computer}

/-- The other shifts of a chain leave its first byte alone. -/
theorem read_first (hrest : Trail Shifts (places.map (next, ·)) e d)
    (hslot : ∀ b ∈ places, (e.bus.locate a).slot ≠ (e.bus.locate b).slot) :
    d.bus.read a = e.bus.read a := by
  refine hrest.read_eq fun label hl => ?_
  obtain ⟨b, hb, rfl⟩ := List.mem_map.mp hl
  exact (hslot b hb).symm

/-- A shift up of the low byte, and then of the others. -/
theorem number_cons_up (hup : shift.isUp = true)
    (hslot : ∀ b ∈ places, (c.bus.locate a).slot ≠ (c.bus.locate b).slot)
    (hfirst : Shifts (shift, a) c e) (hrest : Trail Shifts (places.map (.rol, ·)) e d)
    (hothers : d.bus.number places + 256 ^ places.length *
      (d.found.regs.isSet Flag.carry).toNat =
        2 * e.bus.number places + (e.found.regs.isSet Flag.carry).toNat) :
    d.bus.number (a :: places) + 256 ^ (a :: places).length *
        (d.found.regs.isSet Flag.carry).toNat =
      2 * c.bus.number (a :: places) +
        (shift.bitIn (c.found.regs.isSet Flag.carry)).toNat := by
  have hbyte := Shift.up_exact hup (c.found.regs.isSet Flag.carry) (c.bus.read a)
  rw [← hfirst.byte, ← hfirst.carry] at hbyte
  have hkept : e.bus.number places = c.bus.number places :=
    Bus.number_congr fun b hb => hfirst.read_eq (hslot b hb)
  have hlow : d.bus.read a = e.bus.read a :=
    hrest.read_first fun b hb => by simpa only [hfirst.changesAt.locate_eq] using hslot b hb
  rw [Bus.number_cons, Bus.number_cons, hlow, List.length_cons, pow_succ]
  calc _ = (e.bus.read a).toNat + 256 * (d.bus.number places + 256 ^ places.length *
        (d.found.regs.isSet Flag.carry).toNat) := by ring
    _ = (e.bus.read a).toNat + 256 * (e.found.regs.isSet Flag.carry).toNat +
        512 * c.bus.number places := by rw [hothers, hkept]; ring
    _ = _ := by rw [hbyte]; ring

/-- A shift down of the high byte, and then of the others. -/
theorem number_cons_down (hdown : shift.isUp = false)
    (hslot : ∀ b ∈ places, (c.bus.locate a).slot ≠ (c.bus.locate b).slot)
    (hfirst : Shifts (shift, a) c e) (hrest : Trail Shifts (places.map (.ror, ·)) e d)
    (hothers : 2 * d.bus.number places.reverse + (d.found.regs.isSet Flag.carry).toNat =
      e.bus.number places.reverse + 256 ^ places.length *
        (e.found.regs.isSet Flag.carry).toNat) :
    2 * d.bus.number (a :: places).reverse + (d.found.regs.isSet Flag.carry).toNat =
      c.bus.number (a :: places).reverse + 256 ^ (a :: places).length *
        (shift.bitIn (c.found.regs.isSet Flag.carry)).toNat := by
  have hbyte := Shift.down_exact hdown (c.found.regs.isSet Flag.carry) (c.bus.read a)
  rw [← hfirst.byte, ← hfirst.carry] at hbyte
  have hkept : e.bus.number places.reverse = c.bus.number places.reverse :=
    Bus.number_congr fun b hb => hfirst.read_eq (hslot b (List.mem_reverse.mp hb))
  have hhigh : d.bus.read a = e.bus.read a :=
    hrest.read_first fun b hb => by simpa only [hfirst.changesAt.locate_eq] using hslot b hb
  rw [List.reverse_cons, Bus.number_concat, Bus.number_concat, List.length_reverse, hhigh,
    List.length_cons, pow_succ]
  calc _ = 2 * d.bus.number places.reverse + (d.found.regs.isSet Flag.carry).toNat +
        256 ^ places.length * (2 * (e.bus.read a).toNat) := by ring
    _ = c.bus.number places.reverse + 256 ^ places.length * (2 * (e.bus.read a).toNat +
        (e.found.regs.isSet Flag.carry).toNat) := by rw [hothers, hkept]; ring
    _ = _ := by rw [hbyte]; ring

/-- A chain begins with its first shift, of a byte in a slot apart. -/
theorem cons_inv (hapart : ((a :: places).map fun b => (c.bus.locate b).slot).Nodup)
    (h : Trail Shifts (chainOf first next (a :: places)) c d) :
    ∃ e, Shifts (first, a) c e ∧ Trail Shifts (places.map (next, ·)) e d ∧
      (places.map fun b => (e.bus.locate b).slot).Nodup ∧
      ∀ b ∈ places, (c.bus.locate a).slot ≠ (c.bus.locate b).slot := by
  obtain ⟨hslot, hslots⟩ := List.nodup_cons.mp hapart
  cases h with
  | @cons _ _ _ e _ hfirst hrest =>
    refine ⟨e, hfirst, hrest, ?_, fun b hb heq => ?_⟩
    · simpa only [hfirst.changesAt.locate_eq] using hslots
    · exact hslot (List.mem_map.mpr ⟨b, hb, heq.symm⟩)

/-- **A chain from the lowest byte to the highest** doubles the number. -/
theorem number_up (hup : first.isUp = true) (hne : places ≠ [])
    (hapart : (places.map fun b => (c.bus.locate b).slot).Nodup)
    (h : Trail Shifts (chainOf first .rol places) c d) :
    d.bus.number places + 256 ^ places.length * (d.found.regs.isSet Flag.carry).toNat =
      2 * c.bus.number places + (first.bitIn (c.found.regs.isSet Flag.carry)).toNat := by
  induction places generalizing first c with
  | nil => exact absurd rfl hne
  | cons a places ih =>
    obtain ⟨e, hfirst, hrest, hslots, hslot⟩ := cons_inv hapart h
    refine number_cons_up hup hslot hfirst hrest ?_
    -- the other bytes are none, or a chain that begins with ROL
    cases places with
    | nil =>
      cases hrest
      simp [Bus.number]
    | cons b places => exact ih rfl (by simp) hslots hrest

/-- **A chain from the highest byte to the lowest** halves the number. -/
theorem number_down (hdown : first.isUp = false) (hne : places ≠ [])
    (hapart : (places.map fun b => (c.bus.locate b).slot).Nodup)
    (h : Trail Shifts (chainOf first .ror places) c d) :
    2 * d.bus.number places.reverse + (d.found.regs.isSet Flag.carry).toNat =
      c.bus.number places.reverse + 256 ^ places.length *
        (first.bitIn (c.found.regs.isSet Flag.carry)).toNat := by
  induction places generalizing first c with
  | nil => exact absurd rfl hne
  | cons a places ih =>
    obtain ⟨e, hfirst, hrest, hslots, hslot⟩ := cons_inv hapart h
    refine number_cons_down hdown hslot hfirst hrest ?_
    -- the other bytes are none, or a chain that begins with ROR
    cases places with
    | nil =>
      cases hrest
      simp [Bus.number]
    | cons b places => exact ih rfl (by simp) hslots hrest

end Computer.Trail

end Cpu6502
