/-
# Protected slots

A mapping protects addresses, but bytes are kept in slots, and several
addresses may share one. A slot is out of reach when no address leads there as
to a writable one (`Mapping.Writable`). Accepted writes lead to writable slots,
whether they are stored at once or staged first, so every other slot keeps its
byte (`Bus.Guards`), in every session in which the host leaves the bus to
programs (`Computer.session_protected`).

The program ROM of a cartridge lies out of reach: writable addresses, the
repeated ones included, all lead below it (`Nrom.lt_of_writable`). What
installing leaves in each slot is known (`Cartridge.get_install_eq`), so it is
known what is seen from there on (`Cartridge.read_guards`).

Key definitions: `Mapping.Writable`, `Bus.Guards`, `Cartridge.byteFor`.
Key theorems: `Bus.twins_guards`, `Cartridge.get_install_eq`,
`Cartridge.read_guards`, `Computer.session_protected`.
-/
import Cpu6502.Proofs.Banks

namespace Cpu6502

/-- Some address leads to this slot, and programs may write it there. -/
def Mapping.Writable (mapping : Mapping) (slot : UInt16) : Prop :=
  ∃ a, mapping.map a = .writable slot

theorem Nrom.lt_of_writable {n : Nrom} {slot : UInt16} (h : n.toMapping.Writable slot) :
    slot < prgBase := by
  obtain ⟨a, ha⟩ := h
  have hlocate : n.locate a = .writable slot := ha
  by_cases hlow : a < prgBase
  · obtain ⟨low, hlt, hmap⟩ := locate_low hlow
    have hslot : low = slot := congrArg Location.slot ((hmap n).symm.trans hlocate)
    exact hslot ▸ hlt
  · rw [locate_high hlow] at hlocate
    cases congrArg Location.readOnly hlocate

namespace Bus

/-! ### Buses that keep the slots out of reach -/

/-- Under this mapping the slots out of reach hold what they hold in this
memory, and nothing staged is about to change them. -/
structure Guards (mapping : Mapping) (memory : Memory) (bus : Bus) : Prop where
  mapped : bus.mapping = mapping
  kept : ∀ slot, ¬ mapping.Writable slot → bus.memory.get slot = memory.get slot
  staging : ∀ w ∈ bus.journal, mapping.Writable w.1

theorem guards_self {bus : Bus} (h : bus.AtRest) : bus.Guards bus.mapping bus.memory where
  mapped := rfl
  kept _ _ := rfl
  staging := h.unstaged ▸ List.forall_mem_nil _

namespace Guards

variable {mapping : Mapping} {memory : Memory} {bus : Bus}

theorem not_staged (h : bus.Guards mapping memory) {slot : UInt16}
    (hs : ¬ mapping.Writable slot) : ∀ w ∈ bus.journal, w.1 ≠ slot :=
  fun w hw heq => hs (heq ▸ h.staging w hw)

theorem visible (h : bus.Guards mapping memory) {slot : UInt16} (hs : ¬ mapping.Writable slot) :
    bus.visible slot = memory.get slot := by
  rw [visible_of_not_staged (h.not_staged hs), h.kept slot hs]

theorem put (h : bus.Guards mapping memory) {slot : UInt16} (hs : mapping.Writable slot)
    (v : UInt8) : (bus.put slot v).Guards mapping memory := by
  cases hb : bus.inTransaction with
  | false =>
    rw [put_stored _ _ hb]
    refine { h with kept := fun q hq => ?_ }
    have hne : q ≠ slot := fun heq => hq (heq ▸ hs)
    rw [Memory.get_set_ne _ _ hne, h.kept q hq]
  | true =>
    rw [put_staged _ _ hb]
    exact { h with staging := List.forall_mem_cons.mpr ⟨hs, h.staging⟩ }

theorem write (h : bus.Guards mapping memory) (a : Address) (v : UInt8) :
    (bus.write a v).Guards mapping memory := by
  unfold Bus.write
  split
  · exact { h with }
  · rename_i haccepted
    have hmap : mapping.map a = .writable (bus.locate a).slot := by
      rw [← h.mapped]
      exact congrArg (Location.mk _) (Bool.not_eq_true _ ▸ haccepted)
    exact h.put ⟨a, hmap⟩ v

theorem begin (h : bus.Guards mapping memory) : bus.begin.Guards mapping memory where
  mapped := h.mapped
  kept := h.kept
  staging := List.forall_mem_nil _

theorem commit (h : bus.Guards mapping memory) : bus.commit.Guards mapping memory where
  mapped := h.mapped
  kept slot hs := by rw [get_commit_of_not_staged (h.not_staged hs), h.kept slot hs]
  staging := List.forall_mem_nil _

theorem rollback (h : bus.Guards mapping memory) : bus.rollback.Guards mapping memory where
  mapped := h.mapped
  kept := h.kept
  staging := List.forall_mem_nil _

end Guards

theorem twins_guards (mapping : Mapping) (memory : Memory) :
    Bus.Twins fun b d => b = d ∧ b.Guards mapping memory :=
  twins_of_keeps (fun _ a v h => h.write a v) (fun _ h => h.begin) (fun _ h => h.commit)
    (fun _ h => h.rollback)

/-! ### Placing bytes at plain addresses -/

/-- Where every address is its own slot, bytes are placed in successive slots. -/
theorem load_eq_loadSlots {bus : Bus} {n : Nat} {bytes : List UInt8}
    (h : ∀ k < bytes.length, (bus.locate (UInt16.ofNat (n + k))).slot = UInt16.ofNat (n + k)) :
    bus.load (UInt16.ofNat n) bytes = bus.loadSlots (UInt16.ofNat n) bytes := by
  induction bytes generalizing bus n with
  | nil => rfl
  | cons b bs ih =>
    have hnext : UInt16.ofNat n + 1 = UInt16.ofNat (n + 1) := (UInt16.ofNat_add n 1).symm
    have hfirst : bus.poke (UInt16.ofNat n) b = bus.pokeSlot (UInt16.ofNat n) b := by
      have hslot : (bus.locate (UInt16.ofNat n)).slot = UInt16.ofNat n := h 0 (Nat.zero_lt_succ _)
      rw [poke, pokeSlot, hslot]
    have hrest (k : Nat) (hk : k < bs.length) :
        ((bus.poke (UInt16.ofNat n) b).locate (UInt16.ofNat (n + 1 + k))).slot =
          UInt16.ofNat (n + 1 + k) := by
      have hlocate := h (k + 1) (Nat.succ_lt_succ hk)
      rwa [show n + (k + 1) = n + 1 + k by omega] at hlocate
    rw [load, hnext, ih hrest, hfirst, loadSlots, hnext]

end Bus

/-! ### The program ROM of an installed cartridge -/

theorem Nrom.toNat_prg {k : Nat} (hk : k < 32768) :
    (UInt16.ofNat (32768 + k)).toNat = 32768 + k :=
  UInt16.toNat_ofNat_of_lt' (show 32768 + k < 65536 by omega)

theorem Nrom.not_prg_lt {k : Nat} (hk : k < 32768) : ¬ UInt16.ofNat (32768 + k) < prgBase := by
  rw [UInt16.lt_iff_toNat_lt, toNat_prg hk]
  exact Nat.not_lt.mpr (Nat.le_add_right 32768 k)

/-- The program ROM repeats from `$8000` on, until it fills the addresses. -/
theorem Nrom.locate_prg {size : Nat} (hsize : size = 16384 ∨ size = 32768) {i : Nat}
    (hi : i < 32768) :
    (ofSize size).locate (UInt16.ofNat (32768 + i)) = .rom (UInt16.ofNat (32768 + i % size)) := by
  rw [locate_high (not_prg_lt hi)]
  rcases hsize with rfl | rfl
  · have hslot : prgBase ||| (UInt16.ofNat (32768 + i) &&& 0x3FFF) =
        UInt16.ofNat (32768 + i % 16384) := by
      rw [← UInt16.toNat_inj, toNat_prgSlot, toNat_prg hi, toNat_prg (by omega)]
      omega
    exact congrArg Location.rom hslot
  · rw [Nat.mod_eq_of_lt hi]
    rfl

/-- Between the registers and the program ROM every address is its own slot. -/
theorem Nrom.locate_plain (n : Nrom) {a : Nat} (hlow : 16384 ≤ a) (hhigh : a < 32768) :
    n.locate (UInt16.ofNat a) = .writable (UInt16.ofNat a) := by
  have ha : (UInt16.ofNat a).toNat = a := UInt16.toNat_ofNat_of_lt' (show a < 65536 by omega)
  have hram : ¬ UInt16.ofNat a < 0x2000 := by
    rw [UInt16.lt_iff_toNat_lt, ha]
    exact Nat.not_lt.mpr (Nat.le_trans (by decide) hlow)
  have hregister : ¬ UInt16.ofNat a < 0x4000 := by
    rw [UInt16.lt_iff_toNat_lt, ha]
    exact Nat.not_lt.mpr hlow
  have hplain : UInt16.ofNat a < 0x8000 := by
    rw [UInt16.lt_iff_toNat_lt, ha]
    exact hhigh
  rw [locate, if_neg hram, if_neg hregister, if_pos hplain]

namespace Cartridge

/-- What installing puts into a slot, if anything. -/
def byteFor (c : Cartridge) (slot : UInt16) : Option UInt8 :=
  if 0x8000 ≤ slot.toNat then c.prg[slot.toNat - 0x8000]?
  else if 0x7000 ≤ slot.toNat then (c.trainer.getD [])[slot.toNat - 0x7000]?
  else none

theorem install_eq_loadSlots {c : Cartridge} (htrainer : (c.trainer.getD []).length ≤ 4096)
    (bus : Bus) : c.install bus =
      ((bus.setMapping (Nrom.ofSize c.prg.length).toMapping).loadSlots (UInt16.ofNat 0x8000)
        c.prg).loadSlots (UInt16.ofNat 0x7000) (c.trainer.getD []) := by
  obtain ⟨memory, hloaded⟩ := (bus.setMapping (Nrom.ofSize c.prg.length).toMapping).loadSlots_eq
    (UInt16.ofNat 0x8000) c.prg
  cases ht : c.trainer with
  | none =>
    rw [install, ht]
    rfl
  | some bytes =>
    rw [ht, Option.getD_some] at htrainer
    have hplain (k : Nat) (hk : k < bytes.length) :
        ((((bus.setMapping (Nrom.ofSize c.prg.length).toMapping).loadSlots (UInt16.ofNat 0x8000)
          c.prg)).locate (UInt16.ofNat (0x7000 + k))).slot = UInt16.ofNat (0x7000 + k) := by
      rw [hloaded]
      exact congrArg Location.slot (Nrom.locate_plain _ (by omega) (by omega))
    rw [install, ht]
    exact Bus.load_eq_loadSlots hplain

/-- **What installing leaves in memory**, slot by slot. -/
theorem get_install_eq {c : Cartridge} (hprg : c.prg.length ≤ 32768)
    (htrainer : (c.trainer.getD []).length ≤ 4096) (bus : Bus) (slot : UInt16) :
    (c.install bus).memory.get slot = (c.byteFor slot).getD (bus.memory.get slot) := by
  rw [install_eq_loadSlots htrainer, Bus.get_loadSlots_eq _ _ (by omega),
    Bus.get_loadSlots_eq _ _ (by omega), byteFor]
  by_cases hrom : 0x8000 ≤ slot.toNat
  -- The trainer is placed last, but ends below the program ROM.
  · have hbeyond : (c.trainer.getD []).length ≤ slot.toNat - 0x7000 := by omega
    rw [if_pos hrom, if_pos hrom, if_pos (by omega), List.getElem?_eq_none hbeyond]
    rfl
  · rw [if_neg hrom, if_neg hrom]
    by_cases hplain : 0x7000 ≤ slot.toNat
    · rw [if_pos hplain, if_pos hplain]
      rfl
    · rw [if_neg hplain, if_neg hplain]
      rfl

/-- The program ROM is in successive slots; a trainer does not reach it. -/
theorem get_install {c : Cartridge} (hsize : c.prg.length ≤ 32768)
    (htrainer : (c.trainer.getD []).length ≤ 4096) (bus : Bus) {k : Nat}
    (hk : k < c.prg.length) :
    (c.install bus).memory.get (UInt16.ofNat (32768 + k)) = c.prg[k] := by
  rw [get_install_eq hsize htrainer, byteFor, Nrom.toNat_prg (by omega),
    if_pos (Nat.le_add_right 32768 k), Nat.add_sub_cancel_left, List.getElem?_eq_getElem hk,
    Option.getD_some]

/-- The parts of every image find room, and the trainer stays below the program
ROM. -/
theorem room_of_ofBytes {image : List UInt8} {c : Cartridge} (h : ofBytes image = .ok c) :
    c.prg.length ≤ 32768 ∧ (c.trainer.getD []).length ≤ 4096 := by
  obtain ⟨hsize, htrainer⟩ := sizes_of_ofBytes h
  refine ⟨by omega, ?_⟩
  cases ht : c.trainer with
  | none => exact Nat.zero_le _
  | some bytes =>
    rw [Option.getD_some, htrainer bytes ht]
    decide

/-- A bus that guards what installing left in it shows the program ROM. -/
theorem read_guards {image : List UInt8} {c : Cartridge} (himage : ofBytes image = .ok c)
    {bus after : Bus} (h : after.Guards (c.install bus).mapping (c.install bus).memory) {i : Nat}
    (hi : i < 32768) :
    c.prg[i % c.prg.length]? = some (after.read (UInt16.ofNat (32768 + i))) := by
  obtain ⟨hsize, -⟩ := sizes_of_ofBytes himage
  obtain ⟨hprg, htrainer⟩ := room_of_ofBytes himage
  have hk : i % c.prg.length < c.prg.length := Nat.mod_lt _ (by omega)
  obtain ⟨memory, hinstalled⟩ := c.install_eq bus
  have hmap : (c.install bus).mapping = (Nrom.ofSize c.prg.length).toMapping := by rw [hinstalled]
  have hslot : (after.locate (UInt16.ofNat (32768 + i))).slot =
      UInt16.ofNat (32768 + i % c.prg.length) := by
    rw [Bus.locate, h.mapped, hmap]
    exact congrArg Location.slot (Nrom.locate_prg hsize hi)
  have hprotected :
      ¬ (c.install bus).mapping.Writable (UInt16.ofNat (32768 + i % c.prg.length)) := by
    rw [hmap]
    exact fun hwritable => Nrom.not_prg_lt (by omega) (Nrom.lt_of_writable hwritable)
  rw [List.getElem?_eq_getElem hk, Bus.read, hslot, h.visible hprotected,
    get_install hprg htrainer bus hk]

end Cartridge

namespace Computer

theorem session_guards {c : Computer} (h : c.bus.AtRest) {requests : List Request}
    (hr : ∀ request ∈ requests, request.sparesBus = true) :
    (c.session requests).2.bus.Guards c.bus.mapping c.bus.memory :=
  session_keeps (Bus.twins_guards c.bus.mapping c.bus.memory) (Bus.guards_self h) hr

/-- **Write protection holds throughout.** In a session in which the host
leaves the bus to programs and to writes of its own, a slot that no address
leads to as a writable one keeps its byte. So on a bus with a cartridge every
address from `$8000` on shows its byte of the program ROM, whatever has been
requested. -/
theorem session_protected :
    (∀ (c : Computer) (requests : List Request), c.bus.AtRest →
      (∀ request ∈ requests, request.sparesBus = true) →
      ∀ slot, ¬ c.bus.mapping.Writable slot →
        (c.session requests).2.bus.memory.get slot = c.bus.memory.get slot) ∧
    (∀ (image : List UInt8) (cartridge : Cartridge) (cpu : Processor) (bus : Bus)
      (requests : List Request), Cartridge.ofBytes image = .ok cartridge → bus.AtRest →
      (∀ request ∈ requests, request.sparesBus = true) →
      ∀ i < 32768, cartridge.prg[i % cartridge.prg.length]? =
        some (((⟨cpu, cartridge.install bus⟩ : Computer).session requests).2.bus.read
          (UInt16.ofNat (32768 + i)))) := by
  constructor
  · intro c requests hs hr slot hslot
    exact (session_guards hs hr).kept slot hslot
  · intro image cartridge cpu bus requests himage hs hr i hi
    have hguards :=
      session_guards (c := ⟨cpu, cartridge.install bus⟩) (cartridge.atRest_install hs) hr
    exact Cartridge.read_guards himage hguards hi

/-- A cartridge whose program increments its own first byte. -/
def scribbler : Cartridge where
  prg := [0xEE, 0x00, 0x80] ++ List.replicate 16377 0xEA ++ [0x00, 0x80, 0x00, 0x80]
  chr := []
  trainer := none
  mapper := 0
  mirroring := .horizontal
  battery := false

theorem session_protected_scribbler :
    (nmiOnGuard.session [.step, .access (.write 0x01FE 7), .reset, .step]).2.bus.memory.get
        0x01FE = 0 ∧
      ((⟨.powerOn {}, scribbler.install (.withMapping .flat)⟩ : Computer).session
        [.reset, .step, .access (.write 0xC000 0x55), .set (.pc 0x8000), .run 3]).2.bus.read
          0xC000 = 0xEE := by
  have hguarded : ¬ nmiOnGuard.bus.mapping.Writable 0x01FE := by
    rintro ⟨a, ha⟩
    have hslot : a = 0x01FE := congrArg Location.slot ha
    rw [hslot] at ha
    exact absurd (congrArg Location.readOnly ha) (by decide)
  have hlength : scribbler.prg.length = 16384 := by
    simp only [scribbler, List.length_append, List.length_replicate]
    rfl
  have himage : Cartridge.ofBytes (plainHeader 1 ++ scribbler.prg) = .ok scribbler :=
    ofBytes_plainHeader (.inl rfl) hlength
  have hfirst : scribbler.prg[16384 % scribbler.prg.length]? = some 0xEE := by
    rw [hlength]
    rfl
  refine ⟨session_protected.1 nmiOnGuard _ ⟨rfl, rfl⟩ (by decide) 0x01FE hguarded, ?_⟩
  have hbyte := session_protected.2 _ _ (.powerOn {}) (.withMapping .flat)
    [.reset, .step, .access (.write 0xC000 0x55), .set (.pc 0x8000), .run 3] himage ⟨rfl, rfl⟩
    (by decide) 16384 (by decide)
  exact Option.some.inj (hbyte.symm.trans hfirst)

end Computer

end Cpu6502
