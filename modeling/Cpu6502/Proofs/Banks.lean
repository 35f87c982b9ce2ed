/-
# A bank seen twice, and a bank that is there twice

A cartridge with one bank of program ROM shows it at `$8000` and again at
`$C000`. A cartridge that holds the same bank two times shows the same bytes,
but from other slots of another memory under another mapping. Programs and
hosts cannot tell them apart: the slots below `$8000` agree, those above it are
read only, and the second memory repeats the bank there (`Bus.Doubled`). Writes
and transactions keep it so (`Bus.twins_doubled`), and every session is answered
alike (`Computer.session_doubled`).

Key definition: `Bus.Doubled`.
Key theorems: `Nrom.locate_low`, `Nrom.locate_high`, `Bus.twins_doubled`,
`Bus.get_loadSlots_eq`, `Cartridge.install_doubled`, `Computer.session_doubled`.
-/
import Cpu6502.Proofs.ImageFormat
import Cpu6502.Proofs.Session

namespace Cpu6502

/-! ### Where addresses lead -/

namespace Nrom

theorem toNat_ramSlot (a : Address) : (a &&& ramMask).toNat = a.toNat % 2048 := by
  rw [UInt16.toNat_and]
  exact Nat.and_two_pow_sub_one_eq_mod a.toNat 11

theorem toNat_registerSlot (a : Address) :
    (registerBase ||| (a &&& 0x0007)).toNat = 8192 + a.toNat % 8 := by
  have hmod : a.toNat % 8 < 2 ^ 13 := by omega
  rw [UInt16.toNat_or, UInt16.toNat_and]
  have hand : a.toNat &&& (0x0007 : UInt16).toNat = a.toNat % 8 :=
    Nat.and_two_pow_sub_one_eq_mod a.toNat 3
  rw [hand]
  exact (Nat.two_pow_add_eq_or_of_lt hmod 1).symm

/-- The place in the first bank that repeats this one. -/
theorem toNat_prgSlot (a : Address) :
    (prgBase ||| (a &&& 0x3FFF)).toNat = 32768 + a.toNat % 16384 := by
  have hmod : a.toNat % 16384 < 2 ^ 15 := by omega
  rw [UInt16.toNat_or, UInt16.toNat_and]
  have hand : a.toNat &&& (0x3FFF : UInt16).toNat = a.toNat % 16384 :=
    Nat.and_two_pow_sub_one_eq_mod a.toNat 14
  rw [hand]
  exact (Nat.two_pow_add_eq_or_of_lt hmod 1).symm

/-- Below the program ROM every cartridge has the same map, into slots below it. -/
theorem locate_low {a : Address} (h : a < prgBase) :
    ∃ slot < prgBase, ∀ n : Nrom, n.locate a = .writable slot := by
  by_cases hram : a < 0x2000
  · refine ⟨a &&& ramMask, ?_, fun n => if_pos hram⟩
    rw [UInt16.lt_iff_toNat_lt, toNat_ramSlot]
    exact Nat.lt_trans (Nat.mod_lt _ (by decide)) (by decide : 2048 < 32768)
  · by_cases hregister : a < 0x4000
    · refine ⟨registerBase ||| (a &&& 0x0007), ?_, fun n => ?_⟩
      · rw [UInt16.lt_iff_toNat_lt, toNat_registerSlot]
        exact Nat.lt_trans (Nat.add_lt_add_left (Nat.mod_lt _ (by decide)) _)
          (by decide : 8192 + 8 < 32768)
      · rw [locate, if_neg hram, if_pos hregister]
    · refine ⟨a, h, fun n => ?_⟩
      rw [locate, if_neg hram, if_neg hregister]
      exact if_pos h

/-- In the program ROM the banks make the difference. -/
theorem locate_high {a : Address} (h : ¬ a < prgBase) (n : Nrom) :
    n.locate a = .rom (if n.mirrored then prgBase ||| (a &&& 0x3FFF) else a) := by
  have hlow : prgBase ≤ a := UInt16.not_lt.mp h
  have hram : ¬ a < 0x2000 := UInt16.not_lt.mpr (UInt16.le_trans (by decide) hlow)
  have hregister : ¬ a < 0x4000 := UInt16.not_lt.mpr (UInt16.le_trans (by decide) hlow)
  have hplain : ¬ a < 0x8000 := h
  rw [locate, if_neg hram, if_neg hregister, if_neg hplain]
  split <;> rfl

end Nrom

/-! ### Buses that show the same bytes -/

namespace Bus

/-- The first bus shows one bank twice; the second one has the bank twice. -/
structure Doubled (b d : Bus) : Prop where
  single : b.mapping = (⟨true⟩ : Nrom).toMapping
  double : d.mapping = (⟨false⟩ : Nrom).toMapping
  below : ∀ slot, slot < Nrom.prgBase → d.memory.get slot = b.memory.get slot
  above : ∀ slot, ¬ slot < Nrom.prgBase →
    d.memory.get slot = b.memory.get (Nrom.prgBase ||| (slot &&& 0x3FFF))
  inTransaction : d.inTransaction = b.inTransaction
  journal : d.journal = b.journal
  /-- No write under way leads into the program ROM. -/
  staging : ∀ w ∈ b.journal, w.1 < Nrom.prgBase
  fault : d.fault = b.fault

namespace Doubled

variable {b d : Bus}

theorem locate_low (h : Doubled b d) {a : Address} (ha : a < Nrom.prgBase) :
    ∃ slot < Nrom.prgBase, b.locate a = .writable slot ∧ d.locate a = .writable slot := by
  obtain ⟨slot, hslot, hlocate⟩ := Nrom.locate_low ha
  refine ⟨slot, hslot, ?_, ?_⟩
  · rw [locate, h.single]
    exact hlocate _
  · rw [locate, h.double]
    exact hlocate _

theorem locate_high (h : Doubled b d) {a : Address} (ha : ¬ a < Nrom.prgBase) :
    b.locate a = .rom (Nrom.prgBase ||| (a &&& 0x3FFF)) ∧ d.locate a = .rom a := by
  constructor
  · rw [locate, h.single]
    exact Nrom.locate_high ha _
  · rw [locate, h.double]
    exact Nrom.locate_high ha _

theorem not_prgSlot_lt (a : Address) : ¬ Nrom.prgBase ||| (a &&& 0x3FFF) < Nrom.prgBase := by
  rw [UInt16.lt_iff_toNat_lt, Nrom.toNat_prgSlot]
  exact Nat.not_lt.mpr (Nat.le_add_right 32768 _)

theorem visible_below (h : Doubled b d) {slot : UInt16} (hs : slot < Nrom.prgBase) :
    d.visible slot = b.visible slot := by
  simp only [visible, h.inTransaction, h.journal, h.below slot hs]

/-- No staged write leads into the program ROM. -/
theorem not_staged (h : Doubled b d) {slot : UInt16} (hs : ¬ slot < Nrom.prgBase) :
    (∀ w ∈ b.journal, w.1 ≠ slot) ∧ ∀ w ∈ d.journal, w.1 ≠ slot := by
  have hb : ∀ w ∈ b.journal, w.1 ≠ slot := fun w hw heq => hs (heq ▸ h.staging w hw)
  exact ⟨hb, h.journal ▸ hb⟩

theorem read (h : Doubled b d) (a : Address) : b.read a = d.read a := by
  by_cases ha : a < Nrom.prgBase
  · obtain ⟨slot, hslot, hb, hd⟩ := h.locate_low ha
    rw [Bus.read, Bus.read, hb, hd]
    exact (h.visible_below hslot).symm
  · obtain ⟨hb, hd⟩ := h.locate_high ha
    rw [Bus.read, Bus.read, hb, hd]
    exact (visible_of_not_staged (h.not_staged (not_prgSlot_lt a)).1).trans
      ((h.above a ha).symm.trans (visible_of_not_staged (h.not_staged ha).2).symm)

/-- A byte in a slot below the program ROM. -/
theorem set (h : Doubled b d) {slot : UInt16} (hs : slot < Nrom.prgBase) (v : UInt8) :
    Doubled { b with memory := b.memory.set slot v } { d with memory := d.memory.set slot v } := by
  refine { h with below := fun q hq => ?_, above := fun q hq => ?_ }
  · rw [Memory.get_set, Memory.get_set, h.below q hq]
  · have hne : q ≠ slot := fun heq => hq (heq ▸ hs)
    have hne' : Nrom.prgBase ||| (q &&& 0x3FFF) ≠ slot := fun heq => not_prgSlot_lt q (heq ▸ hs)
    rw [Memory.get_set_ne _ _ hne, Memory.get_set_ne _ _ hne', h.above q hq]

theorem put (h : Doubled b d) {slot : UInt16} (hs : slot < Nrom.prgBase) (v : UInt8) :
    Doubled (b.put slot v) (d.put slot v) := by
  cases hb : b.inTransaction with
  | false =>
    rw [put_stored _ _ hb, put_stored _ _ (h.inTransaction.trans hb)]
    exact h.set hs v
  | true =>
    rw [put_staged _ _ hb, put_staged _ _ (h.inTransaction.trans hb)]
    exact { h with
      journal := congrArg ((slot, v) :: ·) h.journal
      staging := List.forall_mem_cons.mpr ⟨hs, h.staging⟩ }

/-- A write goes to the same slot of both memories, or to the program ROM of
both, where it is rejected. -/
theorem write (h : Doubled b d) (a : Address) (v : UInt8) :
    Doubled (b.write a v) (d.write a v) := by
  by_cases ha : a < Nrom.prgBase
  · obtain ⟨slot, hslot, hb, hd⟩ := h.locate_low ha
    unfold Bus.write
    rw [hb, hd]
    exact h.put hslot v
  · obtain ⟨hb, hd⟩ := h.locate_high ha
    unfold Bus.write
    rw [hb, hd]
    have hfault : (d.fault <|> some ⟨a, v⟩) = (b.fault <|> some ⟨a, v⟩) := by rw [h.fault]
    exact { h with fault := hfault }

theorem begin (h : Doubled b d) : Doubled b.begin d.begin where
  single := h.single
  double := h.double
  below := h.below
  above := h.above
  inTransaction := rfl
  journal := rfl
  staging := List.forall_mem_nil _
  fault := rfl

theorem commit (h : Doubled b d) : Doubled b.commit d.commit where
  single := h.single
  double := h.double
  below slot hs := by
    rw [get_commit, get_commit, h.journal, h.below slot hs]
  above slot hs := by
    rw [get_commit_of_not_staged (h.not_staged hs).2,
      get_commit_of_not_staged (h.not_staged (not_prgSlot_lt slot)).1, h.above slot hs]
  inTransaction := rfl
  journal := rfl
  staging := List.forall_mem_nil _
  fault := h.fault

theorem rollback (h : Doubled b d) : Doubled b.rollback d.rollback where
  single := h.single
  double := h.double
  below := h.below
  above := h.above
  inTransaction := rfl
  journal := rfl
  staging := List.forall_mem_nil _
  fault := rfl

end Doubled

/-- Neither programs nor a host can tell them apart. -/
theorem twins_doubled : Bus.Twins Doubled where
  read h := h.read
  write h := h.write
  fault h := h.fault.symm
  begin h := h.begin
  commit h := h.commit
  rollback h := h.rollback

/-! ### Installing -/

theorem loadSlots_eq (bus : Bus) (base : UInt16) (bytes : List UInt8) :
    ∃ memory, bus.loadSlots base bytes = { bus with memory := memory } := by
  induction bytes generalizing bus base with
  | nil => exact ⟨bus.memory, rfl⟩
  | cons b bs ih =>
    obtain ⟨memory, h⟩ := ih (bus.pokeSlot base b) (base + 1)
    exact ⟨memory, h⟩

theorem load_eq (bus : Bus) (base : Address) (bytes : List UInt8) :
    ∃ memory, bus.load base bytes = { bus with memory := memory } := by
  induction bytes generalizing bus base with
  | nil => exact ⟨bus.memory, rfl⟩
  | cons b bs ih =>
    obtain ⟨memory, h⟩ := ih (bus.poke base b) (base + 1)
    exact ⟨memory, h⟩

theorem AtRest.load {bus : Bus} (h : bus.AtRest) (base : Address) (bytes : List UInt8) :
    (bus.load base bytes).AtRest := by
  obtain ⟨memory, hload⟩ := bus.load_eq base bytes
  rw [hload]
  exact ⟨h.outside, h.unstaged⟩

theorem loadSlots_cons (bus : Bus) (n : Nat) (b : UInt8) (bs : List UInt8) :
    bus.loadSlots (UInt16.ofNat n) (b :: bs) =
      (bus.pokeSlot (UInt16.ofNat n) b).loadSlots (UInt16.ofNat (n + 1)) bs := by
  rw [loadSlots, UInt16.ofNat_add]
  rfl

/-- The bytes are in successive slots, and every other slot keeps its byte. -/
theorem get_loadSlots_eq (bus : Bus) {n : Nat} (bytes : List UInt8)
    (hn : n + bytes.length ≤ 65536) (slot : UInt16) :
    (bus.loadSlots (UInt16.ofNat n) bytes).memory.get slot =
      if n ≤ slot.toNat then bytes[slot.toNat - n]?.getD (bus.memory.get slot)
      else bus.memory.get slot := by
  induction bytes generalizing bus n with
  | nil => simp [loadSlots]
  | cons b bs ih =>
    rw [List.length_cons] at hn
    have hfirst : (UInt16.ofNat n).toNat = n :=
      UInt16.toNat_ofNat_of_lt' (show n < 65536 by omega)
    have hpoke : (bus.pokeSlot (UInt16.ofNat n) b).memory.get slot =
        if slot.toNat = n then b else bus.memory.get slot := by
      simp only [pokeSlot, Memory.get_set, ← UInt16.toNat_inj, hfirst]
    rw [loadSlots_cons, ih _ (by omega), hpoke]
    rcases Nat.lt_trichotomy slot.toNat n with hlt | heq | hgt
    · rw [if_neg (by omega), if_neg (by omega), if_neg (by omega)]
    · rw [if_neg (by omega), if_pos heq, if_pos (by omega), heq, Nat.sub_self]
      rfl
    · rw [if_pos (by omega), if_neg (by omega), if_pos (by omega),
        show slot.toNat - n = slot.toNat - (n + 1) + 1 by omega, List.getElem?_cons_succ]

theorem get_loadSlots_before (bus : Bus) {n : Nat} (bytes : List UInt8)
    (hn : n + bytes.length ≤ 65536) {slot : UInt16} (hs : slot.toNat < n) :
    (bus.loadSlots (UInt16.ofNat n) bytes).memory.get slot = bus.memory.get slot := by
  rw [get_loadSlots_eq bus bytes hn, if_neg (Nat.not_le.mpr hs)]

theorem get_loadSlots (bus : Bus) {n : Nat} {bytes : List UInt8}
    (hn : n + bytes.length ≤ 65536) {k : Nat} (hk : k < bytes.length) :
    (bus.loadSlots (UInt16.ofNat n) bytes).memory.get (UInt16.ofNat (n + k)) = bytes[k] := by
  have hslot : (UInt16.ofNat (n + k)).toNat = n + k :=
    UInt16.toNat_ofNat_of_lt' (show n + k < 65536 by omega)
  rw [get_loadSlots_eq bus bytes hn, hslot, if_pos (Nat.le_add_right n k), Nat.add_sub_cancel_left,
    List.getElem?_eq_getElem hk, Option.getD_some]

namespace Doubled

variable {b d : Bus}

theorem poke (h : Doubled b d) {a : Address} (ha : a < Nrom.prgBase) (v : UInt8) :
    Doubled (b.poke a v) (d.poke a v) := by
  obtain ⟨slot, hslot, hb, hd⟩ := h.locate_low ha
  unfold Bus.poke
  rw [hb, hd]
  exact h.set hslot v

theorem load (h : Doubled b d) {n : Nat} (bytes : List UInt8) (hn : n + bytes.length ≤ 32768) :
    Doubled (b.load (UInt16.ofNat n) bytes) (d.load (UInt16.ofNat n) bytes) := by
  induction bytes generalizing b d n with
  | nil => exact h
  | cons v vs ih =>
    rw [List.length_cons] at hn
    have ha : UInt16.ofNat n < Nrom.prgBase := by
      rw [UInt16.lt_iff_toNat_lt, UInt16.toNat_ofNat_of_lt' (show n < 65536 by omega)]
      exact (by omega : n < 32768)
    have hnext : UInt16.ofNat n + 1 = UInt16.ofNat (n + 1) := (UInt16.ofNat_add n 1).symm
    rw [Bus.load, Bus.load, hnext]
    exact ih (h.poke ha v) (by omega)

end Doubled

end Bus

namespace Cartridge

theorem install_eq (c : Cartridge) (bus : Bus) : ∃ memory, c.install bus =
    { bus with mapping := (Nrom.ofSize c.prg.length).toMapping, memory := memory } := by
  obtain ⟨rom, hrom⟩ :=
    (bus.setMapping (Nrom.ofSize c.prg.length).toMapping).loadSlots_eq Nrom.prgBase c.prg
  unfold install
  simp only [hrom]
  cases c.trainer with
  | none => exact ⟨rom, rfl⟩
  | some bytes => exact Bus.load_eq _ trainerBase bytes

theorem atRest_install (c : Cartridge) {bus : Bus} (h : bus.AtRest) : (c.install bus).AtRest := by
  obtain ⟨memory, hinstalled⟩ := c.install_eq bus
  rw [hinstalled]
  exact ⟨h.outside, h.unstaged⟩

/-- What every image holds: one or two banks, and a trainer of one size if
there is one. -/
theorem sizes_of_ofBytes {image : List UInt8} {c : Cartridge} (h : ofBytes image = .ok c) :
    (c.prg.length = 16384 ∨ c.prg.length = 32768) ∧ ∀ t, c.trainer = some t → t.length = 512 :=
  ⟨(fits_of_ofBytes h).prg, (fits_of_ofBytes h).trainer⟩

/-- The place of a slot in the program ROM. -/
theorem exists_prgSlot {slot : UInt16} (hs : ¬ slot < Nrom.prgBase) :
    ∃ k < 32768, slot = UInt16.ofNat (32768 + k) ∧
      Nrom.prgBase ||| (slot &&& 0x3FFF) = UInt16.ofNat (32768 + k % 16384) := by
  have hlt := slot.toNat_lt
  have hle : 32768 ≤ slot.toNat := UInt16.le_iff_toNat_le.mp (UInt16.not_lt.mp hs)
  have hprg := Nrom.toNat_prgSlot slot
  refine ⟨slot.toNat - 32768, by omega, ?_, ?_⟩
  · rw [show 32768 + (slot.toNat - 32768) = slot.toNat by omega, UInt16.ofNat_toNat]
  · rw [← UInt16.toNat_inj, hprg, UInt16.toNat_ofNat_of_lt' (by show _ < 65536; omega)]
    omega

/-- The program ROM of one bank against that of the same bank twice. -/
theorem loadSlots_doubled {bank : List UInt8} (hbank : bank.length = 16384) {b d : Bus}
    (hm : ∀ slot, slot < Nrom.prgBase → b.memory.get slot = d.memory.get slot)
    (hf : b.fault = d.fault) (hb : b.AtRest) (hd : d.AtRest) :
    Bus.Doubled ((b.setMapping (⟨true⟩ : Nrom).toMapping).loadSlots Nrom.prgBase bank)
      ((d.setMapping (⟨false⟩ : Nrom).toMapping).loadSlots Nrom.prgBase (bank ++ bank)) := by
  have hsize : (bank ++ bank).length = 32768 := by rw [List.length_append, hbank]
  have hbase : Nrom.prgBase = UInt16.ofNat 32768 := rfl
  have hbelow (bus : Bus) {bytes : List UInt8} (hbytes : bytes.length ≤ 32768) {slot : UInt16}
      (hs : slot < Nrom.prgBase) :
      (bus.loadSlots Nrom.prgBase bytes).memory.get slot = bus.memory.get slot :=
    bus.get_loadSlots_before bytes (show 32768 + bytes.length ≤ 65536 by omega)
      (UInt16.lt_iff_toNat_lt.mp hs)
  have habove (slot : UInt16) (hs : ¬ slot < Nrom.prgBase) :
      ((d.setMapping (⟨false⟩ : Nrom).toMapping).loadSlots Nrom.prgBase
          (bank ++ bank)).memory.get slot =
        ((b.setMapping (⟨true⟩ : Nrom).toMapping).loadSlots Nrom.prgBase bank).memory.get
          (Nrom.prgBase ||| (slot &&& 0x3FFF)) := by
    obtain ⟨k, hk, hslot, hfirst⟩ := exists_prgSlot hs
    rw [hfirst, hslot, hbase, Bus.get_loadSlots _ (by omega) (by omega : k < (bank ++ bank).length),
      Bus.get_loadSlots _ (by omega) (by omega : k % 16384 < bank.length), List.getElem_append]
    split
    · congr 1
      omega
    · congr 1
      omega
  obtain ⟨small, hsmall⟩ := (b.setMapping (⟨true⟩ : Nrom).toMapping).loadSlots_eq Nrom.prgBase bank
  obtain ⟨large, hlarge⟩ :=
    (d.setMapping (⟨false⟩ : Nrom).toMapping).loadSlots_eq Nrom.prgBase (bank ++ bank)
  exact
    { single := by rw [hsmall]; rfl
      double := by rw [hlarge]; rfl
      below := fun slot hs => by
        rw [hbelow _ (Nat.le_of_eq hsize) hs, hbelow _ (by omega) hs]
        exact (hm slot hs).symm
      above := habove
      inTransaction := by
        rw [hsmall, hlarge]
        exact hd.outside.trans hb.outside.symm
      journal := by
        rw [hsmall, hlarge]
        exact hd.unstaged.trans hb.unstaged.symm
      staging := by
        rw [hsmall]
        exact hb.unstaged ▸ List.forall_mem_nil _
      fault := by
        rw [hsmall, hlarge]
        exact hf.symm }

/-- **Installing** a cartridge with one bank, and another with the same bank
twice. -/
theorem install_doubled {c e : Cartridge} (hbank : c.prg.length = 16384)
    (hprg : e.prg = c.prg ++ c.prg) (ht : e.trainer = c.trainer)
    (hsize : ∀ t, c.trainer = some t → t.length ≤ 4096) {b d : Bus}
    (hm : ∀ slot, slot < Nrom.prgBase → b.memory.get slot = d.memory.get slot)
    (hf : b.fault = d.fault) (hb : b.AtRest) (hd : d.AtRest) :
    Bus.Doubled (c.install b) (e.install d) := by
  have hloaded := loadSlots_doubled hbank hm hf hb hd
  have hone : Nrom.ofSize c.prg.length = ⟨true⟩ := by rw [hbank]; rfl
  have htwo : Nrom.ofSize e.prg.length = ⟨false⟩ := by
    rw [hprg, List.length_append, hbank]
    rfl
  unfold install
  rw [hone, htwo, ht, hprg]
  cases htrainer : c.trainer with
  | none => exact hloaded
  | some t => exact hloaded.load t (show 0x7000 + t.length ≤ 32768 by have := hsize t htrainer; omega)

end Cartridge

namespace Computer

/-- **One bank is as good as the same bank twice.** From images with one bank of
program ROM, and with the same bank twice, installed on buses that agree below
the program ROM, processors that are the same answer every session alike. After
it they are the same again, and so are the latched fault and the byte at every
address. -/
theorem session_doubled {first second : List UInt8} {c e : Cartridge}
    (hfirst : Cartridge.ofBytes first = .ok c) (hsecond : Cartridge.ofBytes second = .ok e)
    (hprg : e.prg = c.prg ++ c.prg) (ht : e.trainer = c.trainer) {b d : Bus}
    (hm : ∀ slot, slot < Nrom.prgBase → b.memory.get slot = d.memory.get slot)
    (hf : b.fault = d.fault) (hb : b.AtRest) (hd : d.AtRest) (cpu : Processor)
    {requests : List Request} (hr : ∀ request ∈ requests, request.sparesBus = true) :
    ((⟨cpu, c.install b⟩ : Computer).session requests).1 =
        ((⟨cpu, e.install d⟩ : Computer).session requests).1 ∧
      ((⟨cpu, c.install b⟩ : Computer).session requests).2.cpu =
        ((⟨cpu, e.install d⟩ : Computer).session requests).2.cpu ∧
      ((⟨cpu, c.install b⟩ : Computer).session requests).2.bus.fault =
        ((⟨cpu, e.install d⟩ : Computer).session requests).2.bus.fault ∧
      ∀ a, ((⟨cpu, c.install b⟩ : Computer).session requests).2.bus.read a =
        ((⟨cpu, e.install d⟩ : Computer).session requests).2.bus.read a := by
  obtain ⟨hsize, htrainer⟩ := Cartridge.sizes_of_ofBytes hfirst
  obtain ⟨hdouble, -⟩ := Cartridge.sizes_of_ofBytes hsecond
  have hbank : c.prg.length = 16384 := by
    rw [hprg, List.length_append] at hdouble
    omega
  have hsmall (t : List UInt8) (h : c.trainer = some t) : t.length ≤ 4096 := by
    rw [htrainer t h]
    decide
  have hbus := Cartridge.install_doubled hbank hprg ht hsmall hm hf hb hd
  have htwin : (⟨cpu, c.install b⟩ : Computer).Twin Bus.Doubled ⟨cpu, e.install d⟩ := ⟨rfl, hbus⟩
  obtain ⟨hreplies, hcpu, hlast⟩ := session_twins Bus.twins_doubled htwin hr
  exact ⟨hreplies, hcpu, hlast.fault.symm, hlast.read⟩

/-- A header that announces banks of program ROM and nothing else. -/
def plainHeader (banks : UInt8) : List UInt8 :=
  Header.magic ++ banks :: List.replicate 11 0

/-- Every program ROM of one or two banks has an image. -/
theorem ofBytes_plainHeader {banks : UInt8} (hbanks : banks = 1 ∨ banks = 2) {prg : List UInt8}
    (hprg : prg.length = banks.toNat * 16384) : Cartridge.ofBytes (plainHeader banks ++ prg) =
      .ok ⟨prg, [], none, 0, .horizontal, false⟩ := by
  have hfits : Cartridge.Fits ⟨prg, [], none, 0, .horizontal, false⟩ :=
    { prg := by rcases hbanks with rfl | rfl <;> simp [hprg]
      chr := ⟨0, by decide, rfl⟩
      trainer := fun t ht => by cases ht
      mapper := rfl }
  have hcount : UInt8.ofNat (prg.length / 16384) = banks := by
    rw [hprg, Nat.mul_div_cancel _ (by decide), UInt8.ofNat_toNat]
  have hlayout : plainHeader banks ++ prg =
      Cartridge.layout ⟨prg, [], none, 0, .horizontal, false⟩ false 0 (List.replicate 8 0) [] := by
    have hflags : Cartridge.flags6 .horizontal false false false = 0 := by decide
    have hheader : Cartridge.header ⟨prg, [], none, 0, .horizontal, false⟩ false 0 =
        Header.magic ++ [banks, 0, 0, 0] := by
      simp only [Cartridge.header, hcount, Option.isSome_none, hflags]
      rfl
    rw [Cartridge.layout, hheader, List.append_nil, List.append_nil]
    rfl
  rw [hlayout]
  exact Cartridge.ofBytes_layout hfits ⟨by decide, by decide⟩ rfl

/-- A bank of NOPs whose RESET vector leads to `$C000`. -/
def nopBank : List UInt8 := List.replicate 16380 0xEA ++ [0x00, 0xC0, 0x00, 0x80]

theorem session_doubled_nops :
    ((⟨.powerOn {}, (⟨nopBank, [], none, 0, .horizontal, false⟩ : Cartridge).install
        (.withMapping .flat)⟩ : Computer).session
      [.reset, .step, .access (.write 0xC001 0x55), .access (.read 0xC001), .run 2]).1 =
    ((⟨.powerOn {}, (⟨nopBank ++ nopBank, [], none, 0, .horizontal, false⟩ : Cartridge).install
        (.withMapping .flat)⟩ : Computer).session
      [.reset, .step, .access (.write 0xC001 0x55), .access (.read 0xC001), .run 2]).1 := by
  have hlength : nopBank.length = 16384 := by
    rw [nopBank, List.length_append, List.length_replicate]
    rfl
  have hone : Cartridge.ofBytes (plainHeader 1 ++ nopBank) =
      .ok ⟨nopBank, [], none, 0, .horizontal, false⟩ := ofBytes_plainHeader (.inl rfl) hlength
  have htwo : Cartridge.ofBytes (plainHeader 2 ++ (nopBank ++ nopBank)) =
      .ok ⟨nopBank ++ nopBank, [], none, 0, .horizontal, false⟩ :=
    ofBytes_plainHeader (.inr rfl) (by rw [List.length_append, hlength]; rfl)
  exact (session_doubled hone htwo rfl rfl (fun _ _ => rfl) rfl ⟨rfl, rfl⟩ ⟨rfl, rfl⟩ (.powerOn {})
    (by decide)).1

end Computer

end Cpu6502
