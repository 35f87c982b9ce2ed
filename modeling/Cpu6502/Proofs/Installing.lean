/-
# What installing a cartridge does

Whatever bus a cartridge is installed into, the memory map is that of its size,
and each slot holds what the cartridge has for it, or else what it held before
(`Cartridge.get_install_eq`). So the program ROM fills the addresses from `$8000`
on, once or twice, the trainer is at `$7000`, and installing again changes
nothing (`Cartridge.install_install`).

The last six bytes of the program ROM are seen at the end of memory for both
sizes. These are the vectors: handlers are entered, and the processor is reset,
through them (`Cartridge.pc_enter`, `Cartridge.pc_reset`), for as long as a
bus guards the program ROM.

Key definitions: `Cartridge.stores`, `Cartridge.vectorWord`.
Key theorems: `Cartridge.install_memory`, `Cartridge.install_install`,
`Cartridge.readWord_guards`, `Computer.step_enter`, `Cartridge.install_effect`.
-/
import Cpu6502.Proofs.ImageFormat
import Cpu6502.Proofs.Protection
import Cpu6502.Proofs.Writes

namespace Cpu6502

/-! ### The stores of installing -/

theorem Bus.loadSlots_memory (bus : Bus) (n : Nat) (bytes : List UInt8) :
    (bus.loadSlots (UInt16.ofNat n) bytes).memory =
      (bytes.zipIdx n).foldl (fun memory store => memory.set (UInt16.ofNat store.2) store.1)
        bus.memory := by
  induction bytes generalizing bus n with
  | nil => rfl
  | cons b bs ih => rw [loadSlots_cons, ih, List.zipIdx_cons, List.foldl_cons, pokeSlot]

namespace Cartridge

/-- The bytes that installing stores and the numbers of their slots, in order. -/
def stores (c : Cartridge) : List (UInt8 × Nat) :=
  c.prg.zipIdx 0x8000 ++ (c.trainer.getD []).zipIdx 0x7000

theorem install_memory {c : Cartridge} (htrainer : (c.trainer.getD []).length ≤ 4096) (bus : Bus) :
    (c.install bus).memory =
      c.stores.foldl (fun memory store => memory.set (UInt16.ofNat store.2) store.1)
        bus.memory := by
  rw [install_eq_loadSlots htrainer, Bus.loadSlots_memory, Bus.loadSlots_memory, stores,
    List.foldl_append, Bus.setMapping]

/-- No place is beyond the last slot. -/
theorem stores_lt {c : Cartridge} (hprg : c.prg.length ≤ 32768)
    (htrainer : (c.trainer.getD []).length ≤ 4096) {store : UInt8 × Nat} (h : store ∈ c.stores) :
    store.2 < 65536 := by
  obtain ⟨byte, place⟩ := store
  rcases List.mem_append.mp h with hrom | hplain
  · have := List.snd_lt_add_of_mem_zipIdx hrom
    omega
  · have := List.snd_lt_add_of_mem_zipIdx hplain
    omega

/-! ### Memory after installing -/

theorem byteFor_eq_none {c : Cartridge} {slot : UInt16}
    (hprg : ¬ (0x8000 ≤ slot.toNat ∧ slot.toNat < 0x8000 + c.prg.length))
    (htrainer : ∀ bytes, c.trainer = some bytes →
      ¬ (0x7000 ≤ slot.toNat ∧ slot.toNat < 0x7000 + bytes.length)) : c.byteFor slot = none := by
  unfold byteFor
  split
  · exact List.getElem?_eq_none (by omega)
  split
  · cases ht : c.trainer with
    | none => rfl
    | some bytes =>
      have := htrainer bytes ht
      exact List.getElem?_eq_none (show bytes.length ≤ _ by omega)
  · rfl

theorem read_trainer {c : Cartridge} (hprg : c.prg.length ≤ 32768) {bytes : List UInt8}
    (ht : c.trainer = some bytes) (hbytes : bytes.length ≤ 4096) {bus : Bus}
    (hs : bus.AtRest) {i : Nat} (hi : i < bytes.length) :
    (c.install bus).read (UInt16.ofNat (0x7000 + i)) = bytes[i] := by
  have htrainer : c.trainer.getD [] = bytes := by rw [ht, Option.getD_some]
  obtain ⟨memory, hinstalled⟩ := c.install_eq bus
  have hlocate : ((c.install bus).locate (UInt16.ofNat (0x7000 + i))).slot =
      UInt16.ofNat (0x7000 + i) := by
    rw [hinstalled]
    exact congrArg Location.slot (Nrom.locate_plain _ (by omega) (by omega))
  have hplace : (UInt16.ofNat (0x7000 + i)).toNat = 0x7000 + i :=
    UInt16.toNat_ofNat_of_lt' (show 0x7000 + i < 65536 by omega)
  rw [Bus.read, hlocate, Bus.visible_of_atRest (c.atRest_install hs),
    get_install_eq hprg (htrainer ▸ hbytes), byteFor, hplace, htrainer, if_neg (by omega),
    if_pos (Nat.le_add_right _ i), Nat.add_sub_cancel_left, List.getElem?_eq_getElem hi,
    Option.getD_some]

theorem install_install {c : Cartridge} (hprg : c.prg.length ≤ 32768)
    (htrainer : (c.trainer.getD []).length ≤ 4096) (bus : Bus) :
    c.install (c.install bus) = c.install bus := by
  obtain ⟨once, honce⟩ := c.install_eq bus
  obtain ⟨twice, htwice⟩ := c.install_eq (c.install bus)
  have hmemory : twice = once := by
    have htwice' : (c.install (c.install bus)).memory = twice := by rw [htwice]
    have honce' : (c.install bus).memory = once := by rw [honce]
    refine Memory.ext fun slot => ?_
    rw [← htwice', ← honce', get_install_eq hprg htrainer, get_install_eq hprg htrainer bus]
    cases c.byteFor slot <;> rfl
  rw [htwice, hmemory, honce]

/-! ### The vectors -/

/-- The little-endian word that begins so many bytes before the end of the
program ROM. -/
def wordFromEnd (c : Cartridge) (back : Nat) : Address :=
  Address.ofBytes (c.prg.getD (c.prg.length - back) 0) (c.prg.getD (c.prg.length - back + 1) 0)

/-- The address where execution starts. -/
def entry (c : Cartridge) : Address := c.wordFromEnd 4

/-- The address of a handler. -/
def handler (c : Cartridge) : Interrupt → Address
  | .nmi => c.wordFromEnd 6
  | .irq | .brk => c.wordFromEnd 2

section Guarded

variable {image : List UInt8} {c : Cartridge} {bus after : Bus}

/-- The program ROM ends where the addresses end, whichever its size. -/
theorem readWord_guards (himage : ofBytes image = .ok c)
    (h : after.Guards (c.install bus).mapping (c.install bus).memory) {a : Address} {back : Nat}
    (ha : a.toNat + back = 65536) (hback : 2 ≤ back ∧ back ≤ 16384) :
    after.readWord a = c.wordFromEnd back := by
  obtain ⟨hsize, -⟩ := sizes_of_ofBytes himage
  have hbyte {i k : Nat} (hi : i < 32768) (hk : i % c.prg.length = k) :
      after.read (UInt16.ofNat (32768 + i)) = c.prg.getD k 0 := by
    rw [List.getD_eq_getElem?_getD, ← hk, read_guards himage h hi, Option.getD_some]
  -- Both sizes divide 32768, so a place counted from the end is the same in the bank.
  have hmod {i k : Nat} (hi : i + k = 32768) (hk : 0 < k ∧ k ≤ 16384) :
      i % c.prg.length = c.prg.length - k := by
    rcases hsize with hone | htwo
    · rw [hone]; omega
    · rw [htwo]; omega
  have hlow := hbyte (show 32768 - back < 32768 by omega) (hmod (k := back) (by omega) (by omega))
  have hhigh := hbyte (show 32768 - back + 1 < 32768 by omega)
    (hmod (k := back - 1) (by omega) (by omega))
  have hfirst : a = UInt16.ofNat (32768 + (32768 - back)) := by
    rw [show 32768 + (32768 - back) = a.toNat by omega, UInt16.ofNat_toNat]
  have hnext : a + 1 = UInt16.ofNat (32768 + (32768 - back + 1)) := by
    rw [hfirst]
    exact (UInt16.ofNat_add _ 1).symm
  have hplace : c.prg.length - (back - 1) = c.prg.length - back + 1 := by omega
  rw [Bus.readWord, hnext, hhigh, hfirst, hlow, hplace, wordFromEnd]

/-- A handler is entered at its address in the program ROM, wherever the stack
is. -/
theorem pc_enter (himage : ofBytes image = .ok c) {m : Machine}
    (h : m.bus.Guards (c.install bus).mapping (c.install bus).memory) (kind : Interrupt) :
    (kind.enter m).regs.pc = c.handler kind := by
  -- The vector is read after the pushes, and these keep the bus guarding.
  have hsame : m.Alike (fun b d => b = d ∧
      b.Guards (c.install bus).mapping (c.install bus).memory) m := ⟨rfl, rfl, h⟩
  have hpushed := (Interrupt.enter_alike (Bus.twins_guards _ _).toAlike hsame kind).bus.2
  have hpc : (kind.enter m).regs.pc = (kind.enter m).bus.readWord kind.vector := rfl
  rw [hpc]
  cases kind with
  | nmi => exact readWord_guards himage hpushed (by decide) (by decide)
  | irq | brk => exact readWord_guards himage hpushed (by decide) (by decide)

theorem pc_reset (himage : ofBytes image = .ok c)
    (h : after.Guards (c.install bus).mapping (c.install bus).memory) {cpu : Processor}
    (hconfig : cpu.config.resetPc = none) :
    (⟨cpu, after⟩ : Computer).reset.cpu.regs.pc = c.entry := by
  have hpc : (⟨cpu, after⟩ : Computer).reset.cpu.regs.pc =
      cpu.config.resetPc.getD (after.readWord Interrupt.resetVector) := rfl
  rw [hpc, hconfig]
  exact readWord_guards himage h (by decide) (by decide)

end Guarded

end Cartridge

/-! ### Serving an interrupt with a cartridge -/

namespace Machine

variable {n : Nrom} {m : Machine}

/-- The stack can be written, so a push is not rejected. -/
theorem fault_push (hm : m.bus.mapping = n.toMapping) (v : UInt8) :
    (m.push v).bus.fault = m.bus.fault := by
  have hstack : stackAddress m.regs.sp < Nrom.prgBase := by
    have hlt := m.regs.sp.toNat_lt
    rw [UInt16.lt_iff_toNat_lt, toNat_stackAddress rfl]
    exact (by omega : 256 + m.regs.sp.toNat < 32768)
  obtain ⟨slot, -, hlocate⟩ := Nrom.locate_low hstack
  have haccepted : (m.bus.locate (stackAddress m.regs.sp)).readOnly = false := by
    rw [Bus.locate, hm]
    exact congrArg Location.readOnly (hlocate n)
  rw [push, Bus.fault_write, haccepted]
  cases m.bus.fault <;> rfl

theorem mapping_push (m : Machine) (v : UInt8) : (m.push v).bus.mapping = m.bus.mapping :=
  Bus.mapping_write ..

theorem fault_enter (hm : m.bus.mapping = n.toMapping) (kind : Interrupt) :
    (kind.enter m).bus.fault = m.bus.fault := by
  have hhigh : (m.push (Address.high m.regs.pc)).bus.mapping = n.toMapping :=
    (mapping_push ..).trans hm
  have hlow : (m.pushWord m.regs.pc).bus.mapping = n.toMapping := (mapping_push ..).trans hhigh
  exact (fault_push hlow _).trans ((fault_push hhigh _).trans (fault_push hm _))

end Machine

/-- With a cartridge an interrupt that is to be served is served, by a step that
leads to its handler. -/
theorem Computer.step_enter {c : Computer} (hphase : c.cpu.phase = .fetching) {n : Nrom}
    (hm : c.bus.mapping = n.toMapping) {kind : Interrupt}
    (hkind : c.cpu.lines.next (c.cpu.regs.isSet Flag.irqDisable) = some kind) :
    c.step.1 = .ok true ∧ c.step.2.cpu.regs.pc = (kind.enter c.opened).regs.pc := by
  have hhalted : c.cpu.isHalted = false := by
    rw [Processor.isHalted, hphase]
    rfl
  have hstarted : c.started = c := started_of_phase (by rw [hphase]; exact Phase.noConfusion)
  have hwork : work c.started.cpu c.started.opened = .ok (kind.enter c.opened, interruptCycles) := by
    rw [hstarted, work]
    simp only [opened, hkind]
  have hfault : (kind.enter c.opened).bus.fault = none := Machine.fault_enter hm kind
  rw [step_of_work hhalted hwork hfault]
  exact ⟨rfl, rfl⟩

/-! ### The effect of installing -/

/-- The processor starts and enters handlers at the addresses in the last six
bytes of the program ROM. -/
structure Computer.Vectored (computer : Computer) (c : Cartridge) : Prop where
  words : computer.bus.readWord Interrupt.nmiVector = c.wordFromEnd 6 ∧
    computer.bus.readWord Interrupt.resetVector = c.wordFromEnd 4 ∧
    computer.bus.readWord Interrupt.irqVector = c.wordFromEnd 2
  resets : computer.cpu.config.resetPc = none → computer.reset.cpu.regs.pc = c.entry
  enters : ∀ kind regs, (Interrupt.enter kind ⟨regs, computer.bus.begin⟩).regs.pc = c.handler kind
  serves : computer.cpu.phase = .fetching →
    ∀ kind, computer.cpu.lines.next (computer.cpu.regs.isSet Flag.irqDisable) = some kind →
      computer.step.1 = .ok true ∧ computer.step.2.cpu.regs.pc = c.handler kind

namespace Cartridge

theorem vectored_of_guards {image : List UInt8} {c : Cartridge} (himage : ofBytes image = .ok c)
    {bus : Bus} {computer : Computer}
    (h : computer.bus.Guards (c.install bus).mapping (c.install bus).memory) :
    computer.Vectored c where
  words := ⟨readWord_guards himage h (by decide) (by decide),
    readWord_guards himage h (by decide) (by decide),
    readWord_guards himage h (by decide) (by decide)⟩
  resets := pc_reset himage h
  enters kind regs := pc_enter himage h.begin kind
  serves hphase kind hkind := by
    obtain ⟨memory, hinstalled⟩ := c.install_eq bus
    have hmap : computer.bus.mapping = (Nrom.ofSize c.prg.length).toMapping := by
      rw [h.mapped, hinstalled]
    obtain ⟨hanswer, hpc⟩ := Computer.step_enter hphase hmap hkind
    exact ⟨hanswer, hpc.trans (pc_enter himage h.begin kind)⟩

/-- **Installing a cartridge**, whatever image it was read from and whatever the
bus held before, unless writes are being staged. The memory map is that of the
size, the program ROM fills the addresses from `$8000` on, the trainer is at
`$7000`, all other slots and the latched fault stay as they are, no place is
computed that a slot number cannot hold, and installing again changes nothing.
As long as the host leaves the bus to programs, the processor starts and enters
handlers at the addresses in the last six bytes of the program ROM. -/
theorem install_effect {image : List UInt8} {c : Cartridge} (himage : ofBytes image = .ok c)
    {bus : Bus} (hs : bus.AtRest) :
    (c.install bus).mapping = (⟨c.prg.length = 16384⟩ : Nrom).toMapping ∧
    (∀ i < 32768, c.prg[i % c.prg.length]? =
      some ((c.install bus).read (UInt16.ofNat (0x8000 + i)))) ∧
    (∀ bytes, c.trainer = some bytes → ∀ i < 512,
      bytes[i]? = some ((c.install bus).read (UInt16.ofNat (0x7000 + i)))) ∧
    (∀ slot : UInt16, ¬ (0x8000 ≤ slot.toNat ∧ slot.toNat < 0x8000 + c.prg.length) →
      (c.trainer.isSome = true → ¬ (0x7000 ≤ slot.toNat ∧ slot.toNat < 0x7200)) →
      (c.install bus).memory.get slot = bus.memory.get slot) ∧
    (c.install bus).fault = bus.fault ∧ (c.install bus).AtRest ∧
    ((c.install bus).memory = c.stores.foldl
        (fun memory store => memory.set (UInt16.ofNat store.2) store.1) bus.memory ∧
      ∀ store ∈ c.stores, store.2 < 65536) ∧
    (∀ (cpu : Processor) (requests : List Request),
      (∀ request ∈ requests, request.sparesBus = true) →
      ((⟨cpu, c.install bus⟩ : Computer).session requests).2.Vectored c) ∧
    c.install (c.install bus) = c.install bus := by
  obtain ⟨hsize, h512⟩ := sizes_of_ofBytes himage
  obtain ⟨hprg, htrainer⟩ := room_of_ofBytes himage
  obtain ⟨memory, hinstalled⟩ := c.install_eq bus
  have hrest := c.atRest_install hs
  have hmirrored : Nrom.ofSize c.prg.length = ⟨c.prg.length = 16384⟩ := by
    rcases hsize with hone | htwo
    · rw [hone]; rfl
    · rw [htwo]; rfl
  refine ⟨by rw [hinstalled, hmirrored], fun i hi => ?_, fun bytes ht i hi => ?_,
    fun slot hrom hplain => ?_, by rw [hinstalled], hrest,
    ⟨install_memory htrainer bus, fun store => stores_lt hprg htrainer⟩,
    fun cpu requests hr => ?_, install_install hprg htrainer bus⟩
  · exact read_guards himage (Bus.guards_self hrest) hi
  · have hlength : i < bytes.length := by
      rw [h512 bytes ht]
      exact hi
    rw [read_trainer hprg ht (by rw [h512 bytes ht]; decide) hs hlength,
      List.getElem?_eq_getElem hlength]
  · have hnone : c.byteFor slot = none := byteFor_eq_none hrom fun bytes ht => by
      rw [h512 bytes ht]
      exact hplain (by rw [ht]; rfl)
    rw [get_install_eq hprg htrainer, hnone, Option.getD_none]
  · exact vectored_of_guards himage
      (Computer.session_guards (c := ⟨cpu, c.install bus⟩) hrest hr)

/-- A cartridge with a trainer and three different vectors. -/
def trained : Cartridge where
  prg := List.replicate 16378 0xEA ++ [0x10, 0x80, 0x20, 0xC0, 0x30, 0x80]
  chr := []
  trainer := some (List.replicate 511 0x5A ++ [0xA5])
  mapper := 0
  mirroring := .vertical
  battery := false

theorem install_effect_trained : ∃ (image : List UInt8) (bus : Bus),
    ofBytes image = .ok trained ∧ bus.AtRest ∧ bus.fault.isSome = true ∧
      (trained.install bus).read 0x71FF = 0xA5 ∧
      (trained.install bus).memory.get 0x7200 = 0x77 ∧
      (⟨.powerOn {}, trained.install bus⟩ : Computer).reset.cpu.regs.pc = 0xC020 ∧
      trained.install (trained.install bus) = trained.install bus := by
  have hlength : trained.prg.length = 16384 := by
    simp only [trained, List.length_append, List.length_replicate]
    rfl
  have hfits : trained.Fits :=
    { prg := .inl hlength
      chr := ⟨0, by decide, rfl⟩
      trainer := fun bytes hbytes => by
        cases hbytes
        simp only [List.length_append, List.length_replicate]
        rfl
      mapper := rfl }
  have himage : ofBytes (trained.layout false 0x00 (List.replicate 8 0) []) = .ok trained :=
    ofBytes_layout hfits ⟨by decide, by decide⟩ rfl
  let bus : Bus := { (Bus.withMapping .flat).poke 0x7200 0x77 with fault := some ⟨0x8000, 1⟩ }
  obtain ⟨-, -, htrainer, hframe, -, -, -, hvectors, hagain⟩ :=
    install_effect himage (show bus.AtRest from ⟨rfl, rfl⟩)
  have hbyte := htrainer _ rfl 511 (by decide)
  have hkept := hframe 0x7200 (by decide) (by decide)
  have hreset := (hvectors (.powerOn {}) [] (by decide)).resets rfl
  have hlast (k : Nat) : trained.prg[16378 + k]? =
      ([0x10, 0x80, 0x20, 0xC0, 0x30, 0x80] : List UInt8)[k]? := by
    rw [trained, List.getElem?_append_right (by rw [List.length_replicate]; omega),
      List.length_replicate, Nat.add_sub_cancel_left]
  have hentry : trained.entry = 0xC020 := by
    rw [entry, wordFromEnd, hlength, List.getD_eq_getElem?_getD, List.getD_eq_getElem?_getD,
      hlast 2, hlast 3]
    rfl
  have hend : (List.replicate 511 0x5A ++ [0xA5] : List UInt8)[511]? = some 0xA5 := by
    rw [List.getElem?_append_right (Nat.le_of_eq List.length_replicate), List.length_replicate]
    rfl
  exact ⟨_, bus, himage, ⟨rfl, rfl⟩, rfl, Option.some.inj (hbyte.symm.trans hend), hkept,
    hreset.trans hentry, hagain⟩

end Cartridge

end Cpu6502
