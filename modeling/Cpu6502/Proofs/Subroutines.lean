/-
# Nested subroutine calls

JSR pushes the address of its own last byte, high byte first, and RTS goes to
the address after the one that it pops. So a subroutine that calls the next
one, which calls the next, up to one that returns at once, comes back to the
instruction after each call, the innermost first, with SP as it was
(`Computer.subroutines_unwind`). A call takes two of the 256 places of the
stack page, wherever SP stands, and 128 calls fill the page exactly: deeper
calls use the places below, and reach the saved address only when there are
more.

The induction is on the calls that are still to be made. It carries the frame:
between the call and its return nothing changes but the places below SP, which
is less than the whole page, and the code lies outside the stack page.

Key definitions: `Bus.CallsAt`, `Bus.Nests`, `codeOf`, `Bus.StackApart`,
`Computer.Goes`.
Key theorems: `mem_stackPlaces`, `Computer.Ready.performs_call`,
`Computer.Ready.performs_return`, `Computer.nested_unwind`,
`Computer.subroutines_unwind`.
-/
import Cpu6502.Proofs.Trail
import Mathlib.Data.List.Chain

namespace Cpu6502

/-! ### The stack page -/

theorem Machine.stackAddress_injective : Function.Injective stackAddress := by
  intro s t h
  have hnat := congrArg UInt16.toNat h
  rw [toNat_stackAddress rfl, toNat_stackAddress rfl] at hnat
  exact UInt8.toNat_inj.mp (Nat.add_left_cancel hnat)

/-- The next free places are those that lie the least below SP, going round. -/
theorem mem_stackPlaces {sp : UInt8} {k : Nat} (hk : k ≤ 256) {a : Nat} :
    a ∈ stackPlaces sp.toNat k ↔
      ∃ t : UInt8, a = (Machine.stackAddress t).toNat ∧ (sp - t).toNat < k := by
  induction k generalizing sp with
  | zero => simp [stackPlaces]
  | succ k ih =>
    have hfirst : 256 + sp.toNat = (Machine.stackAddress sp).toNat :=
      (Machine.toNat_stackAddress rfl).symm
    -- one place further down is one less below the next SP
    have hbelow (t : UInt8) : t ≠ sp → ((sp - 1 - t).toNat < k ↔ (sp - t).toNat < k + 1) := by
      intro hne
      have hne' : t.toNat ≠ sp.toNat := fun h => hne (UInt8.toNat_inj.mp h)
      have hsplt := sp.toNat_lt
      have htlt := t.toNat_lt
      simp only [UInt8.toNat_sub, UInt8.toNat_one]
      omega
    have hself : (sp - 1 - sp).toNat = 255 := by
      simp only [UInt8.toNat_sub, UInt8.toNat_one]
      have hsplt := sp.toNat_lt
      omega
    rw [stackPlaces, List.mem_cons, ← toNat_sub_one, ih (by omega), hfirst]
    constructor
    · rintro (rfl | ⟨t, rfl, ht⟩)
      · exact ⟨sp, rfl, by simp⟩
      · by_cases htsp : t = sp
        · rw [htsp, hself] at ht
          omega
        · exact ⟨t, rfl, (hbelow t htsp).mp ht⟩
    · rintro ⟨t, rfl, ht⟩
      by_cases htsp : t = sp
      · exact .inl (by rw [htsp])
      · exact .inr ⟨t, rfl, (hbelow t htsp).mpr ht⟩

/-- The first two free places, and those after them. -/
theorem stackPlaces_append (sp : UInt8) (k : Nat) : stackPlaces sp.toNat (k + 2) =
    stackPlaces sp.toNat 2 ++ stackPlaces (sp - 1 - 1).toNat k := by
  rw [toNat_sub_one, toNat_sub_one]
  rfl

/-- All places of the stack page. -/
def stackPage : List Nat := stackPlaces 0 256

theorem mem_stackPage {a : Nat} :
    a ∈ stackPage ↔ ∃ t : UInt8, a = (Machine.stackAddress t).toNat := by
  have hmem : a ∈ stackPlaces (0 : UInt8).toNat 256 ↔ _ := mem_stackPlaces (Nat.le_refl 256)
  exact hmem.trans ⟨fun ⟨t, ht, _⟩ => ⟨t, ht⟩, fun ⟨t, ht⟩ => ⟨t, ht, UInt8.toNat_lt _⟩⟩

/-- The free places lie in the stack page. -/
theorem stackPlaces_subset {sp : UInt8} {k : Nat} (hk : k ≤ 256) :
    ∀ a ∈ stackPlaces sp.toNat k, a ∈ stackPage := by
  intro a ha
  obtain ⟨t, rfl, -⟩ := (mem_stackPlaces hk).mp ha
  exact mem_stackPage.mpr ⟨t, rfl⟩

/-- The places of the stack page may be written, and lead to slots apart. -/
structure Bus.StackApart (bus : Bus) : Prop where
  writable : ∀ sp : UInt8, (bus.locate (Machine.stackAddress sp)).readOnly = false
  apart : Function.Injective fun sp : UInt8 => (bus.locate (Machine.stackAddress sp)).slot

/-- They do where every address is its own writable slot. -/
theorem Bus.stackApart_of_flat {bus : Bus} (h : bus.mapping = .flat) : bus.StackApart := by
  constructor
  · intro sp
    rw [locate_of_flat h]
  · intro s t hslot
    simp only [locate_of_flat h] at hslot
    exact Machine.stackAddress_injective hslot

/-- The address leads outside the stack page. -/
def Bus.OffStack (bus : Bus) (a : Address) : Prop :=
  ∀ sp : UInt8, (bus.locate (Machine.stackAddress sp)).slot ≠ (bus.locate a).slot

theorem Bus.ChangesAt.stackApart {places : List Nat} {b d : Bus} (h : b.ChangesAt places d)
    (hb : b.StackApart) : d.StackApart := by
  constructor
  · intro sp
    rw [h.locate_eq]
    exact hb.writable sp
  · simp only [h.locate_eq]
    exact hb.apart

/-- Outside the stack page everything reads as before. -/
theorem Bus.ChangesAt.read_offStack {b d : Bus} (h : b.ChangesAt stackPage d)
    (hb : b.AtRest) (hd : d.AtRest) {a : Address} (ha : b.OffStack a) :
    d.read a = b.read a := by
  refine h.read_eq hb hd fun p hp => ?_
  obtain ⟨t, rfl⟩ := mem_stackPage.mp hp
  rw [UInt16.ofNat_toNat]
  exact ha t

/-- The two places just above SP are the last that pushes reach. -/
theorem toNat_saved_sub (sp : UInt8) :
    (sp - 1 - 1 - sp).toNat = 254 ∧ (sp - 1 - 1 - (sp - 1)).toNat = 255 :=
  forall_byte (P := fun sp => (sp - 1 - 1 - sp).toNat = 254 ∧ (sp - 1 - 1 - (sp - 1)).toNat = 255)
    (by decide +kernel) sp

/-- They keep their bytes when the free places change, but for those two. -/
theorem Bus.StackApart.saved_eq {b d : Bus} (hb : b.StackApart) {sp : UInt8} {k : Nat}
    (hk : k ≤ 254) (hchanges : b.ChangesAt (stackPlaces (sp - 1 - 1).toNat k) d)
    (hs : b.AtRest) (hsd : d.AtRest) :
    d.read (Machine.stackAddress sp) = b.read (Machine.stackAddress sp) ∧
      d.read (Machine.stackAddress (sp - 1)) = b.read (Machine.stackAddress (sp - 1)) := by
  have hkept {t : UInt8} (ht : k ≤ (sp - 1 - 1 - t).toNat) :
      d.read (Machine.stackAddress t) = b.read (Machine.stackAddress t) := by
    refine hchanges.read_eq hs hsd fun p hp => ?_
    obtain ⟨u, rfl, hu⟩ := (mem_stackPlaces (by omega)).mp hp
    rw [UInt16.ofNat_toNat]
    intro hslot
    cases hb.apart hslot
    omega
  obtain ⟨hfirst, hsecond⟩ := toNat_saved_sub sp
  exact ⟨hkept (by omega), hkept (by omega)⟩

/-! ### Calls and returns -/

namespace Opcode

/-- The opcode of `JSR nnnn`. -/
def jsr : Opcode := ⟨.jsr, .absolute, 6, true⟩

/-- The opcode of `RTS`. -/
def rts : Opcode := ⟨.rts, .implied, 6, true⟩

theorem decode?_jsr : decode? 0x20 = some jsr := by decide +kernel

theorem decode?_rts : decode? 0x60 = some rts := by decide +kernel

/-- JSR pushes the address of its last byte. -/
theorem writes_jsr (m : Machine) : jsr.writes m =
    [⟨Machine.stackAddress m.regs.sp, Address.high (m.regs.pc + 2)⟩,
      ⟨Machine.stackAddress (m.regs.sp - 1), Address.low (m.regs.pc + 2)⟩] := by
  have hback : (m.regs.pc + 2).toNat = (m.regs.pc.toNat + 2) % 65536 := UInt16.toNat_add ..
  show pushes m.regs.sp.toNat (highLow ((m.regs.pc.toNat + 2) % 65536)) = _
  rw [highLow_eq hback, pushes_cons, pushes_cons]
  rfl

end Opcode

namespace Computer

/-- **A call**: it saves the address of its last byte in the two next places. -/
theorem Ready.performs_call {c : Computer} (hr : c.Ready) {target : Address}
    (hop : c.bus.read c.found.regs.pc = 0x20)
    (htarget : c.bus.readWord (c.found.regs.pc + 1) = target) (hstack : c.bus.StackApart) :
    ∃ d, c.Performs .jsr d ∧
      d.found.regs = { c.found.regs with
        pc := target
        sp := c.found.regs.sp - 1 - 1
        totalCycles := c.found.regs.totalCycles + 6 } ∧
      c.bus.ChangesAt (stackPlaces c.found.regs.sp.toNat 2) d.bus ∧
      d.bus.read (Machine.stackAddress c.found.regs.sp) = Address.high (c.found.regs.pc + 2) ∧
      d.bus.read (Machine.stackAddress (c.found.regs.sp - 1)) =
        Address.low (c.found.regs.pc + 2) := by
  have hdecoded : Opcode.decode? (c.found.bus.read c.found.regs.pc) = some .jsr :=
    (congrArg Opcode.decode? hop).trans Opcode.decode?_jsr
  have hwrites := Opcode.writes_jsr c.found
  have haccepted : ∀ w ∈ Opcode.jsr.writes c.found, (c.bus.locate w.address).readOnly = false := by
    rw [hwrites]
    simp [hstack.writable]
  obtain ⟨d, hd⟩ := hr.performs hdecoded rfl haccepted
  have hne : c.found.regs.sp ≠ c.found.regs.sp - 1 := by
    intro h
    have hnat := congrArg UInt8.toNat h
    rw [toNat_sub_one] at hnat
    omega
  have hapart : ((Opcode.jsr.writes c.found).map fun w => (c.bus.locate w.address).slot).Nodup := by
    rw [hwrites]
    simpa using fun h => hne (hstack.apart h)
  have hread := hd.read hapart
  rw [hwrites] at hread
  have hcall : Opcode.jsr.execute c.found =
      some (Action.call (Address.ofBytes (c.bus.read (c.found.regs.pc + 1))
        (c.bus.read (c.found.regs.pc + 2))) (Opcode.jsr.past c.found), ⟨6, 0, 0⟩) := by
    rw [Opcode.execute_eq, Mnemonic.execute_eq]
    rfl
  refine ⟨d, hd, ?_, hd.changesAt, hread _ List.mem_cons_self,
    hread _ (List.mem_cons_of_mem _ List.mem_cons_self)⟩
  rw [hd.found_regs hcall, ← htarget, Bus.readWord_eq]
  rfl

/-- **A return**: it goes to the address after the one in the two last places
that were filled. -/
theorem Ready.performs_return {c : Computer} (hr : c.Ready)
    (hop : c.bus.read c.found.regs.pc = 0x60) :
    ∃ d, c.Performs .rts d ∧
      d.found.regs = { c.found.regs with
        pc := Address.ofBytes (c.bus.read (Machine.stackAddress (c.found.regs.sp + 1)))
          (c.bus.read (Machine.stackAddress (c.found.regs.sp + 1 + 1))) + 1
        sp := c.found.regs.sp + 1 + 1
        totalCycles := c.found.regs.totalCycles + 6 } ∧
      c.bus.ChangesAt [] d.bus := by
  have hdecoded : Opcode.decode? (c.found.bus.read c.found.regs.pc) = some .rts :=
    (congrArg Opcode.decode? hop).trans Opcode.decode?_rts
  obtain ⟨d, hd⟩ := hr.performs hdecoded rfl (List.forall_mem_nil _)
  exact ⟨d, hd, hd.found_regs rfl, hd.changesAt⟩

end Computer

/-! ### Nests of subroutines -/

/-- At `site` stands a call of `target`. -/
def Bus.CallsAt (bus : Bus) (site target : Address) : Prop :=
  bus.read site = 0x20 ∧ bus.readWord (site + 1) = target

instance (bus : Bus) (site target : Address) : Decidable (bus.CallsAt site target) :=
  inferInstanceAs (Decidable (_ ∧ _))

/-- Each site calls the next one, and the last site calls `last`. There stands
RTS, and so it does after every call but the first. -/
structure Bus.Nests (bus : Bus) (sites : List Address) (last : Address) : Prop where
  calls : (sites ++ [last]).IsChain bus.CallsAt
  returns : ∀ a ∈ last :: sites.tail.map (· + 3), bus.read a = 0x60

/-- The addresses of the instruction bytes of a nest. -/
def codeOf (sites : List Address) (last : Address) : List Address :=
  sites.flatMap (fun site => [site, site + 1, site + 2]) ++ last :: sites.tail.map (· + 3)

/-- Where the work of a nest, or of a subroutine of it, ends: after its first
call, once that is back, or where there are no calls at once. -/
def exitOf (last : Address) : List Address → Address
  | [] => last
  | site :: _ => site + 3

theorem codeOf_tail {site : Address} {sites : List Address} {last : Address} :
    ∀ a ∈ codeOf sites last, a ∈ codeOf (site :: sites) last := by
  intro a ha
  simp only [codeOf, List.mem_append, List.mem_cons, List.flatMap_cons, List.tail_cons] at ha ⊢
  rcases ha with ha | rfl | ha
  · exact .inl (.inr ha)
  · exact .inr (.inl rfl)
  · exact .inr (.inr (List.map_subset _ (fun _ => List.mem_of_mem_tail) ha))

namespace Bus.Nests

variable {bus : Bus} {site : Address} {sites : List Address} {last : Address}

theorem tail (h : bus.Nests (site :: sites) last) : bus.Nests sites last where
  calls := h.calls.tail
  returns a ha := by
    refine h.returns a ?_
    rcases List.mem_cons.mp ha with rfl | ha
    · exact List.mem_cons_self
    · exact List.mem_cons_of_mem _ (List.map_subset _ (fun _ => List.mem_of_mem_tail) ha)

theorem head (h : bus.Nests (site :: sites) last) : bus.CallsAt site (sites.headD last) := by
  have hcalls := h.calls
  cases sites with
  | nil => simpa using hcalls
  | cons next sites => exact (List.isChain_cons_cons.mp hcalls).1

/-- The subroutine that the first site calls ends with RTS. -/
theorem exit (h : bus.Nests (site :: sites) last) : bus.read (exitOf last sites) = 0x60 := by
  refine h.returns _ ?_
  cases sites with
  | nil => exact List.mem_cons_self
  | cons next sites => exact List.mem_cons_of_mem _ List.mem_cons_self

end Bus.Nests

theorem exitOf_mem_codeOf (site : Address) (sites : List Address) (last : Address) :
    exitOf last sites ∈ codeOf (site :: sites) last := by
  refine List.mem_append_right _ ?_
  cases sites with
  | nil => exact List.mem_cons_self
  | cons next sites => exact List.mem_cons_of_mem _ List.mem_cons_self

namespace Computer

/-- The step performs an instruction with this mnemonic, and goes there. -/
def Goes (label : Mnemonic × Address) (c d : Computer) : Prop :=
  c.Does label.1 d ∧ d.cpu.regs.pc = label.2

theorem Goes.step {label : Mnemonic × Address} {c d : Computer} (h : Goes label c d) :
    c.step = (.ok true, d) := by
  obtain ⟨⟨op, hop, -⟩, -⟩ := h
  exact hop.step

theorem Performs.goes {c d : Computer} {op : Opcode} (h : c.Performs op d) {a : Address}
    (hpc : d.found.regs.pc = a) : Goes (op.mnemonic, a) c d := by
  rw [h.found] at hpc
  exact ⟨⟨op, h, rfl⟩, hpc⟩

/-- The steps of a nest: all calls, and then all returns, the innermost first. -/
def unwinding (sites : List Address) (last : Address) : List (Mnemonic × Address) :=
  (sites ++ [last]).tail.map (.jsr, ·) ++ sites.reverse.map fun site => (.rts, site + 3)

theorem unwinding_cons (site : Address) (sites : List Address) (last : Address) :
    unwinding (site :: sites) last =
      (.jsr, sites.headD last) :: (unwinding sites last ++ [(.rts, site + 3)]) := by
  cases sites <;> simp [unwinding]

/-- Six cycles for the call and six for the return, apart from what is in
between. -/
theorem add_six_add_six (total : UInt64) (n : Nat) :
    total + 6 + UInt64.ofNat (12 * n) + 6 = total + UInt64.ofNat (12 * (n + 1)) := by
  have hsum : UInt64.ofNat (12 * (n + 1)) = 6 + UInt64.ofNat (12 * n) + 6 := by
    have hnat : 12 * (n + 1) = 6 + 12 * n + 6 := by omega
    rw [hnat, UInt64.ofNat_add, UInt64.ofNat_add]
    rfl
  rw [hsum, UInt64.add_assoc, UInt64.add_assoc, UInt64.add_assoc]

section
variable {b : Bus} (hb : b.AtRest) (hstack : b.StackApart) {last : Address}
include hb hstack

/-- **A nest unwinds**, on a bus that has changed in the stack page only, if its
calls have room there. -/
theorem nested_unwind {sites : List Address} (hroom : 2 * sites.length ≤ 256)
    (hnest : b.Nests sites last)
    (hcode : ∀ a ∈ codeOf sites last, b.OffStack a) {c : Computer} (hr : c.Ready)
    (hbus : b.ChangesAt stackPage c.bus) (hpc : c.found.regs.pc = sites.headD last) :
    ∃ d, Trail Goes (unwinding sites last) c d ∧ d.Ready ∧
      d.found.regs = { c.found.regs with
        pc := exitOf last sites
        totalCycles := c.found.regs.totalCycles + UInt64.ofNat (12 * sites.length) } ∧
      c.bus.ChangesAt (stackPlaces c.found.regs.sp.toNat (2 * sites.length)) d.bus := by
  induction sites generalizing c with
  | nil =>
    refine ⟨c, .nil c, hr, ?_, .refl _ _⟩
    have hpc' : c.found.regs.pc = last := hpc
    rw [exitOf, ← hpc']
    simp
  | cons site sites ih =>
    rw [List.length_cons] at hroom
    -- the code is read as on the bus of before
    have hread {d : Computer} (hd : d.bus.AtRest) (hchanges : b.ChangesAt stackPage d.bus)
        {a : Address} (ha : a ∈ codeOf (site :: sites) last) : d.bus.read a = b.read a :=
      hchanges.read_offStack hb hd (hcode a ha)
    obtain ⟨hop, htarget⟩ := hnest.head
    have hsite : c.found.regs.pc = site := hpc
    -- the call
    have hword : c.bus.readWord (c.found.regs.pc + 1) = sites.headD last := by
      rw [← htarget, hsite, Bus.readWord_eq, Bus.readWord_eq, hread hr.atRest hbus,
        hread hr.atRest hbus] <;> simp [codeOf]
    have hjsr : c.bus.read c.found.regs.pc = 0x20 := by
      rw [hsite, hread hr.atRest hbus (by simp [codeOf]), hop]
    obtain ⟨d, hcall, hdregs, hdchanges, hhigh, hlow⟩ :=
      hr.performs_call hjsr hword (hbus.stackApart hstack)
    have hdbus := hbus.trans (hdchanges.mono (stackPlaces_subset (by decide)))
    have hdpc : d.found.regs.pc = sites.headD last := by rw [hdregs]
    -- what the subroutine does
    obtain ⟨e, htrail, hready, heregs, hechanges⟩ :=
      ih (by omega) hnest.tail (fun a ha => hcode a (codeOf_tail a ha)) (hcall.ready rfl) hdbus hdpc
    have hdsp : d.found.regs.sp = c.found.regs.sp - 1 - 1 := by rw [hdregs]
    rw [hdsp] at hechanges
    have hebus := hdbus.trans (hechanges.mono (stackPlaces_subset (by omega)))
    have hsaved := (hdbus.stackApart hstack).saved_eq (by omega) hechanges hcall.atRest_after
      hready.atRest
    rw [hhigh, hlow, hsite] at hsaved
    -- the return
    have hrts : e.bus.read e.found.regs.pc = 0x60 := by
      rw [heregs, hread hready.atRest hebus (exitOf_mem_codeOf site sites last), hnest.exit]
    obtain ⟨d', hreturn, hregs, hchanges⟩ := hready.performs_return hrts
    have hesp : e.found.regs.sp = c.found.regs.sp - 1 - 1 := by rw [heregs, hdsp]
    rw [hesp, UInt8.sub_add_cancel, UInt8.sub_add_cancel, hsaved.1, hsaved.2,
      Address.ofBytes_low_high, UInt16.add_assoc] at hregs
    have hback : d'.found.regs.pc = site + 3 := by rw [hregs]; rfl
    refine ⟨d', ?_, hreturn.ready rfl, ?_, ?_⟩
    · rw [unwinding_cons]
      exact .cons (hcall.goes hdpc) (htrail.append (.cons (hreturn.goes hback) (.nil d')))
    · rw [hregs, heregs, hdregs, List.length_cons, ← add_six_add_six]
      rfl
    · rw [List.length_cons, Nat.mul_succ, stackPlaces_append]
      exact ((hdchanges.mono fun a => List.mem_append_left _).trans
        (hechanges.mono fun a => List.mem_append_right _)).trans
          (hchanges.mono fun a ha => by cases ha)

end

/-- **Nested calls unwind.** From the first call site, with up to 128 calls one
inside the other, as many steps call as then return, the innermost first, each
to the instruction after its call. Registers and flags are those of before, but
PC is past the first call, and twelve cycles are counted for each call. The
memory changes in the stack page only. -/
theorem subroutines_unwind {c : Computer} (hr : c.Ready) {site : Address} {inner : List Address}
    {last : Address} (hpc : c.found.regs.pc = site) (hdepth : inner.length + 1 ≤ 128)
    (hnest : c.bus.Nests (site :: inner) last) (hstack : c.bus.StackApart)
    (hcode : ∀ a ∈ codeOf (site :: inner) last, c.bus.OffStack a) :
    ∃ c', Trail Goes ((inner ++ [last]).map (.jsr, ·) ++
        (site :: inner).reverse.map fun s => (.rts, s + 3)) c c' ∧
      c.run (2 * (inner.length + 1)) = (.ok (2 * (inner.length + 1)), c') ∧
      c'.cpu.regs = { c.found.regs with
        pc := site + 3
        totalCycles := c.found.regs.totalCycles + UInt64.ofNat (12 * (inner.length + 1)) } ∧
      c'.bus.mapping = c.bus.mapping ∧
      ∀ slot, (∀ sp : UInt8, (c.bus.locate (Machine.stackAddress sp)).slot ≠ slot) →
        c'.bus.memory.get slot = c.bus.memory.get slot := by
  have hroom : 2 * (site :: inner).length ≤ 256 := by
    rw [List.length_cons]
    omega
  obtain ⟨c', htrail, -, hregs, hchanges⟩ :=
    nested_unwind hr.atRest hstack hroom hnest hcode hr (.refl _ _) hpc
  have hlength : (unwinding (site :: inner) last).length = 2 * (inner.length + 1) := by
    simp [unwinding]
    omega
  have hrun := htrail.run Goes.step
  rw [hlength] at hrun
  have hfound : c'.found.regs = c'.cpu.regs := by
    rw [found, htrail.started Goes.step (by simp [unwinding])]
  refine ⟨c', htrail, hrun, hfound ▸ hregs, hchanges.mapping, fun slot hslot => ?_⟩
  refine (hchanges.mono (stackPlaces_subset hroom)).memory slot fun p hp => ?_
  obtain ⟨t, rfl⟩ := mem_stackPage.mp hp
  rw [UInt16.ofNat_toNat]
  exact hslot t

/-- Three calls, the first of them over the end of memory, with SP near the
lowest place of the stack page. -/
def nestedCalls : Computer where
  cpu := { Processor.powerOn {} with
    regs := { Registers.powerOn {} with a := 0x12, sp := 0x02, pc := 0xFFFE, p := 0xE7 }
    phase := .fetching }
  bus := (((Bus.withMapping .flat).load 0xFFFE [0x20, 0x00, 0x03]).load 0x0300
    [0x20, 0x00, 0x04, 0x60]).load 0x0400 [0x20, 0x00, 0x05, 0x60] |>.load 0x0500 [0x60]

theorem nestedCalls_unwind : ∃ c', nestedCalls.run 6 = (.ok 6, c') ∧ c'.cpu.regs.pc = 0x0001 ∧
    c'.cpu.regs.sp = 0x02 ∧ c'.cpu.regs.a = 0x12 ∧ c'.cpu.regs.p = 0xE7 ∧
    c'.cpu.regs.totalCycles = nestedCalls.cpu.regs.totalCycles + 36 := by
  have hreturns : [0x0500, 0x0303, 0x0403].all (nestedCalls.bus.read · == 0x60) = true := by
    decide +kernel
  have hnest : nestedCalls.bus.Nests [0xFFFE, 0x0300, 0x0400] 0x0500 :=
    ⟨.cons_cons (by decide +kernel) (.cons_cons (by decide +kernel)
      (.cons_cons (by decide +kernel) (.singleton _))), by simpa using hreturns⟩
  have hpages : (codeOf [0xFFFE, 0x0300, 0x0400] 0x0500).all (·.toNat / 256 != 1) = true := by
    decide +kernel
  have hready : nestedCalls.Ready := ⟨rfl, ⟨rfl, rfl⟩, rfl⟩
  obtain ⟨c', -, hrun, hregs, -, -⟩ := subroutines_unwind hready rfl
    (by decide) hnest (Bus.stackApart_of_flat rfl) fun a ha sp hslot => by
      have hsame : Machine.stackAddress sp = a := hslot
      have hlt := sp.toNat_lt
      refine absurd ?_ (bne_iff_ne.mp (List.all_eq_true.mp hpages a ha))
      rw [← hsame, Machine.toNat_stackAddress rfl]
      omega
  refine ⟨c', hrun, ?_⟩
  rw [hregs]
  decide +kernel

end Computer
end Cpu6502
