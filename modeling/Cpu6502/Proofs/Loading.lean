/-
# Placing many bytes at once

The host may place any number of bytes at successive addresses, which wrap after
the last one. Several of the addresses may lead to one slot, by the mapping or
because the list goes round, and then the last byte placed there is the one that
stays; a slot that none of them leads to keeps its byte (`Bus.load_effect`).
Nothing but memory changes, and the protection of an address is not asked for.

Both halves are inductions on the list: its first byte is placed, and what comes
after it either leads to the same slot again or leaves it alone.

Key definitions: `Bus.placeOf`.
Key theorems: `Bus.get_load_of_ne`, `Bus.get_load_last`, `Bus.load_append`,
`Bus.load_effect`.
-/
import Cpu6502.Proofs.Banks
import Cpu6502.Proofs.Footprint

namespace Cpu6502
namespace Bus

/-- The slot where byte number `i` is placed. -/
def placeOf (bus : Bus) (base : Address) (i : Nat) : UInt16 :=
  (bus.locate (base + UInt16.ofNat i)).slot

theorem placeOf_zero (bus : Bus) (base : Address) : bus.placeOf base 0 = (bus.locate base).slot :=
  congrArg (fun a => (bus.locate a).slot) (UInt16.add_zero base)

theorem placeOf_poke (bus : Bus) (base : Address) (b : UInt8) (i : Nat) :
    (bus.poke base b).placeOf (base + 1) i = bus.placeOf base (i + 1) := by
  rw [placeOf, placeOf, Address.add_ofNat_succ]
  rfl

theorem get_load_of_ne (bus : Bus) (base : Address) {bytes : List UInt8} {slot : UInt16}
    (h : ∀ i < bytes.length, bus.placeOf base i ≠ slot) :
    (bus.load base bytes).memory.get slot = bus.memory.get slot := by
  induction bytes generalizing bus base with
  | nil => rfl
  | cons b bs ih =>
    have hrest : ∀ i < bs.length, (bus.poke base b).placeOf (base + 1) i ≠ slot := by
      intro i hi
      rw [placeOf_poke]
      exact h (i + 1) (Nat.succ_lt_succ hi)
    have hfirst : slot ≠ (bus.locate base).slot := by
      rw [← placeOf_zero]
      exact (h 0 (Nat.zero_lt_succ _)).symm
    rw [load, ih _ _ hrest, poke, Memory.get_set_ne _ _ hfirst]

theorem get_load_last (bus : Bus) (base : Address) {bytes : List UInt8} {i : Nat}
    (hi : i < bytes.length)
    (hlast : ∀ j, i < j → j < bytes.length → bus.placeOf base j ≠ bus.placeOf base i) :
    (bus.load base bytes).memory.get (bus.placeOf base i) = bytes[i] := by
  induction bytes generalizing bus base i with
  | nil => cases hi
  | cons b bs ih =>
    rw [load]
    cases i with
    | zero =>
      -- no later byte is placed where the first one is
      have hrest : ∀ j < bs.length, (bus.poke base b).placeOf (base + 1) j ≠ bus.placeOf base 0 := by
        intro j hj
        rw [placeOf_poke]
        exact hlast (j + 1) (Nat.zero_lt_succ _) (Nat.succ_lt_succ hj)
      rw [get_load_of_ne _ _ hrest, placeOf_zero, poke, Memory.get_set_self]
      rfl
    | succ i =>
      -- the byte is one of the others, counted from the second address
      have hrest : ∀ j, i < j → j < bs.length →
          (bus.poke base b).placeOf (base + 1) j ≠ (bus.poke base b).placeOf (base + 1) i := by
        intro j hij hj
        rw [placeOf_poke, placeOf_poke]
        exact hlast (j + 1) (Nat.succ_lt_succ hij) (Nat.succ_lt_succ hj)
      rw [← placeOf_poke bus base b i, ih _ _ (Nat.lt_of_succ_lt_succ hi) hrest]
      rfl

theorem load_append (bus : Bus) (base : Address) (xs ys : List UInt8) :
    bus.load base (xs ++ ys) = (bus.load base xs).load (base + UInt16.ofNat xs.length) ys := by
  induction xs generalizing bus base with
  | nil =>
    rw [List.length_nil, List.nil_append, load]
    exact congrArg (bus.load · ys) (UInt16.add_zero base).symm
  | cons x xs ih => rw [List.cons_append, load, ih, load, List.length_cons, Address.add_ofNat_succ]

/-- Where protected addresses are writable instead, the same bytes are placed. -/
theorem load_memory_congr {b d : Bus} (hmemory : b.memory = d.memory)
    (hslots : ∀ a, (b.locate a).slot = (d.locate a).slot) (base : Address) (bytes : List UInt8) :
    (b.load base bytes).memory = (d.load base bytes).memory := by
  induction bytes generalizing b d base with
  | nil => exact hmemory
  | cons v vs ih =>
    have hpoke : (b.poke base v).memory = (d.poke base v).memory := by
      rw [poke, poke, hmemory, hslots]
    exact ih hpoke hslots (base + 1)

theorem read_of_flat {bus : Bus} (hs : bus.AtRest) (hflat : bus.mapping = .flat)
    (a : Address) : bus.read a = bus.memory.get a := by
  rw [read, visible_of_atRest hs, locate_of_flat hflat]

/-- **What placing bytes does**, under any mapping and for any number of bytes.
Each slot holds the last byte placed there, or the one that it held; nothing but
memory changes, whichever addresses are protected; and a list may be placed in
two parts. Where every address is its own slot, up to 65536 bytes are read back
where they were placed. -/
theorem load_effect (bus : Bus) (base : Address) (bytes : List UInt8) :
    (∀ slot i, ∀ hi : i < bytes.length, bus.placeOf base i = slot →
      (∀ j, i < j → j < bytes.length → bus.placeOf base j ≠ slot) →
      (bus.load base bytes).memory.get slot = bytes[i]) ∧
    (∀ slot, (∀ i < bytes.length, bus.placeOf base i ≠ slot) →
      (bus.load base bytes).memory.get slot = bus.memory.get slot) ∧
    bus.load base bytes = { bus with memory := (bus.load base bytes).memory } ∧
    (∀ mapping : Mapping, (∀ a, (mapping.map a).slot = (bus.mapping.map a).slot) →
      ((bus.setMapping mapping).load base bytes).memory = (bus.load base bytes).memory) ∧
    (∀ xs ys, bytes = xs ++ ys →
      bus.load base bytes = (bus.load base xs).load (base + UInt16.ofNat xs.length) ys) ∧
    (bus.AtRest → bus.mapping = .flat → bytes.length ≤ 65536 →
      (∀ i, ∀ hi : i < bytes.length,
        (bus.load base bytes).read (base + UInt16.ofNat i) = bytes[i]) ∧
      ∀ a, (∀ i < bytes.length, base + UInt16.ofNat i ≠ a) →
        (bus.load base bytes).read a = bus.read a) := by
  obtain ⟨memory, hload⟩ := bus.load_eq base bytes
  refine ⟨?_, fun slot => bus.get_load_of_ne base, by rw [hload], fun mapping hslots => ?_, ?_, ?_⟩
  · rintro slot i hi rfl hlast
    exact bus.get_load_last base hi hlast
  · exact load_memory_congr (b := bus.setMapping mapping) (d := bus) rfl hslots base bytes
  · rintro xs ys rfl
    exact bus.load_append base xs ys
  · intro hs hflat hlength
    have hplace (i : Nat) : bus.placeOf base i = base + UInt16.ofNat i := by
      rw [placeOf, locate_of_flat hflat]
    have hmapping : (bus.load base bytes).mapping = .flat := by rw [hload]; exact hflat
    have hread (a : Address) : (bus.load base bytes).read a =
        (bus.load base bytes).memory.get a := read_of_flat (hs.load base bytes) hmapping a
    refine ⟨fun i hi => ?_, fun a ha => ?_⟩
    · rw [hread, ← hplace]
      refine bus.get_load_last base hi fun j hij hj => ?_
      rw [hplace, hplace]
      exact Address.add_ofNat_ne base (by omega) (by omega) (by omega)
    · rw [hread, read_of_flat hs hflat]
      refine bus.get_load_of_ne base fun i hi => ?_
      rw [hplace]
      exact ha i hi

/-- As many bytes as there are addresses, and one more. -/
def overfull : List UInt8 := List.replicate 65536 5 ++ [9]

/-- One bank of program ROM, and a write to it that was rejected. -/
def guardedBank : Bus :=
  { Bus.withMapping (Nrom.ofSize 16384).toMapping with fault := some ⟨0xFFFF, 1⟩ }

theorem load_effect_overfull :
    (guardedBank.load 0xC000 overfull).memory.get 0x8000 = 9 ∧
      (guardedBank.load 0xC000 overfull).fault = some ⟨0xFFFF, 1⟩ ∧
      (guardedBank.load 0xC000 [7]).memory.get 0xC000 = 0 ∧
      ((Bus.withMapping .flat).load 0xFFFE [1, 2, 3]).read 0x0000 = 3 ∧
      ((Bus.withMapping .flat).load 0xFFFE [1, 2, 3]).read 0x0001 = 0 := by
  have hlength : overfull.length = 65537 := by
    rw [overfull, List.length_append, List.length_replicate, List.length_singleton]
  obtain ⟨hlast, -, honly, -⟩ := guardedBank.load_effect 0xC000 overfull
  obtain ⟨-, hkeeps, -⟩ := guardedBank.load_effect 0xC000 [7]
  obtain ⟨hplaced, helse⟩ := ((Bus.withMapping .flat).load_effect 0xFFFE [1, 2, 3]).2.2.2.2.2
    ⟨rfl, rfl⟩ rfl (by decide)
  refine ⟨?_, by rw [honly]; rfl, hkeeps 0xC000 (by decide), hplaced 2 (by decide), ?_⟩
  · rw [hlast 0x8000 65536 (by omega) rfl (fun j hij hj => by omega)]
    exact List.getElem_concat_length List.length_replicate.symm _
  · exact helse 0x0001 (by decide)

end Bus
end Cpu6502
