/-
# Images are accepted exactly as the format says

The format is told here by byte numbers and places, apart from how an image is
read: what each byte of the header announces, where each part then lies
(`Image.parts`), and the requirements in the order in which a violated one is
reported (`Image.complaint`). Reading an image is one equation over the three
(`Cartridge.ofBytes_eq`). It settles which images are accepted, what comes of
them, and which error the others give; and as none of the three looks at the
last eight bytes of the header or at what follows the parts, those bytes are
free.

In the other direction a cartridge is laid out as an image (`Cartridge.layout`),
and what is read back is the cartridge (`Cartridge.ofBytes_layout`).

Key definitions: `Image.requirements`, `Image.complaint`, `Image.parts`,
`Cartridge.Fits`, `Cartridge.layout`.
Key theorems: `Cartridge.ofBytes_eq`, `Cartridge.ofBytes_layout`,
`Cartridge.ofBytes_format`.
-/
import Cpu6502.Cartridge
import Cpu6502.Proofs.Flags

namespace Cpu6502

namespace Image

/-! ### What an image announces -/

/-- A byte of the image as a number. -/
def byteAt (image : List UInt8) (place : Nat) : Nat := (image.getD place 0).toNat

/-- Bytes 6 and 7 give the digits of the mapper number. -/
def mapperNumber (image : List UInt8) : Nat := (byteAt image 7 &&& 0xF0) ||| (byteAt image 6 >>> 4)

/-- The bytes of trainer that come after the header. -/
def trainerSize (image : List UInt8) : Nat := if (byteAt image 6).testBit 2 then 512 else 0

/-- The bytes of program ROM that come after the trainer. -/
def prgSize (image : List UInt8) : Nat := 16384 * byteAt image 4

/-- The bytes of graphics ROM that come after the program ROM. -/
def chrSize (image : List UInt8) : Nat := 8192 * byteAt image 5

/-- What header and parts take up. -/
def size (image : List UInt8) : Nat := 16 + trainerSize image + prgSize image + chrSize image

/-- Bits 3 and 0 of byte 6 say how the picture memory is arranged. -/
def arrangement (flags : Nat) : Mirroring :=
  if flags.testBit 3 then .fourScreen
  else if flags.testBit 0 then .vertical
  else .horizontal

/-- As many bytes as wanted, from some place on. -/
def slice (image : List UInt8) (place length : Nat) : List UInt8 := (image.drop place).take length

/-- The cartridge that an image of sufficient length holds. -/
def parts (image : List UInt8) : Cartridge where
  prg := slice image (16 + trainerSize image) (prgSize image)
  chr := slice image (16 + trainerSize image + prgSize image) (chrSize image)
  trainer := if (byteAt image 6).testBit 2 then some (slice image 16 512) else none
  mapper := 0
  mirroring := arrangement (byteAt image 6)
  battery := (byteAt image 6).testBit 1

/-! ### What is required of an image -/

/-- Something required of an image, and the error that reports it missing. -/
structure Requirement where
  met : Bool
  error : ImageError

/-- The requirements in the order in which they are checked. -/
def requirements (image : List UInt8) : List Requirement := [
  ⟨16 ≤ image.length, .headerTooShort⟩,
  ⟨image.take 4 = [0x4E, 0x45, 0x53, 0x1A], .badMagic⟩,
  ⟨byteAt image 7 &&& 0x0C ≠ 0x08, .nes20⟩,
  ⟨mapperNumber image = 0, .unsupportedMapper (UInt8.ofNat (mapperNumber image))⟩,
  ⟨byteAt image 4 = 1 ∨ byteAt image 4 = 2, .prgBankCount (UInt8.ofNat (byteAt image 4))⟩,
  ⟨16 + trainerSize image ≤ image.length, .trainerTooShort⟩,
  ⟨16 + trainerSize image + prgSize image ≤ image.length, .prgTooShort⟩,
  ⟨size image ≤ image.length, .chrTooShort⟩]

/-- The error of the first requirement that is not met. -/
def firstUnmet (required : List Requirement) : Option ImageError :=
  (required.find? fun requirement => !requirement.met).map Requirement.error

/-- What is wrong with an image. -/
def complaint (image : List UInt8) : Option ImageError := firstUnmet (requirements image)

theorem exists_of_firstUnmet {required : List Requirement} {error : ImageError}
    (h : firstUnmet required = some error) :
    ∃ requirement ∈ required, requirement.met = false ∧ requirement.error = error := by
  obtain ⟨requirement, hfind, herror⟩ := Option.map_eq_some_iff.mp h
  have hunmet := List.find?_some hfind
  exact ⟨requirement, List.mem_of_find?_eq_some hfind, (Bool.not_eq_true' _).mp hunmet, herror⟩

theorem firstUnmet_cons (requirement : Requirement) (required : List Requirement) :
    firstUnmet (requirement :: required) =
      if requirement.met then firstUnmet required else some requirement.error := by
  unfold firstUnmet
  cases hmet : requirement.met <;> simp [hmet]

/-- There is nothing to complain about when all requirements are met; the last
of the three about the length is the strongest. -/
theorem complaint_eq_none {image : List UInt8} : complaint image = none ↔
    16 ≤ image.length ∧ image.take 4 = [0x4E, 0x45, 0x53, 0x1A] ∧
      byteAt image 7 &&& 0x0C ≠ 0x08 ∧ mapperNumber image = 0 ∧
      (byteAt image 4 = 1 ∨ byteAt image 4 = 2) ∧ size image ≤ image.length := by
  simp only [complaint, firstUnmet, Option.map_eq_none_iff, List.find?_eq_none, requirements,
    List.forall_mem_cons, List.not_mem_nil, false_implies, implies_true, and_true, Bool.not_eq_true',
    Bool.not_eq_false, decide_eq_true_eq]
  simp only [size]
  constructor
  · rintro ⟨hheader, hmagic, hnes, hmapper, hbanks, -, -, hsize⟩
    exact ⟨hheader, hmagic, hnes, hmapper, hbanks, hsize⟩
  · rintro ⟨hheader, hmagic, hnes, hmapper, hbanks, hsize⟩
    exact ⟨hheader, hmagic, hnes, hmapper, hbanks, by omega, by omega, hsize⟩

end Image

/-! ### The header of an image -/

namespace Header

open Image

variable (image : List UInt8)

theorem toNat_mapper_ofImage : (ofImage image).mapper.toNat = mapperNumber image := by
  simp only [mapper, ofImage, mapperNumber, byteAt, UInt8.toNat_or, UInt8.toNat_and,
    UInt8.toNat_shiftRight]
  rfl

theorem isNes20_ofImage :
    (ofImage image).isNes20 = decide (byteAt image 7 &&& 0x0C = 0x08) :=
  forall_byte (P := fun v => decide (v &&& 0x0C = 0x08) = decide (v.toNat &&& 0x0C = 0x08))
    (by decide +kernel) (image.getD 7 0)

theorem hasTrainer_ofImage : (ofImage image).hasTrainer = (byteAt image 6).testBit 2 :=
  forall_byte (P := fun v => decide (v &&& 0x04 ≠ 0) = v.toNat.testBit 2)
    (by decide +kernel) (image.getD 6 0)

theorem battery_ofImage : (ofImage image).battery = (byteAt image 6).testBit 1 :=
  forall_byte (P := fun v => decide (v &&& 0x02 ≠ 0) = v.toNat.testBit 1)
    (by decide +kernel) (image.getD 6 0)

theorem mirroring_ofImage : (ofImage image).mirroring = arrangement (byteAt image 6) :=
  forall_byte (P := fun v =>
    (if v &&& 0x08 ≠ 0 then Mirroring.fourScreen
      else if v &&& 0x01 ≠ 0 then .vertical else .horizontal) = arrangement v.toNat)
    (by decide +kernel) (image.getD 6 0)

theorem trainerLength_ofImage : (ofImage image).trainerLength = Image.trainerSize image := by
  rw [trainerLength, hasTrainer_ofImage]
  rfl

theorem prgLength_ofImage : (ofImage image).prgLength = prgSize image := Nat.mul_comm ..

theorem chrLength_ofImage : (ofImage image).chrLength = chrSize image := Nat.mul_comm ..

theorem prgBanks_ofImage : ((ofImage image).prgBanks = 0 ∨ 2 < (ofImage image).prgBanks) ↔
    ¬ (byteAt image 4 = 1 ∨ byteAt image 4 = 2) :=
  forall_byte (P := fun v => (v = 0 ∨ 2 < v) ↔ ¬ (v.toNat = 1 ∨ v.toNat = 2))
    (by decide +kernel) (image.getD 4 0)

end Header

namespace Cartridge

open Image

/-! ### Reading -/

/-- The parts come one after the other. -/
theorem ofParts_drop {image : List UInt8} (h : 16 ≤ image.length)
    (hzero : (Header.ofImage image).mapper = 0) :
    ofParts (Header.ofImage image) (image.drop 16) =
      if image.length < 16 + trainerSize image then .error .trainerTooShort
      else if image.length < 16 + trainerSize image + prgSize image then .error .prgTooShort
      else if image.length < size image then .error .chrTooShort
      else .ok (parts image) := by
  have htrainer : image.length - 16 < trainerSize image ↔
      image.length < 16 + trainerSize image := by omega
  have hparts : parts image =
      { prg := slice image (16 + trainerSize image) (prgSize image)
        chr := slice image (16 + trainerSize image + prgSize image) (chrSize image)
        trainer := if (byteAt image 6).testBit 2 then some (slice image 16 (trainerSize image))
          else none
        mapper := 0
        mirroring := arrangement (byteAt image 6)
        battery := (byteAt image 6).testBit 1 } := by
    cases hflag : (byteAt image 6).testBit 2 <;> simp [parts, trainerSize, hflag]
  simp only [ofParts, Header.trainerLength_ofImage, Header.prgLength_ofImage,
    Header.chrLength_ofImage, Header.hasTrainer_ofImage, Header.mirroring_ofImage,
    Header.battery_ofImage, hzero, List.drop_drop, List.length_drop, htrainer]
  split
  · rfl
  rename_i hlong
  have hprg : image.length - (16 + trainerSize image) < prgSize image ↔
      image.length < 16 + trainerSize image + prgSize image := by omega
  simp only [hprg]
  split
  · rfl
  rename_i hlonger
  have hchr : image.length - (16 + trainerSize image + prgSize image) < chrSize image ↔
      image.length < size image := by
    unfold size
    omega
  simp only [hchr, hparts]
  rfl

/-- **Reading an image** gives its parts, or the error of the first requirement
that it does not meet. -/
theorem ofBytes_eq (image : List UInt8) : ofBytes image =
    match complaint image with
    | some error => .error error
    | none => .ok (parts image) := by
  have hnumber : UInt8.ofNat (mapperNumber image) = (Header.ofImage image).mapper := by
    rw [← Header.toNat_mapper_ofImage, UInt8.ofNat_toNat]
  have hcount : UInt8.ofNat (byteAt image 4) = (Header.ofImage image).prgBanks := UInt8.ofNat_toNat
  have hzero : (Header.ofImage image).mapper = 0 ↔ mapperNumber image = 0 := by
    rw [← Header.toNat_mapper_ofImage, ← UInt8.toNat_inj]
    rfl
  simp only [complaint, requirements, firstUnmet_cons, decide_eq_true_eq]
  rw [ofBytes, Header.size, Header.magic]
  -- Both sides make the same checks in the same order; they are decided one by one.
  by_cases hheader : 16 ≤ image.length
  case neg => rw [if_pos (Nat.lt_of_not_le hheader), if_neg hheader]
  rw [if_neg (Nat.not_lt.mpr hheader), if_pos hheader]
  by_cases hmagic : image.take 4 = [0x4E, 0x45, 0x53, 0x1A]
  case neg => rw [if_pos hmagic, if_neg hmagic]
  rw [if_neg (not_not_intro hmagic), if_pos hmagic]
  simp only [Header.isNes20_ofImage, decide_eq_true_eq]
  by_cases hnes : byteAt image 7 &&& 0x0C = 0x08
  case pos => rw [if_pos hnes, if_neg (not_not_intro hnes)]
  rw [if_neg hnes, if_pos hnes]
  by_cases hmapper : mapperNumber image = 0
  case neg => rw [if_pos (mt hzero.mp hmapper), if_neg hmapper, hnumber]
  rw [if_neg (not_not_intro (hzero.mpr hmapper)), if_pos hmapper]
  by_cases hbanks : byteAt image 4 = 1 ∨ byteAt image 4 = 2
  case neg => rw [if_pos ((Header.prgBanks_ofImage image).mpr hbanks), if_neg hbanks, hcount]
  rw [if_neg (mt (Header.prgBanks_ofImage image).mp (not_not_intro hbanks)), if_pos hbanks,
    ofParts_drop hheader (hzero.mpr hmapper)]
  by_cases htrainer : 16 + trainerSize image ≤ image.length
  case neg => rw [if_pos (Nat.lt_of_not_le htrainer), if_neg htrainer]
  rw [if_neg (Nat.not_lt.mpr htrainer), if_pos htrainer]
  by_cases hprg : 16 + trainerSize image + prgSize image ≤ image.length
  case neg => rw [if_pos (Nat.lt_of_not_le hprg), if_neg hprg]
  rw [if_neg (Nat.not_lt.mpr hprg), if_pos hprg]
  by_cases hchr : size image ≤ image.length
  case neg => rw [if_pos (Nat.lt_of_not_le hchr), if_neg hchr]
  rw [if_neg (Nat.not_lt.mpr hchr), if_pos hchr]
  rfl

/-- The numbers in errors are those in the header. -/
theorem complaint_numbers (image : List UInt8) :
    (∀ number, complaint image = some (.unsupportedMapper number) →
      number.toNat = mapperNumber image) ∧
    ∀ count, complaint image = some (.prgBankCount count) → count.toNat = byteAt image 4 := by
  have hnumber : (UInt8.ofNat (mapperNumber image)).toNat = mapperNumber image := by
    rw [← Header.toNat_mapper_ofImage, UInt8.ofNat_toNat]
  have hcount : (UInt8.ofNat (byteAt image 4)).toNat = byteAt image 4 :=
    congrArg UInt8.toNat UInt8.ofNat_toNat
  have hall : ∀ requirement ∈ requirements image,
      (∀ number, requirement.error = .unsupportedMapper number →
        number.toNat = mapperNumber image) ∧
      ∀ count, requirement.error = .prgBankCount count → count.toNat = byteAt image 4 := by
    simp [requirements, hnumber, hcount]
  refine ⟨fun number h => ?_, fun count h => ?_⟩
  · obtain ⟨requirement, hmem, -, herror⟩ := exists_of_firstUnmet h
    exact (hall requirement hmem).1 number herror
  · obtain ⟨requirement, hmem, -, herror⟩ := exists_of_firstUnmet h
    exact (hall requirement hmem).2 count herror

/-- An image is accepted when nothing is wrong with it. -/
theorem ofBytes_eq_ok {image : List UInt8} {c : Cartridge} :
    ofBytes image = .ok c ↔ complaint image = none ∧ parts image = c := by
  rw [ofBytes_eq]
  cases complaint image <;> simp

theorem ofBytes_eq_error {image : List UInt8} {error : ImageError} :
    ofBytes image = .error error ↔ complaint image = some error := by
  rw [ofBytes_eq]
  cases complaint image <;> simp

end Cartridge

namespace Image

/-! ### Slices -/

/-- What comes in the middle is found by what comes before it. -/
theorem slice_append {before part after : List UInt8} {place length : Nat}
    (hplace : before.length = place) (hlength : part.length = length) :
    slice (before ++ (part ++ after)) place length = part := by
  rw [slice, List.drop_left' hplace, List.take_left' hlength]

theorem slice_drop (image : List UInt8) (place length : Nat) :
    slice image place length ++ image.drop (place + length) = image.drop place := by
  rw [slice, ← List.drop_drop, List.take_append_drop]

theorem length_slice {image : List UInt8} {place length : Nat} (h : place + length ≤ image.length) :
    (slice image place length).length = length := by
  rw [slice, List.length_take, List.length_drop]
  omega

/-! ### Bytes that do not count -/

variable {first second : List UInt8} {n : Nat}

theorem byteAt_congr (h : first.take n = second.take n) {place : Nat} (hplace : place < n) :
    byteAt first place = byteAt second place := by
  unfold byteAt
  rw [List.getD_eq_getElem?_getD, List.getD_eq_getElem?_getD, ← List.getElem?_take_of_lt hplace, h,
    List.getElem?_take_of_lt hplace]

theorem slice_congr (h : first.take n = second.take n) {place length : Nat}
    (hplace : place + length ≤ n) : slice first place length = slice second place length := by
  have hwithin (image : List UInt8) :
      slice image place length = ((image.take n).drop place).take length := by
    rw [slice, List.drop_take, List.take_take, Nat.min_eq_left (by omega)]
  rw [hwithin, hwithin, h]

/-- The header decides how long every part is. -/
theorem sizes_congr (h : first.take 8 = second.take 8) :
    trainerSize first = trainerSize second ∧ prgSize first = prgSize second ∧
      chrSize first = chrSize second := by
  simp only [trainerSize, prgSize, chrSize, byteAt_congr h (show 6 < 8 by decide),
    byteAt_congr h (show 4 < 8 by decide), byteAt_congr h (show 5 < 8 by decide), and_self]

theorem take_four_congr (h : first.take 8 = second.take 8) : first.take 4 = second.take 4 := by
  simpa only [List.take_take, Nat.min_eq_left (show 4 ≤ 8 by decide)] using
    congrArg (List.take 4) h

/-- Apart from its length, the first eight bytes of an image decide what is
wrong with it. -/
theorem complaint_congr (h : first.take 8 = second.take 8) (hlength : first.length = second.length) :
    complaint first = complaint second := by
  obtain ⟨htrainer, hprg, hchr⟩ := sizes_congr h
  unfold complaint requirements mapperNumber size
  rw [htrainer, hprg, hchr, take_four_congr h, hlength, byteAt_congr h (show 4 < 8 by decide),
    byteAt_congr h (show 6 < 8 by decide), byteAt_congr h (show 7 < 8 by decide)]

/-- What an image holds is decided by its first eight bytes and by the bytes that
its parts take up. -/
theorem parts_congr (hheader : first.take 8 = second.take 8)
    (hbody : slice first 16 (size first - 16) = slice second 16 (size first - 16)) :
    parts first = parts second := by
  obtain ⟨htrainer, hprg, hchr⟩ := sizes_congr hheader
  have hflags : byteAt first 6 = byteAt second 6 := byteAt_congr hheader (by decide)
  have hwhole : size first = 16 + trainerSize first + prgSize first + chrSize first := rfl
  have hslice {place length : Nat} (hafter : 16 ≤ place) (hwithin : place + length ≤ size first) :
      slice first place length = slice second place length := by
    have h := slice_congr hbody (show place - 16 + length ≤ size first - 16 by omega)
    simpa only [slice, List.drop_drop, show 16 + (place - 16) = place by omega] using h
  have hprgSlice := hslice (show 16 ≤ 16 + trainerSize first by omega)
    (show 16 + trainerSize first + prgSize first ≤ size first by omega)
  have hchrSlice := hslice (show 16 ≤ 16 + trainerSize first + prgSize first by omega)
    (Nat.le_of_eq hwhole.symm)
  have htrainerSlice (h : (byteAt first 6).testBit 2 = true) :
      slice first 16 512 = slice second 16 512 := by
    have h512 : trainerSize first = 512 := if_pos h
    exact hslice (Nat.le_refl 16) (by omega)
  unfold parts
  rw [← hflags, ← htrainer, ← hprg, ← hchr, hprgSlice, hchrSlice]
  cases h : (byteAt first 6).testBit 2 with
  | false => rfl
  | true => rw [htrainerSlice h]

/-- Nothing is wrong with an image that keeps the bytes which count. -/
theorem complaint_eq_none_congr (hheader : first.take 8 = second.take 8)
    (hbody : slice first 16 (size first - 16) = slice second 16 (size first - 16))
    (h : complaint first = none) : complaint second = none := by
  obtain ⟨hlong, hmagic, hnes, hmapper, hbanks, hsize⟩ := complaint_eq_none.mp h
  obtain ⟨htrainer, hprg, hchr⟩ := sizes_congr hheader
  have hmagic' : first.take 4 = second.take 4 := take_four_congr hheader
  have hsame : size first = size second := by
    unfold size
    rw [htrainer, hprg, hchr]
  have hpos : 16384 ≤ prgSize first := by
    unfold prgSize
    omega
  have hwhole : size first = 16 + trainerSize first + prgSize first + chrSize first := rfl
  -- The second image has the bytes of the parts, so it is long enough for them.
  have hlength := congrArg List.length hbody
  simp only [slice, List.length_take, List.length_drop] at hlength
  unfold mapperNumber at hmapper
  rw [byteAt_congr hheader (by decide : 4 < 8)] at hbanks
  rw [byteAt_congr hheader (by decide : 7 < 8)] at hnes hmapper
  rw [byteAt_congr hheader (by decide : 6 < 8)] at hmapper
  exact complaint_eq_none.mpr ⟨by omega, hmagic' ▸ hmagic, hnes, hmapper, hbanks, by omega⟩

end Image

namespace Cartridge

open Image

/-- **Bytes that do not count.** What comes of an accepted image is decided by
its first eight bytes and by those its parts take up. -/
theorem ofBytes_congr {first second : List UInt8} {c : Cartridge}
    (hheader : first.take 8 = second.take 8)
    (hbody : slice first 16 (size first - 16) = slice second 16 (size first - 16))
    (h : ofBytes first = .ok c) : ofBytes second = .ok c := by
  obtain ⟨hnone, hparts⟩ := ofBytes_eq_ok.mp h
  exact ofBytes_eq_ok.mpr
    ⟨complaint_eq_none_congr hheader hbody hnone, (parts_congr hheader hbody).symm.trans hparts⟩

/-- The last eight bytes of the header do not count, whatever comes of the
image. -/
theorem ofBytes_reserved {image reserved : List UInt8} (hlong : 16 ≤ image.length)
    (hreserved : reserved.length = 8) :
    ofBytes (image.take 8 ++ reserved ++ image.drop 16) = ofBytes image := by
  have hstart : (image.take 8).length = 8 := by
    rw [List.length_take]
    omega
  have hheader : (image.take 8 ++ reserved ++ image.drop 16).take 8 = image.take 8 := by
    rw [List.append_assoc, List.take_left' hstart]
  have hlength : (image.take 8 ++ reserved ++ image.drop 16).length = image.length := by
    rw [List.length_append, List.length_append, List.length_drop]
    omega
  have hbody : (image.take 8 ++ reserved ++ image.drop 16).drop 16 = image.drop 16 :=
    List.drop_left' (by rw [List.length_append]; omega)
  rw [ofBytes_eq, ofBytes_eq, complaint_congr hheader hlength,
    parts_congr hheader (congrArg (List.take _) hbody)]

/-- The bytes of an accepted image that do not count may be any. -/
theorem ofBytes_spare {image reserved : List UInt8} {c : Cartridge} (h : ofBytes image = .ok c)
    (hreserved : reserved.length = 8) (suffix : List UInt8) :
    ofBytes (image.take 8 ++ reserved ++ slice image 16 (size image - 16) ++ suffix) = .ok c := by
  obtain ⟨hlong, -, -, -, -, hsize⟩ := complaint_eq_none.mp (ofBytes_eq_ok.mp h).1
  have hstart : (image.take 8).length = 8 := by
    rw [List.length_take]
    omega
  rw [List.append_assoc]
  refine ofBytes_congr ?_ ?_ h
  · rw [List.append_assoc, List.take_left' hstart]
  · exact (slice_append (by rw [List.length_append]; omega) (length_slice (by omega))).symm

/-! ### Laying out a cartridge -/

/-- What the parts of a cartridge have to be for an image to hold it. -/
structure Fits (c : Cartridge) : Prop where
  prg : c.prg.length = 16384 ∨ c.prg.length = 32768
  chr : ∃ units < 256, c.chr.length = 8192 * units
  trainer : ∀ bytes, c.trainer = some bytes → bytes.length = 512
  mapper : c.mapper = 0

/-- Byte 6 of the header. With four screens its bit 0 is free. -/
def flags6 (mirroring : Mirroring) (battery trainer free : Bool) : UInt8 :=
  (match mirroring with
    | .horizontal => 0x00
    | .vertical => 0x01
    | .fourScreen => if free then 0x09 else 0x08) |||
  (if battery then 0x02 else 0x00) ||| (if trainer then 0x04 else 0x00)

/-- Byte 7 of a header of the old format for mapper 0. -/
def PlainFlags7 (flags7 : UInt8) : Prop := flags7.toNat &&& 0xF0 = 0 ∧ flags7.toNat &&& 0x0C ≠ 0x08

/-- The part of the header that counts. -/
def header (c : Cartridge) (free : Bool) (flags7 : UInt8) : List UInt8 :=
  [0x4E, 0x45, 0x53, 0x1A, UInt8.ofNat (c.prg.length / 16384), UInt8.ofNat (c.chr.length / 8192),
    flags6 c.mirroring c.battery c.trainer.isSome free, flags7]

/-- An image of the cartridge, with something in the part of the header that
does not count, and something after the parts. -/
def layout (c : Cartridge) (free : Bool) (flags7 : UInt8) (reserved suffix : List UInt8) :
    List UInt8 :=
  c.header free flags7 ++ reserved ++ (c.trainer.getD [] ++ (c.prg ++ (c.chr ++ suffix)))

/-- Byte 6 tells what it was made of, and nothing of a mapper. -/
theorem flags6_bits (mirroring : Mirroring) (battery trainer free : Bool) :
    (flags6 mirroring battery trainer free).toNat >>> 4 = 0 ∧
      (flags6 mirroring battery trainer free).toNat.testBit 1 = battery ∧
      (flags6 mirroring battery trainer free).toNat.testBit 2 = trainer ∧
      arrangement (flags6 mirroring battery trainer free).toNat = mirroring := by
  cases mirroring <;> revert battery trainer free <;> decide +kernel

/-- And it is made of what it tells. -/
theorem flags6_of_bits {v : UInt8} (h : v.toNat >>> 4 = 0) :
    flags6 (arrangement v.toNat) (v.toNat.testBit 1) (v.toNat.testBit 2) (v.toNat.testBit 0) = v :=
  forall_byte (P := fun v => v.toNat >>> 4 = 0 →
    flags6 (arrangement v.toNat) (v.toNat.testBit 1) (v.toNat.testBit 2) (v.toNat.testBit 0) = v)
    (by decide +kernel) v h

section Layout

variable {c : Cartridge} {free : Bool} {flags7 : UInt8} {reserved suffix : List UInt8}

theorem prgSize_layout (h : c.Fits) :
    prgSize (c.layout free flags7 reserved suffix) = c.prg.length := by
  have hbyte : byteAt (c.layout free flags7 reserved suffix) 4 =
    (UInt8.ofNat (c.prg.length / 16384)).toNat := rfl
  rw [prgSize, hbyte]
  rcases h.prg with hone | htwo
  · rw [hone]; rfl
  · rw [htwo]; rfl

theorem chrSize_layout (h : c.Fits) :
    chrSize (c.layout free flags7 reserved suffix) = c.chr.length := by
  have hbyte : byteAt (c.layout free flags7 reserved suffix) 5 =
    (UInt8.ofNat (c.chr.length / 8192)).toNat := rfl
  obtain ⟨units, hunits, hchr⟩ := h.chr
  rw [chrSize, hbyte, hchr, Nat.mul_div_cancel_left _ (by decide), UInt8.toNat_ofNat_of_lt' hunits]

theorem byteAt_layout_six : byteAt (c.layout free flags7 reserved suffix) 6 =
    (flags6 c.mirroring c.battery c.trainer.isSome free).toNat := rfl

theorem trainerSize_layout (h : c.Fits) :
    trainerSize (c.layout free flags7 reserved suffix) = (c.trainer.getD []).length := by
  obtain ⟨-, -, hbit, -⟩ := flags6_bits c.mirroring c.battery c.trainer.isSome free
  rw [trainerSize, byteAt_layout_six, hbit]
  cases ht : c.trainer with
  | none => rfl
  | some bytes => exact (h.trainer bytes ht).symm

/-- A cartridge is what is read from its layout. -/
theorem parts_layout (h : c.Fits) (hreserved : reserved.length = 8) :
    parts (c.layout free flags7 reserved suffix) = c := by
  obtain ⟨-, hbattery, htrainer, hmirroring⟩ :=
    flags6_bits c.mirroring c.battery c.trainer.isSome free
  have hstart : (c.header free flags7 ++ reserved).length = 16 := by
    rw [List.length_append, hreserved]
    rfl
  have hprgStart : (c.header free flags7 ++ reserved ++ c.trainer.getD []).length =
      16 + (c.trainer.getD []).length := by rw [List.length_append, hstart]
  have hprg : slice (c.layout free flags7 reserved suffix) (16 + (c.trainer.getD []).length)
      c.prg.length = c.prg := by
    rw [layout, ← List.append_assoc]
    exact slice_append hprgStart rfl
  have hchr : slice (c.layout free flags7 reserved suffix)
      (16 + (c.trainer.getD []).length + c.prg.length) c.chr.length = c.chr := by
    rw [layout, ← List.append_assoc, ← List.append_assoc]
    exact slice_append (by rw [List.length_append, hprgStart]) rfl
  have htrainerPart : (if c.trainer.isSome then
      some (slice (c.layout free flags7 reserved suffix) 16 512) else none) = c.trainer := by
    cases ht : c.trainer with
    | none => rfl
    | some bytes =>
      have hbytes : slice (c.layout free flags7 reserved suffix) 16 512 = bytes := by
        rw [layout, ht]
        exact slice_append hstart (h.trainer bytes ht)
      exact congrArg some hbytes
  rw [parts, prgSize_layout h, chrSize_layout h, trainerSize_layout h, hprg, hchr,
    byteAt_layout_six, htrainer, hbattery, hmirroring, htrainerPart, ← h.mapper]

theorem length_layout (hreserved : reserved.length = 8) :
    (c.layout free flags7 reserved suffix).length =
      16 + (c.trainer.getD []).length + c.prg.length + c.chr.length + suffix.length := by
  have hheader : (c.header free flags7).length = 8 := rfl
  simp only [layout, List.length_append, hheader, hreserved]
  omega

/-- **Reading what is laid out** gives the cartridge. -/
theorem ofBytes_layout (h : c.Fits) (hflags : PlainFlags7 flags7) (hreserved : reserved.length = 8) :
    ofBytes (c.layout free flags7 reserved suffix) = .ok c := by
  have hlength : (c.layout free flags7 reserved suffix).length = _ := length_layout hreserved
  have hsize : size (c.layout free flags7 reserved suffix) =
      16 + (c.trainer.getD []).length + c.prg.length + c.chr.length := by
    rw [size, trainerSize_layout h, prgSize_layout h, chrSize_layout h]
  have hbanks : prgSize (c.layout free flags7 reserved suffix) = _ := prgSize_layout h
  obtain ⟨hmapper, -, -, -⟩ := flags6_bits c.mirroring c.battery c.trainer.isSome free
  have hzero : mapperNumber (c.layout free flags7 reserved suffix) = 0 := by
    rw [mapperNumber, byteAt_layout_six, hmapper]
    exact (Nat.or_zero _).trans hflags.1
  have hcount : byteAt (c.layout free flags7 reserved suffix) 4 = 1 ∨
      byteAt (c.layout free flags7 reserved suffix) 4 = 2 := by
    unfold prgSize at hbanks
    have := h.prg
    omega
  exact ofBytes_eq_ok.mpr ⟨complaint_eq_none.mpr
    ⟨by omega, rfl, hflags.2, hzero, hcount, by omega⟩, parts_layout h hreserved⟩

end Layout

/-! ### Every accepted image is a layout -/

theorem take_succ_eq {image : List UInt8} {n : Nat} (h : n < image.length) :
    image.take (n + 1) = image.take n ++ [image.getD n 0] := by
  rw [List.take_add_one, List.getD_eq_getElem?_getD, List.getElem?_eq_getElem h]
  rfl

/-- The parts of an accepted image are of the right sizes. -/
theorem fits_parts {image : List UInt8} (h : complaint image = none) : (parts image).Fits := by
  obtain ⟨-, -, -, -, hbanks, hsize⟩ := complaint_eq_none.mp h
  have hwhole : size image = 16 + trainerSize image + prgSize image + chrSize image := rfl
  exact
    { prg := by
        have hlength : (parts image).prg.length = prgSize image := length_slice (by omega)
        unfold prgSize at hlength
        omega
      chr := ⟨byteAt image 5, UInt8.toNat_lt _, length_slice (by omega)⟩
      trainer := fun bytes hbytes => by
        cases hflag : (byteAt image 6).testBit 2 with
        | false => simp [parts, hflag] at hbytes
        | true =>
          have h512 : trainerSize image = 512 := if_pos hflag
          simp only [parts, hflag, ↓reduceIte, Option.some.injEq] at hbytes
          exact hbytes ▸ length_slice (by omega)
      mapper := rfl }

/-- The first bytes of an accepted image are a header of its parts. -/
theorem header_parts {image : List UInt8} (h : complaint image = none) :
    (parts image).header ((byteAt image 6).testBit 0) (image.getD 7 0) = image.take 8 := by
  obtain ⟨hlong, hmagic, -, hmapper, -, hsize⟩ := complaint_eq_none.mp h
  have hwhole : size image = 16 + trainerSize image + prgSize image + chrSize image := rfl
  have hprg : (parts image).prg.length = 16384 * byteAt image 4 := length_slice (by omega)
  have hchr : (parts image).chr.length = 8192 * byteAt image 5 := length_slice (by omega)
  have htrainer : (parts image).trainer.isSome = (byteAt image 6).testBit 2 := by
    cases hflag : (byteAt image 6).testBit 2 <;> simp [parts, hflag]
  have hlow : byteAt image 6 >>> 4 = 0 := (Nat.or_eq_zero_iff.mp hmapper).2
  rw [header, hprg, hchr, htrainer, Nat.mul_div_cancel_left _ (by decide),
    Nat.mul_div_cancel_left _ (by decide), take_succ_eq (show 7 < image.length by omega),
    take_succ_eq (show 6 < image.length by omega), take_succ_eq (show 5 < image.length by omega),
    take_succ_eq (show 4 < image.length by omega), hmagic]
  have hflags : flags6 (parts image).mirroring (parts image).battery ((byteAt image 6).testBit 2)
      ((byteAt image 6).testBit 0) = image.getD 6 0 := flags6_of_bits hlow
  rw [hflags]
  simp only [byteAt, UInt8.ofNat_toNat, List.cons_append, List.nil_append]

/-- **Every accepted image is a layout** of the cartridge that is read from it. -/
theorem exists_layout {image : List UInt8} {c : Cartridge} (h : ofBytes image = .ok c) :
    c.Fits ∧ ∃ free flags7 reserved suffix, PlainFlags7 flags7 ∧ reserved.length = 8 ∧
      image = c.layout free flags7 reserved suffix := by
  obtain ⟨hnone, rfl⟩ := ofBytes_eq_ok.mp h
  obtain ⟨hlong, -, hnes, hmapper, -, hsize⟩ := complaint_eq_none.mp hnone
  have hhigh : byteAt image 7 &&& 0xF0 = 0 := (Nat.or_eq_zero_iff.mp hmapper).1
  have htrainer : (parts image).trainer.getD [] = slice image 16 (trainerSize image) := by
    cases hflag : (byteAt image 6).testBit 2 <;> simp [parts, trainerSize, hflag, slice]
  refine ⟨fits_parts hnone, (byteAt image 6).testBit 0, image.getD 7 0, slice image 8 8,
    image.drop (size image), ⟨hhigh, hnes⟩, length_slice hlong, ?_⟩
  calc image
      = image.take 8 ++ (slice image 8 8 ++ image.drop 16) := by
        rw [slice_drop, List.take_append_drop]
    _ = image.take 8 ++ (slice image 8 8 ++ (slice image 16 (trainerSize image) ++
          ((parts image).prg ++ ((parts image).chr ++ image.drop (size image))))) := by
        rw [show (parts image).chr ++ image.drop (size image) =
            image.drop (16 + trainerSize image + prgSize image) from slice_drop ..,
          show (parts image).prg ++ image.drop (16 + trainerSize image + prgSize image) =
            image.drop (16 + trainerSize image) from slice_drop ..,
          slice_drop image 16 (trainerSize image)]
    _ = (parts image).layout ((byteAt image 6).testBit 0) (image.getD 7 0) (slice image 8 8)
          (image.drop (size image)) := by
        rw [layout, header_parts hnone, htrainer, List.append_assoc]

/-- What every image holds is of the sizes that an image can announce. -/
theorem fits_of_ofBytes {image : List UInt8} {c : Cartridge} (h : ofBytes image = .ok c) : c.Fits :=
  (exists_layout h).1

/-! ### The format -/

/-- **Images are accepted exactly as the format says.** An image is accepted if
and only if it is long enough for its header, begins with the magic bytes, is
not of the newer format, is for mapper 0, has one or two banks of program ROM,
and is as long as its parts take up. Then these are its parts, whatever the last
eight bytes of the header are and whatever comes after the parts. Another image
gives the error of the first requirement that it does not meet, with the number
that the header has. And a cartridge whose parts have sizes that an image can
announce is read back from every layout. -/
theorem ofBytes_format :
    (∀ image,
      ((∃ c, ofBytes image = .ok c) ↔
        16 ≤ image.length ∧ image.take 4 = [0x4E, 0x45, 0x53, 0x1A] ∧
          byteAt image 7 &&& 0x0C ≠ 0x08 ∧
          (byteAt image 7 &&& 0xF0) ||| (byteAt image 6 >>> 4) = 0 ∧
          (byteAt image 4 = 1 ∨ byteAt image 4 = 2) ∧
          16 + trainerSize image + 16384 * byteAt image 4 + 8192 * byteAt image 5 ≤ image.length) ∧
      (∀ c, ofBytes image = .ok c → c = parts image ∧
        ∀ reserved suffix, reserved.length = 8 →
          ofBytes (image.take 8 ++ reserved ++ slice image 16 (size image - 16) ++ suffix) = .ok c) ∧
      (∀ error, ofBytes image = .error error ↔ complaint image = some error) ∧
      (∀ number, ofBytes image = .error (.unsupportedMapper number) →
        number.toNat = mapperNumber image) ∧
      (∀ count, ofBytes image = .error (.prgBankCount count) → count.toNat = byteAt image 4) ∧
      ∀ reserved, 16 ≤ image.length → reserved.length = 8 →
        ofBytes (image.take 8 ++ reserved ++ image.drop 16) = ofBytes image) ∧
    ∀ (c : Cartridge) (free : Bool) (flags7 : UInt8) (reserved suffix : List UInt8), c.Fits →
      PlainFlags7 flags7 → reserved.length = 8 →
        ofBytes (c.layout free flags7 reserved suffix) = .ok c := by
  refine ⟨fun image => ⟨?_, fun c hc => ⟨(ofBytes_eq_ok.mp hc).2.symm,
      fun reserved suffix hreserved => ofBytes_spare hc hreserved suffix⟩,
    fun error => ofBytes_eq_error,
    fun number h => (complaint_numbers image).1 number (ofBytes_eq_error.mp h),
    fun count h => (complaint_numbers image).2 count (ofBytes_eq_error.mp h),
    fun reserved hlong hreserved => ofBytes_reserved hlong hreserved⟩,
    fun c free flags7 reserved suffix hfits hflags hreserved =>
      ofBytes_layout hfits hflags hreserved⟩
  simp only [ofBytes_eq_ok, exists_and_left, exists_eq', and_true, complaint_eq_none]
  rfl

/-- A cartridge with every part, in an image with something in every place that
does not count. -/
theorem ofBytes_format_full : ∃ c : Cartridge, c.trainer.isSome = true ∧ c.chr.length = 8192 ∧
    ofBytes (c.layout true 0x05 (List.replicate 8 0xFF) [0x00, 0x01]) = .ok c := by
  let c : Cartridge := ⟨List.replicate 32768 0xEA, List.replicate 8192 0x55,
    some (List.replicate 512 0x5A), 0, .fourScreen, true⟩
  have hfits : c.Fits :=
    { prg := .inr List.length_replicate
      chr := ⟨1, by decide, List.length_replicate⟩
      trainer := fun bytes hbytes => by
        cases hbytes
        exact List.length_replicate
      mapper := rfl }
  exact ⟨c, rfl, List.length_replicate,
    ofBytes_format.2 c true 0x05 (List.replicate 8 0xFF) [0x00, 0x01] hfits
      ⟨by decide, by decide⟩ rfl⟩

/-- The mapper number is checked before the number of banks, and has digits in
two bytes. -/
example : complaint [0x4E, 0x45, 0x53, 0x1A, 3, 0, 0x10, 0x40, 0, 0, 0, 0, 0, 0, 0, 0] =
    some (.unsupportedMapper 0x41) := by
  decide +kernel

end Cartridge

end Cpu6502
