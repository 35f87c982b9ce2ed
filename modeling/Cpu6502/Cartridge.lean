/-
# NROM cartridges

An iNES image holds a 16-byte header, an optional 512-byte trainer, the
program ROM in banks of 16 KiB and the graphics ROM in banks of 8 KiB. Only
mapper 0 (NROM) is accepted, with one or two program banks; images in the
NES 2.0 format are refused. `Cartridge.ofBytes` reports the first thing that
is wrong with an image, in the order of the constructors of `ImageError`.

Installing a cartridge selects the NROM memory map and copies the program
ROM, and the trainer if there is one, past the write protection.

Key definitions: `Header`, `ImageError`, `Cartridge.ofBytes`,
`Cartridge.install`.
-/
import Cpu6502.Bus

namespace Cpu6502

/-- How the picture memory is arranged. -/
inductive Mirroring
  | horizontal
  | vertical
  | fourScreen
  deriving DecidableEq

/-- Why an image is refused. -/
inductive ImageError
  /-- The file that should hold the image cannot be read. -/
  | unreadable
  | headerTooShort
  | badMagic
  /-- The image is in the newer NES 2.0 format. -/
  | nes20
  | unsupportedMapper (number : UInt8)
  | prgBankCount (count : UInt8)
  | trainerTooShort
  | prgTooShort
  | chrTooShort
  deriving DecidableEq

/-- The text that tells a user why. -/
def ImageError.message : ImageError → String
  | unreadable => "Failed to read iNES file"
  | headerTooShort => "Data too small for iNES header"
  | badMagic => "Invalid iNES header magic (expected NES<1A>)"
  | nes20 => "NES 2.0 format is not supported"
  | unsupportedMapper number => "Unsupported mapper id: " ++ toString number.toNat
  | prgBankCount count =>
    "NROM expects 1 or 2 PRG banks of 16 KiB, header says " ++ toString count.toNat
  | trainerTooShort => "Data too small for iNES trainer"
  | prgTooShort => "Data too small for PRG ROM"
  | chrTooShort => "Data too small for CHR ROM"

/-- The header bytes that say something about a cartridge. -/
structure Header where
  prgBanks : UInt8
  chrBanks : UInt8
  flags6 : UInt8
  flags7 : UInt8
  deriving DecidableEq

namespace Header

/-- The bytes every image starts with: `NES` and an end-of-file mark. -/
def magic : List UInt8 := [0x4E, 0x45, 0x53, 0x1A]

/-- The length of the header. -/
def size : Nat := 16

/-- The length of a trainer. -/
def trainerSize : Nat := 512

/-- The length of a bank of program ROM. -/
def prgBankSize : Nat := 16384

/-- The length of a bank of graphics ROM. -/
def chrBankSize : Nat := 8192

/-- Bytes 4 to 7 of an image. -/
def ofImage (image : List UInt8) : Header :=
  ⟨image.getD 4 0, image.getD 5 0, image.getD 6 0, image.getD 7 0⟩

/-- The header is of the newer format. -/
def isNes20 (h : Header) : Bool := decide (h.flags7 &&& 0x0C = 0x08)

/-- The mapper number: its high digit is in byte 7, its low one in byte 6. -/
def mapper (h : Header) : UInt8 := h.flags7 &&& (0xF0 : UInt8) ||| h.flags6 >>> (4 : UInt8)

/-- A trainer comes before the program ROM. -/
def hasTrainer (h : Header) : Bool := decide (h.flags6 &&& 0x04 ≠ 0)

/-- The board keeps some memory alive by a battery. -/
def battery (h : Header) : Bool := decide (h.flags6 &&& 0x02 ≠ 0)

/-- Four screens win over the two-screen arrangements. -/
def mirroring (h : Header) : Mirroring :=
  if h.flags6 &&& 0x08 ≠ 0 then .fourScreen
  else if h.flags6 &&& 0x01 ≠ 0 then .vertical
  else .horizontal

/-- The bytes of trainer between header and program ROM. -/
def trainerLength (h : Header) : Nat := if h.hasTrainer then trainerSize else 0

/-- The bytes of program ROM. -/
def prgLength (h : Header) : Nat := h.prgBanks.toNat * prgBankSize

/-- The bytes of graphics ROM. -/
def chrLength (h : Header) : Nat := h.chrBanks.toNat * chrBankSize

end Header

/-- The parts of an accepted image. -/
structure Cartridge where
  prg : List UInt8
  chr : List UInt8
  trainer : Option (List UInt8)
  mapper : UInt8
  mirroring : Mirroring
  battery : Bool
  deriving DecidableEq

namespace Cartridge

/-- The address the trainer is copied to. -/
def trainerBase : Address := 0x7000

/-- Cuts the parts that a header announces out of what follows it. -/
def ofParts (h : Header) (body : List UInt8) : Except ImageError Cartridge :=
  if body.length < h.trainerLength then .error .trainerTooShort
  else
    let afterTrainer := body.drop h.trainerLength
    if afterTrainer.length < h.prgLength then .error .prgTooShort
    else
      let afterPrg := afterTrainer.drop h.prgLength
      if afterPrg.length < h.chrLength then .error .chrTooShort
      else .ok {
        prg := afterTrainer.take h.prgLength
        chr := afterPrg.take h.chrLength
        trainer := if h.hasTrainer then some (body.take h.trainerLength) else none
        mapper := h.mapper
        mirroring := h.mirroring
        battery := h.battery }

/-- Reads an iNES image. -/
def ofBytes (image : List UInt8) : Except ImageError Cartridge :=
  if image.length < Header.size then .error .headerTooShort
  else if image.take 4 ≠ Header.magic then .error .badMagic
  else
    let h := Header.ofImage image
    if h.isNes20 then .error .nes20
    else if h.mapper ≠ 0 then .error (.unsupportedMapper h.mapper)
    else if h.prgBanks = 0 ∨ 2 < h.prgBanks then .error (.prgBankCount h.prgBanks)
    else ofParts h (image.drop Header.size)

/-- Reads the image in a file whose contents are given, or `none` when the
file cannot be read. -/
def ofFile : Option (List UInt8) → Except ImageError Cartridge
  | none => .error .unreadable
  | some image => ofBytes image

/-- Puts the cartridge into the bus: its memory map, the program ROM from
slot `$8000` on, and the trainer. -/
def install (c : Cartridge) (bus : Bus) : Bus :=
  let bus := bus.setMapping (Nrom.ofSize c.prg.length).toMapping
  let bus := bus.loadSlots Nrom.prgBase c.prg
  match c.trainer with
  | none => bus
  | some bytes => bus.load trainerBase bytes

/-- How the arrangement is written in a summary. -/
def mirroringName : Mirroring → String
  | .horizontal => "Horizontal"
  | .vertical => "Vertical"
  | .fourScreen => "FourScreen"

/-- One line about the cartridge, without its bytes. -/
def summary (c : Cartridge) : String :=
  "Cartridge \x7b mapper_id: " ++ toString c.mapper.toNat ++
    ", mirroring: " ++ mirroringName c.mirroring ++
    ", battery: " ++ toString c.battery ++
    ", has_trainer: " ++ toString c.trainer.isSome ++
    ", prg_rom_len: " ++ toString c.prg.length ++
    ", chr_rom_len: " ++ toString c.chr.length ++ " \x7d"

end Cartridge
end Cpu6502
