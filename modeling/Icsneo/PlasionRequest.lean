import Icsneo.Communication

/-! The request half of `PlasionDiskReadDriver::readLogicalDiskAligned`: the checks made
before any I/O, the translation of the offset to a sector and the seven-byte command frame. -/

namespace Icsneo.Disk

/-- The value of a run of bytes read little-endian. -/
def leValue : List UInt8 → Nat
  | [] => 0
  | b :: bs => b.toNat + 256 * leValue bs

/-- The constants the read uses that the sources do not define: `SectorSize`, the 32-bit pair
`getBlockSizeBounds()` (granularity, largest block) and the opcode `HostPC_from_SDCC1`. The read
divides by the first two, so they are positive. -/
structure PlasionDiskReadDriver where
  SectorSize : Nat
  getBlockSizeBounds : Nat × Nat
  HostPC_from_SDCC1 : UInt8
  sectorSize_pos : 0 < SectorSize
  granularity_pos : 0 < getBlockSizeBounds.1
  maxBlock_lt : getBlockSizeBounds.2 < 2^32

namespace PlasionDiskReadDriver

/-- A driver whose sectors and granularity are both `sectorSize` bytes, with blocks of at most
`maxBlock` bytes, sending opcode `op`. -/
def sectorDriver (op : UInt8) (sectorSize maxBlock : Nat) (h₀ : 0 < sectorSize)
    (h : maxBlock < 2^32) : PlasionDiskReadDriver :=
  ⟨sectorSize, (sectorSize, maxBlock), op, h₀, h₀, h⟩

variable (d : PlasionDiskReadDriver)

/-- Lines 13–25 of `readLogicalDiskAligned`: `some sector` when the request passes every
check, with `sector = uint32_t(pos / SectorSize)`. -/
def checkRequest (pos amount : Nat) : Option Nat :=
  if amount > d.getBlockSizeBounds.2 then none
  else if amount % d.getBlockSizeBounds.1 != 0 then none
  else if pos % d.getBlockSizeBounds.1 != 0 then none
  else
    let largeSector := pos / d.SectorSize
    let sector := largeSector % 2^32
    if largeSector != sector then none else some sector

/-- The requests the read goes ahead with. -/
def Admits (pos amount : Nat) : Prop :=
  amount ≤ d.getBlockSizeBounds.2 ∧ d.getBlockSizeBounds.1 ∣ amount ∧
    d.getBlockSizeBounds.1 ∣ pos ∧ pos / d.SectorSize < 2^32

instance (pos amount : Nat) : Decidable (d.Admits pos amount) :=
  inferInstanceAs (Decidable (_ ∧ _ ∧ _ ∧ _))

theorem checkRequest_eq_some {pos amount sector : Nat} :
    d.checkRequest pos amount = some sector ↔
      d.Admits pos amount ∧ sector = pos / d.SectorSize := by
  simp only [checkRequest, Admits, Nat.dvd_iff_mod_eq_zero, bne_iff_ne, ne_eq]
  split_ifs <;> simp only [Option.some.injEq, reduceCtorEq, false_iff, not_and, not_lt] <;>
    omega

theorem checkRequest_eq_none {pos amount : Nat} :
    d.checkRequest pos amount = none ↔ ¬ d.Admits pos amount := by
  cases h : d.checkRequest pos amount with
  | none => simpa using fun ha => (d.checkRequest_eq_some.mpr ⟨ha, rfl⟩).symm.trans h
  | some s => simpa using (d.checkRequest_eq_some.mp h).1

/-- An admitted amount fits the 32-bit counter the callback keeps. -/
theorem amount_lt_of_admits {pos amount : Nat} (h : d.Admits pos amount) : amount < 2^32 :=
  lt_of_le_of_lt h.1 d.maxBlock_lt

/-- The frame of lines 51–59: the opcode, then the low four bytes of the sector and the low
two bytes of the amount, each little-endian. -/
def readCommand (sector amount : Nat) : List UInt8 :=
  [d.HostPC_from_SDCC1,
    UInt8.ofNat (sector &&& 0xFF), UInt8.ofNat ((sector >>> 8) &&& 0xFF),
    UInt8.ofNat ((sector >>> 16) &&& 0xFF), UInt8.ofNat ((sector >>> 24) &&& 0xFF),
    UInt8.ofNat (amount &&& 0xFF), UInt8.ofNat ((amount >>> 8) &&& 0xFF)]

@[simp] theorem readCommand_length (sector amount : Nat) :
    (d.readCommand sector amount).length = 7 := rfl

end PlasionDiskReadDriver

end Icsneo.Disk
