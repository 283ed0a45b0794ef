import Minicask.CrcChange
import Minicask.ShiftRegisters

/-!
# The checksum bit by bit

A CRC-32 is defined by a register that takes in a string one bit at a time.  The
table takes in a byte, and the running checksum a part, and they come to the same.
-/

namespace Minicask
namespace Crc

open ShiftRegister

/-- The bits of a byte, the lowest first. -/
def bitsOf (byte : UInt8) : List Bool :=
  (List.range 8).map byte.toNat.testBit

/-- The checksum by its definition: a register of ones, every bit of the string in
its order, and the register inverted. -/
def bitByBit (data : Bytes) : UInt32 :=
  UInt32.ofBitVec
    ((data.flatMap bitsOf).foldl (feed 0xEDB88320#32) 0xFFFFFFFF#32 ^^^
      0xFFFFFFFF#32)

/-!
# A byte
-/

theorem and_one_eq_iff (crc : UInt32) :
    crc &&& 1 = 1 ↔ crc.toBitVec.getLsbD 0 = true := by
  have hlow : (crc &&& 1).toNat = crc.toNat % 2 := by
    rw [UInt32.toNat_and]
    exact Nat.and_two_pow_sub_one_eq_mod crc.toNat 1
  rw [← UInt32.toNat_inj, hlow, BitVec.getLsbD, UInt32.toNat_toBitVec,
    Nat.testBit_zero, decide_eq_true_iff]
  exact Iff.rfl

theorem shiftBit_eq (crc : UInt32) :
    (shiftBit crc).toBitVec = shift 0xEDB88320#32 crc.toBitVec := by
  unfold shiftBit shift
  simp only [and_one_eq_iff]
  split
  · rfl
  · rfl

theorem buildTable_eq (i : Fin 256) :
    (buildTable i).toBitVec = shifts 0xEDB88320#32 8 (UInt32.ofNat i).toBitVec := by
  unfold buildTable
  show (shiftBit (shiftBit (shiftBit (shiftBit (shiftBit (shiftBit (shiftBit
    (shiftBit (UInt32.ofNat i))))))))).toBitVec = _
  simp only [shiftBit_eq, shifts]

theorem block_bitsOf (byte : UInt8) :
    (block (bitsOf byte) : BitVec 32) = byte.toUInt32.toBitVec := by
  apply BitVec.eq_of_getLsbD_eq
  intro i hi
  rw [getLsbD_block, BitVec.getLsbD, UInt32.toNat_toBitVec, UInt8.toNat_toUInt32]
  rcases Nat.lt_or_ge i 8 with hlt | hge
  · simp [bitsOf, hi, hlt]
  · have hzero : byte.toNat.testBit i = false := by
      apply Nat.testBit_lt_two_pow
      exact Nat.lt_of_lt_of_le byte.toNat_lt (Nat.pow_le_pow_right (by decide) hge)
    simp [bitsOf, hzero, Nat.not_lt.mpr hge]

/-- The table is asked for the low end of the register. -/
theorem index_eq_low (crc : UInt32) :
    (UInt32.ofNat (Fin.ofNat 256 (crc &&& 0xFF).toNat)).toBitVec =
      low 8 crc.toBitVec := by
  apply BitVec.eq_of_toNat_eq
  rw [UInt32.toNat_toBitVec, UInt32.toNat_ofNat']
  simp only [Fin.ofNat, low, BitVec.toNat_setWidth, UInt32.toNat_toBitVec]
  rw [toNat_low]
  omega

theorem updateByte_eq (crc : UInt32) (byte : UInt8) :
    (updateByte crc byte).toBitVec =
      (bitsOf byte).foldl (feed 0xEDB88320#32) crc.toBitVec := by
  have hlength : (bitsOf byte).length = 8 := rfl
  rw [foldl_feed_table 0xEDB88320#32 (by rw [hlength]; decide) crc.toBitVec,
    hlength, block_bitsOf]
  unfold updateByte
  dsimp only
  rw [UInt32.toBitVec_xor, buildTable_eq, index_eq_low, UInt32.toBitVec_xor]
  rfl

/-!
# A string, and its parts
-/

theorem update_eq (crc : UInt32) (data : Bytes) :
    (update crc data).toBitVec =
      (data.flatMap bitsOf).foldl (feed 0xEDB88320#32) crc.toBitVec := by
  induction data generalizing crc with
  | nil => rfl
  | cons byte data ih =>
      show (update (updateByte crc byte) data).toBitVec = _
      rw [ih, updateByte_eq, List.flatMap_cons, List.foldl_append]

theorem foldl_update (crc : UInt32) (parts : List Bytes) :
    parts.foldl update crc = update crc parts.flatten := by
  induction parts generalizing crc with
  | nil => rfl
  | cons part parts ih =>
      rw [List.foldl_cons, ih, List.flatten_cons]
      exact List.foldl_append.symm

/-- What a running checksum holds is the register. -/
theorem foldl_crc32 (running : Crc32) (parts : List Bytes) :
    (parts.foldl Crc32.update running).state = parts.foldl update running.state := by
  induction parts generalizing running with
  | nil => rfl
  | cons part parts ih => exact ih (running.update part)

theorem crc32Parts_eq (parts : List Bytes) :
    crc32Parts parts = bitByBit parts.flatten := by
  unfold crc32Parts bitByBit
  rw [foldl_update, ← UInt32.toBitVec_inj, UInt32.toBitVec_xor, update_eq]
  rfl

/-- However a string is split, both checksums of the parts are the checksum of the
string by its definition. -/
theorem checksums_bitByBit (parts : List Bytes) :
    crc32Parts parts = bitByBit parts.flatten ∧
      (parts.foldl Crc32.update Crc32.new).finish = bitByBit parts.flatten := by
  constructor
  · exact crc32Parts_eq parts
  · unfold Crc32.finish
    rw [foldl_crc32]
    exact crc32Parts_eq parts

example : bitByBit "123456789".toUTF8.toList = 0xCBF43926 := by
  decide +kernel

end Crc
end Minicask
