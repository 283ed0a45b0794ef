import Minicask.Crc

/-!
# The checksum notices a changed byte

The high byte of an entry of the table gives away its index, so one turn of the
checksum can be undone.  Two strings that differ in one byte never have the same
checksum.
-/

namespace Minicask
namespace Crc

def unshiftBit (crc : UInt32) : UInt32 :=
  if crc >>> 31 = 1 then ((crc ^^^ poly) <<< 1) ||| 1 else crc <<< 1

/-- The index of the entry of the table with this high byte. -/
def indexOf (top : UInt32) : UInt32 :=
  (List.range 8).foldl (fun crc _ => unshiftBit crc) (top <<< 24) &&& 0xFF

theorem indexOf_buildTable (i : Fin 256) :
    indexOf (buildTable i >>> 24) = UInt32.ofNat i := by
  revert i
  decide +kernel

theorem and_xor (a b c : UInt32) :
    (a ^^^ b) &&& c = (a &&& c) ^^^ (b &&& c) := by
  apply UInt32.toNat_inj.mp
  simp only [UInt32.toNat_and, UInt32.toNat_xor]
  exact Nat.and_xor_distrib_right

theorem toNat_low (a : UInt32) : (a &&& 0xFF).toNat = a.toNat % 256 := by
  rw [UInt32.toNat_and]
  exact Nat.and_two_pow_sub_one_eq_mod a.toNat 8

theorem toNat_high (a : UInt32) : (a >>> 8).toNat = a.toNat / 256 := by
  rw [UInt32.toNat_shiftRight]
  exact Nat.shiftRight_eq_div_pow a.toNat 8

/-- The result of a turn tells which entry of the table was used. -/
theorem indexOf_updateByte (crc : UInt32) (byte : UInt8) :
    indexOf (updateByte crc byte >>> 24) = (crc ^^^ byte.toUInt32) &&& 0xFF := by
  have hhigh : crc >>> 8 >>> 24 = 0 := by
    apply UInt32.toNat_inj.mp
    have hlt := crc.toNat_lt
    rw [UInt32.toNat_shiftRight, toNat_high, Nat.shiftRight_eq_div_pow]
    show crc.toNat / 256 / 2 ^ 24 = 0
    omega
  have hlow := toNat_low (crc ^^^ byte.toUInt32)
  unfold updateByte
  dsimp only
  rw [UInt32.shiftRight_xor, hhigh, UInt32.xor_zero, indexOf_buildTable]
  apply UInt32.toNat_inj.mp
  rw [UInt32.toNat_ofNat']
  simp only [Fin.ofNat]
  rw [hlow]
  omega

theorem updateByte_inj_byte {crc : UInt32} {a b : UInt8}
    (h : updateByte crc a = updateByte crc b) : a = b := by
  have hindex := indexOf_updateByte crc a
  rw [h, indexOf_updateByte crc b, and_xor, and_xor, UInt32.xor_right_inj]
    at hindex
  have hnat := congrArg UInt32.toNat hindex
  rw [toNat_low, toNat_low, UInt8.toNat_toUInt32, UInt8.toNat_toUInt32] at hnat
  apply UInt8.toNat_inj.mp
  have ha := a.toNat_lt
  have hb := b.toNat_lt
  omega

theorem updateByte_inj {crc crc' : UInt32} {byte : UInt8}
    (h : updateByte crc byte = updateByte crc' byte) : crc = crc' := by
  have hindex := indexOf_updateByte crc byte
  rw [h, indexOf_updateByte crc' byte] at hindex
  have hlow : crc'.toNat % 256 = crc.toNat % 256 := by
    have hcancel := hindex
    rw [and_xor, and_xor, UInt32.xor_left_inj] at hcancel
    have hnat := congrArg UInt32.toNat hcancel
    rwa [toNat_low, toNat_low] at hnat
  have hhigh : crc.toNat / 256 = crc'.toNat / 256 := by
    unfold updateByte at h
    dsimp only at h
    rw [hindex, UInt32.xor_right_inj] at h
    have hnat := congrArg UInt32.toNat h
    rwa [toNat_high, toNat_high] at hnat
  apply UInt32.toNat_inj.mp
  omega

theorem update_inj {crc crc' : UInt32} {data : Bytes}
    (h : update crc data = update crc' data) : crc = crc' := by
  induction data generalizing crc crc' with
  | nil => exact h
  | cons byte data ih => exact updateByte_inj (ih h)

/-- One byte of a string changes, and so does its checksum. -/
theorem crc32Parts_ne {before after : Bytes} {a b : UInt8} (hne : a ≠ b) :
    crc32Parts [before ++ a :: after] ≠ crc32Parts [before ++ b :: after] := by
  intro h
  unfold crc32Parts at h
  rw [UInt32.xor_left_inj] at h
  have hupdate : update (updateByte (update 0xFFFFFFFF before) a) after =
      update (updateByte (update 0xFFFFFFFF before) b) after := by
    simpa [update] using h
  exact hne (updateByte_inj_byte (update_inj hupdate))

end Crc
end Minicask
