import Minicask.CrcChange
import Minicask.Record

/-!
# A changed byte in a record

A record's bytes have two marks of being whole: the header says how long they are,
and the stored checksum is that of everything after it.  A change of one byte may
leave the first mark, but never the second.
-/

namespace Minicask

theorem slice_change (before after : Bytes) (a b : UInt8) {start stop : Nat}
    (h : stop <= before.length ∨ before.length < start) :
    slice (before ++ a :: after) start stop =
      slice (before ++ b :: after) start stop := by
  rcases h with hbefore | hafter
  · rw [slice_append_of_le _ hbefore, slice_append_of_le _ hbefore]
  · rw [slice_append_of_ge _ (Nat.le_of_lt hafter),
      slice_append_of_ge _ (Nat.le_of_lt hafter)]
    unfold slice
    obtain ⟨k, hk⟩ : exists k, start - before.length = k + 1 :=
      ⟨start - before.length - 1, by omega⟩
    rw [hk, List.drop_succ_cons, List.drop_succ_cons]

theorem slice_all {bytes : Bytes} (start : Nat) :
    slice bytes start bytes.length = bytes.drop start := by
  unfold slice
  apply List.take_of_length_le
  rw [List.length_drop]

theorem recordLen_take {bytes : Bytes} :
    (Header.decode (bytes.take headerLen)).recordLen =
      headerLen + fromLe (slice bytes 12 16) + fromLe (slice bytes 16 20) := by
  rcases Header.toNat_decode (bytes.take headerLen) with
    ⟨_, _, hkeyLen, hvalueLen⟩
  rw [Header.recordLen, hkeyLen, hvalueLen, slice_take (by decide),
    slice_take (by decide)]

/-- The first four bytes are the checksum of the others. -/
def Checked (bytes : Bytes) : Prop :=
  UInt32.ofNat (fromLe (slice bytes 0 4)) = Crc.crc32Parts [bytes.drop 4]

/-- A record has the length that its header says, and passes its checksum. -/
theorem encode_checked {key : Bytes} {value : Option Bytes} {tstamp : UInt64}
    {bytes : Bytes} (h : encode key value tstamp = Except.ok bytes) :
    (Header.decode (bytes.take headerLen)).recordLen = bytes.length ∧
      Checked bytes := by
  rcases encode_parts h with ⟨header, rfl, hkeyLen, hvalueLen, hverify, _⟩
  have htake : (header.encode ++ (key ++ value.getD [])).take headerLen =
      header.encode := by
    simp
  constructor
  · rw [htake, Header.decode_encode, Header.recordLen, hkeyLen, hvalueLen]
    simp
    omega
  · have hcrc : slice (header.encode ++ (key ++ value.getD [])) 0 4 =
        leBytes 4 header.crc.toNat := by
      rw [slice_append_of_le _ (by simp [headerLen])]
      simp [slice, Header.encode]
    have hdrop : (header.encode ++ (key ++ value.getD [])).drop 4 =
        header.encode.drop 4 ++ key ++ value.getD [] := by
      rw [List.drop_append_of_le_length (by simp [headerLen]),
        List.append_assoc]
    unfold Header.verify at hverify
    unfold Checked
    rw [hcrc, fromLe_leBytes_of_lt (UInt32.toNat_lt _), UInt32.ofNat_toNat,
      hdrop, Crc.crc32Parts_append, Crc.crc32Parts_append]
    exact eq_of_beq hverify

theorem changed_unchecked {before after : Bytes} {a b : UInt8} (hne : b ≠ a)
    (hlong : 4 <= (before ++ a :: after).length)
    (h : Checked (before ++ a :: after)) :
    ¬ Checked (before ++ b :: after) := by
  have hlength : (before ++ b :: after).length =
      (before ++ a :: after).length := by
    simp
  unfold Checked at h ⊢
  intro hchecked
  by_cases hearly : before.length < 4
  · -- The stored checksum changed, and what it covers did not.
    have hdrop : (before ++ b :: after).drop 4 =
        (before ++ a :: after).drop 4 := by
      rw [← slice_all, ← slice_all, hlength]
      exact slice_change before after b a (Or.inr hearly)
    rw [hdrop, ← h] at hchecked
    have hfield : slice (before ++ b :: after) 0 4 =
        slice (before ++ a :: after) 0 4 := by
      have hfits : forall bytes, fromLe (slice bytes 0 4) < 2 ^ 32 :=
        fun bytes => fromLe_slice_lt bytes 0 4
      have hnat := congrArg UInt32.toNat hchecked
      rw [UInt32.toNat_ofNat', UInt32.toNat_ofNat',
        Nat.mod_eq_of_lt (hfits _), Nat.mod_eq_of_lt (hfits _)] at hnat
      apply fromLe_inj _ hnat
      rw [length_slice (by omega) (by omega),
        length_slice (by omega) (by omega)]
    have hbyte := congrArg (fun field => field[before.length]?) hfield
    simp only [slice, List.drop_zero, Nat.sub_zero,
      List.getElem?_take_of_lt hearly, List.getElem?_append_right
        (Nat.le_refl _), Nat.sub_self, List.getElem?_cons_zero,
      Option.some.injEq] at hbyte
    exact hne hbyte
  · -- The stored checksum is as it was, and a byte that it covers changed.
    have hfield : slice (before ++ b :: after) 0 4 =
        slice (before ++ a :: after) 0 4 :=
      slice_change before after b a (Or.inl (Nat.le_of_not_lt hearly))
    rw [hfield, h, List.drop_append_of_le_length (Nat.le_of_not_lt hearly),
      List.drop_append_of_le_length (Nat.le_of_not_lt hearly)] at hchecked
    exact Crc.crc32Parts_ne (Ne.symm hne) hchecked

/-- What a reader checks of bytes that are as long as their header says. -/
theorem verify_eq_true_iff {bytes : Bytes} (hlong : headerLen <= bytes.length)
    {key value : Bytes} (hbody : key ++ value = bytes.drop headerLen) :
    (Header.decode (bytes.take headerLen)).verify key value = true ↔
      Checked bytes := by
  have hheader : (bytes.take headerLen).length = headerLen := by
    rw [List.length_take]
    omega
  have hcrc : (Header.decode (bytes.take headerLen)).crc =
      UInt32.ofNat (fromLe (slice bytes 0 4)) := by
    unfold Header.decode
    dsimp only
    rw [slice_take (by decide)]
  have hcovered : (bytes.take headerLen).drop 4 ++ (key ++ value) =
      bytes.drop 4 := by
    calc (bytes.take headerLen).drop 4 ++ (key ++ value)
        = (bytes.take headerLen ++ bytes.drop headerLen).drop 4 := by
          rw [hbody, List.drop_append_of_le_length (by
            rw [hheader]
            decide)]
      _ = bytes.drop 4 := by rw [List.take_append_drop]
  unfold Header.verify Checked
  rw [Header.encode_decode hheader, hcrc, ← Crc.crc32Parts_append,
    ← Crc.crc32Parts_append, List.append_assoc, hcovered]
  exact beq_iff_eq

end Minicask
