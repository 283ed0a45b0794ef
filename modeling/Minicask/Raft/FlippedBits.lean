import Minicask.ChangedRecords
import Minicask.Raft.Stored

/-!
# A flipped bit in the log

A bit of a complete record is flipped.  Where it leaves the record as long as it
was, the checksum does not match and recovery says so.  In one of the two length
fields it changes where the record ends, and one that ends past the end of the file
looks like one that a crash cut short.
-/

namespace Minicask

namespace Raft

/-- The bytes that a header and what follows it are checked against: whether the
record they start with passes its checksum. -/
def Sealed (bytes : Bytes) : Prop :=
  UInt32.ofNat (fromLe (slice bytes 0 4)) = Crc.crc32Parts
    [slice bytes 4 (Header.decode (bytes.take headerLen)).recordLen]

theorem sealed_iff_checked (bytes : Bytes) :
    Sealed bytes ↔
      Checked (bytes.take (Header.decode (bytes.take headerLen)).recordLen) := by
  have hlong : 4 <= (Header.decode (bytes.take headerLen)).recordLen := by
    unfold Header.recordLen headerLen
    omega
  unfold Sealed Checked
  rw [slice_take hlong, List.drop_take]
  rfl

/-- The key that some bytes begin with, by the header that they begin with, is one
that an entry may have. -/
def Keyed (bytes : Bytes) : Prop :=
  let keyLen := (Header.decode (bytes.take headerLen)).keyLen.toNat
  keyLen = 16 ∨ keyLen = 17 ∧ bytes[headerLen + 16]? = some configEntry

/-- A complete record that does not pass its checksum is reported, and so is one whose
key no entry has. -/
theorem recoverLoop_refused {size : Nat} (turns : Nat) {rest : Bytes}
    (found : Recovered) (hwhole : ¬ Unfinished rest) (hbad : ¬ Sealed rest ∨ ¬ Keyed rest)
    (hsize : size = found.stop + rest.length) :
    exists detail, recoverLoop size (turns + 1) rest found =
      Except.error (Error.corrupt 0 found.stop detail) := by
  unfold Unfinished at hwhole
  rw [not_or] at hwhole
  rcases hwhole with ⟨hheader, hrecord⟩
  rw [sealed_iff_checked] at hbad
  unfold Keyed at hbad
  obtain ⟨header, hdecode⟩ : exists header,
      header = Header.decode (rest.take headerLen) := ⟨_, rfl⟩
  rw [← hdecode] at hrecord hbad
  have hlong : headerLen <= header.recordLen := by
    unfold Header.recordLen
    omega
  have hbody : (rest.drop headerLen).take
      (header.keyLen.toNat + header.valueLen.toNat) =
      (rest.take header.recordLen).drop headerLen := by
    rw [List.drop_take]
    congr 1
    unfold Header.recordLen
    omega
  have hlen : (rest.take header.recordLen).length = header.recordLen := by
    rw [List.length_take]
    omega
  rw [recoverLoop, if_neg hheader, ← hdecode]
  dsimp only
  rw [if_neg (by omega), hbody]
  rw [if_neg (by
    rw [List.length_drop, hlen]
    unfold Header.recordLen
    omega)]
  obtain ⟨key, hkey⟩ : exists key, key =
      ((rest.take header.recordLen).drop headerLen).take header.keyLen.toNat :=
    ⟨_, rfl⟩
  obtain ⟨value, hvalue⟩ : exists value, value =
      ((rest.take header.recordLen).drop headerLen).drop header.keyLen.toNat :=
    ⟨_, rfl⟩
  rw [← hkey, ← hvalue]
  have hkv : key ++ value = (rest.take header.recordLen).drop headerLen := by
    rw [hkey, hvalue, List.take_append_drop]
  unfold decodeEntry
  cases hverify : header.verify key value with
  | false => exact ⟨_, rfl⟩
  | true =>
      have hiff := verify_eq_true_iff (by rw [hlen]; exact hlong) hkv
      rw [List.take_take, Nat.min_eq_left hlong, ← hdecode] at hiff
      have hunkeyed := hbad.resolve_left (not_not_intro (hiff.mp hverify))
      have hkeyLen : key.length = header.keyLen.toNat := by
        rw [hkey, List.length_take, List.length_drop, hlen]
        unfold Header.recordLen
        omega
      refine ⟨"raft log entry has a malformed key", ?_⟩
      dsimp only
      unfold isConfigKey
      rw [if_neg (by decide), if_neg (fun h => hunkeyed (Or.inl (hkeyLen.symm.trans h))),
        if_neg]
      · rfl
      · rintro ⟨hseventeen, hmarked⟩
        refine hunkeyed (Or.inr ⟨hkeyLen.symm.trans hseventeen, ?_⟩)
        rw [← hmarked, hkey, List.getElem?_take_of_lt (by omega), List.getElem?_drop,
          List.getElem?_take_of_lt]
        unfold Header.recordLen
        omega

/-!
# One record

A changed byte outside the length fields leaves a complete record that does not pass
its checksum.
-/

theorem changed_unsealed {stamp : UInt64} {entry : Entry} {before after : Bytes}
    {a b : UInt8} (hne : b ≠ a)
    (h : encodeEntry stamp entry = Except.ok (before ++ a :: after))
    (hplace : before.length < 12 ∨ 20 <= before.length) (rest : Bytes) :
    ¬ Unfinished (before ++ b :: after ++ rest) ∧
      ¬ Sealed (before ++ b :: after ++ rest) := by
  have hlong := Encoded.length_encodeEntry h
  rw [encodeEntry_eq] at h
  rcases encode_checked h with ⟨hlen, hchecked⟩
  have hlength : (before ++ b :: after).length =
      (before ++ a :: after).length := by
    simp
  unfold headerLen at hlong
  have hrecord : (Header.decode ((before ++ b :: after ++ rest).take
      headerLen)).recordLen = (before ++ b :: after).length := by
    rw [recordLen_take] at hlen ⊢
    rw [slice_append_of_le rest (by omega), slice_append_of_le rest (by omega),
      slice_change before after b a (by omega),
      slice_change before after b a (by omega), hlength]
    exact hlen
  constructor
  · unfold Unfinished
    rw [hrecord, List.length_append]
    unfold headerLen
    omega
  · rw [sealed_iff_checked, hrecord, List.take_left]
    exact changed_unchecked hne (by omega) hchecked

/-!
# The whole file

Each byte of the file is in one of the records.  Recovery gets past those before it,
unless it reports that they are out of order.
-/

theorem decodeEntry_out_of_order {entry : Entry} (h : entry.Fits)
    {last : Option Entry} (hlast : ¬ entry.Continues last) {header : Header}
    (hverify : header.verify entry.recordKey (entry.recordValue.getD []) = true)
    (offset : Nat) :
    exists detail, decodeEntry offset last header entry.recordKey
      (entry.recordValue.getD []) =
        Except.error (Error.corrupt 0 offset detail) := by
  unfold decodeEntry
  rw [hverify, isConfigKey_recordKey, recordKey_index h]
  dsimp only [Except.bind]
  unfold Entry.Continues at hlast
  unfold checkOrder
  cases last with
  | none =>
      dsimp only at hlast ⊢
      rw [if_pos (not_not.mp hlast)]
      exact ⟨_, rfl⟩
  | some last =>
      dsimp only at hlast ⊢
      rw [if_pos hlast]
      exact ⟨_, rfl⟩

theorem recoverLoop_past {start : Nat} {offsets : List Nat}
    {entries : List Entry} {bytes : Bytes}
    (h : Encoded start offsets entries bytes)
    (hfits : forall entry, entry ∈ entries -> entry.Fits) {tail : Bytes}
    {size : Nat} (turns : Nat) {found : Recovered} (hstop : found.stop = start)
    (hsize : size = start + bytes.length + tail.length) :
    (exists offset detail,
      recoverLoop size (entries.length + turns) (bytes ++ tail) found =
        Except.error (Error.corrupt 0 offset detail)) ∨
    recoverLoop size (entries.length + turns) (bytes ++ tail) found =
      recoverLoop size turns tail
        { entries := found.entries ++ entries
          offsets := found.offsets ++ offsets
          stop := start + bytes.length } := by
  induction h generalizing found with
  | nil start =>
      refine Or.inr ?_
      subst hstop
      simp
  | @cons start offsets entry entries bytes rest stamp hencode hrest ih =>
      rw [List.length_append] at hsize
      have hroom : bytes.length <= size - found.stop := by omega
      rw [List.append_assoc, List.length_cons, Nat.add_right_comm]
      by_cases hlast : entry.Continues found.entries.getLast?
      · rw [recoverLoop_encode (hfits entry List.mem_cons_self) hencode _ hlast
          hroom]
        have hnext := ih
          (fun other hother => hfits other (List.mem_cons_of_mem _ hother))
          (show Recovered.stop
            { entries := found.entries ++ [entry]
              offsets := found.offsets ++ [found.stop]
              stop := found.stop + bytes.length } = start + bytes.length by
            rw [hstop]) (by omega)
        simpa [Nat.add_assoc, hstop] using hnext
      · rcases recoverLoop_record hencode (rest ++ tail) hroom with
          ⟨header, hverify, _, hstep⟩
        rcases decodeEntry_out_of_order (hfits entry List.mem_cons_self) hlast
          hverify found.stop with ⟨detail, hdecode⟩
        refine Or.inl ⟨found.stop, detail, ?_⟩
        rw [hstep, hdecode]
        rfl

theorem Encoded.locate {start : Nat} {offsets : List Nat}
    {entries : List Entry} {bytes : Bytes}
    (h : Encoded start offsets entries bytes) {pos : Nat}
    (hpos : pos < bytes.length) :
    exists k front record rest stamp entry,
      bytes = front ++ (record ++ rest) ∧
      Encoded start (offsets.take k) (entries.take k) front ∧
      encodeEntry stamp entry = Except.ok record ∧
      entries[k]? = some entry ∧ offsets[k]? = some (start + front.length) ∧
      (forall next, offsets[k + 1]? = some next ->
        next = start + front.length + record.length) ∧
      front.length <= pos ∧ pos < front.length + record.length := by
  induction h generalizing pos with
  | nil start => exact absurd hpos (Nat.not_lt_zero _)
  | @cons start offsets entry entries bytes rest stamp hencode hrest ih =>
      by_cases hfirst : pos < bytes.length
      · refine ⟨0, [], bytes, rest, stamp, entry, rfl, Encoded.nil start, hencode,
          rfl, rfl, ?_, Nat.zero_le _, by simpa using hfirst⟩
        intro next hnext
        cases hrest with
        | nil => cases hnext
        | cons stamp' hencode' hrest' => exact (Option.some.inj hnext).symm
      · rw [List.length_append] at hpos
        rcases ih (show pos - bytes.length < rest.length by omega) with
          ⟨k, front, record, rest', stamp', entry', hbytes, hfront, hrecord,
            hentry, hoffset, hafter, hle, hlt⟩
        refine ⟨k + 1, bytes ++ front, record, rest', stamp', entry', ?_,
          Encoded.cons stamp hencode hfront, hrecord, hentry, ?_, ?_, ?_, ?_⟩
        · rw [hbytes, List.append_assoc]
        · rw [List.getElem?_cons_succ, hoffset, List.length_append,
            Nat.add_assoc]
        · intro next hnext
          rw [List.getElem?_cons_succ] at hnext
          rw [hafter next hnext, List.length_append]
          omega
        · rw [List.length_append]
          omega
        · rw [List.length_append]
          omega

/-!
# A flipped bit

An entry's key has 16 bytes or 17, and only the lowest bit of its length leads from one
to the other.  A flip of any other bit of that length leaves a key that no entry has.
-/

def flipBit (bytes : Bytes) (pos : Nat) (bit : Fin 8) : Bytes :=
  bytes.modify pos (fun byte => byte ^^^ (1 <<< UInt8.ofNat bit))

theorem flip_ne (byte : UInt8) (bit : Fin 8) :
    byte ^^^ (1 <<< UInt8.ofNat bit) ≠ byte := by
  intro h
  have hzero : (1 : UInt8) <<< UInt8.ofNat bit = 0 := by
    rw [← UInt8.xor_right_inj byte, h, UInt8.xor_zero]
  have hmask : forall bit : Fin 8, (1 : UInt8) <<< UInt8.ofNat bit ≠ 0 := by
    decide
  exact hmask bit hzero

theorem flipBit_append (before after : Bytes) (byte : UInt8) (bit : Fin 8) :
    flipBit (before ++ byte :: after) before.length bit =
      before ++ (byte ^^^ (1 <<< UInt8.ofNat bit)) :: after := by
  induction before with
  | nil => rfl
  | cons first before ih => exact congrArg (List.cons first) ih

theorem slice_flipBit (bytes : Bytes) {pos start stop : Nat} (hstart : start <= pos)
    (bit : Fin 8) :
    slice (flipBit bytes pos bit) start stop =
      flipBit (slice bytes start stop) (pos - start) bit := by
  unfold slice flipBit
  apply List.ext_getElem?
  intro i
  rw [List.getElem?_modify, List.getElem?_take, List.getElem?_take, List.getElem?_drop,
    List.getElem?_drop, List.getElem?_modify]
  by_cases hin : i < stop - start
  · have hiff : pos = start + i ↔ pos - start = i := by omega
    rw [if_pos hin, if_pos hin]
    simp only [hiff]
  · rw [if_neg hin, if_neg hin]
    rfl

theorem keyLen_of_flip : forall len : Fin 2, forall place : Fin 4, forall bit : Fin 8,
    ¬ (place = 0 ∧ bit = 0) ->
      fromLe (flipBit (leBytes 4 (16 + len)) place bit) ≠ 16 ∧
        fromLe (flipBit (leBytes 4 (16 + len)) place bit) ≠ 17 := by
  decide

theorem unkeyed_of_flip {stamp : UInt64} {entry : Entry} {record : Bytes}
    (h : encodeEntry stamp entry = Except.ok record) {place : Nat}
    (hfrom : 12 <= place) (hto : place < 16) {bit : Fin 8}
    (hbit : ¬ (place = 12 ∧ bit = 0)) (rest : Bytes) :
    ¬ Keyed (flipBit record place bit ++ rest) := by
  have hlong := Encoded.length_encodeEntry h
  rw [encodeEntry_eq] at h
  rcases encode_parts h with ⟨header, hrecord, hkeyLen, _⟩
  have hwidth : (slice record 12 16).length = 4 := by
    unfold headerLen at hlong
    rw [slice, List.length_take, List.length_drop]
    omega
  have hlen : fromLe (slice record 12 16) = entry.recordKey.length := by
    rw [hrecord, slice_append_of_le _ (by rw [Header.length_encode]; decide),
      ← (Header.toNat_decode header.encode).2.2.1, Header.decode_encode, hkeyLen]
  obtain ⟨len, hlen⟩ : exists len : Fin 2,
      slice record 12 16 = leBytes 4 (16 + len) := by
    have hkey := length_recordKey entry
    refine ⟨⟨entry.recordKey.length - 16, by omega⟩, ?_⟩
    rw [show 16 + (entry.recordKey.length - 16) = entry.recordKey.length by omega,
      ← hlen, ← hwidth, leBytes_fromLe]
  have hread : (Header.decode ((flipBit record place bit ++ rest).take
      headerLen)).keyLen.toNat =
        fromLe (flipBit (leBytes 4 (16 + len)) (place - 12) bit) := by
    rw [(Header.toNat_decode _).2.2.1, slice_take (by decide),
      slice_append_of_le _ (by
        unfold flipBit
        rw [List.length_modify]
        unfold headerLen at hlong
        omega), slice_flipBit _ hfrom, hlen]
  have hneither := keyLen_of_flip len ⟨place - 12, by omega⟩ bit (by
    rw [Fin.ext_iff]
    show ¬ (place - 12 = 0 ∧ bit = 0)
    omega)
  unfold Keyed
  rw [hread]
  rintro (hsixteen | ⟨hseventeen, _⟩)
  · exact hneither.1 hsixteen
  · exact hneither.2 hseventeen

def InLengths (place : Nat) : Prop :=
  12 <= place ∧ place < 20

theorem openDir_error {dir : RaftDir} {hardState : HardState}
    {header : SnapshotHeader}
    (hhard : readHardState dir.disk.hardState = Except.ok hardState)
    (hsnapshot : readSnapshotHeader dir.disk.snapshot = Except.ok header)
    {e : Error}
    (hloop : recoverLoop dir.disk.entries.bytes.length
      (dir.disk.entries.bytes.length + 1) dir.disk.entries.bytes {} =
        Except.error e) (stamp : Entry -> UInt64) :
    DiskStorage.openDir dir stamp = Except.error e := by
  have hsame := (removeStrayParts_same dir).2.1
  unfold DiskStorage.openDir
  rw [hhard]
  dsimp only [Except.bind]
  rw [hsnapshot]
  dsimp only
  unfold recover
  rw [hsame]
  dsimp only
  rw [hloop]
  rfl

section Opening

variable {dir : RaftDir} {hardState : HardState} {header : SnapshotHeader}
  {offsets : List Nat} {entries : List Entry} {front tail : Bytes}

/-- After complete records comes one that is refused. -/
theorem openDir_refused
    (hhard : readHardState dir.disk.hardState = Except.ok hardState)
    (hsnapshot : readSnapshotHeader dir.disk.snapshot = Except.ok header)
    (hfront : Encoded 0 offsets entries front)
    (hfits : forall entry, entry ∈ entries -> entry.Fits)
    (hbytes : dir.disk.entries.bytes = front ++ tail) (hwhole : ¬ Unfinished tail)
    (hbad : ¬ Sealed tail ∨ ¬ Keyed tail) (stamp : Entry -> UInt64) :
    exists offset detail, DiskStorage.openDir dir stamp =
      Except.error (Error.corrupt 0 offset detail) := by
  have hcount := hfront.length_entries_le
  obtain ⟨turns, hturns⟩ : exists turns,
      dir.disk.entries.bytes.length + 1 = entries.length + (turns + 1) := by
    refine ⟨dir.disk.entries.bytes.length - entries.length, ?_⟩
    rw [hbytes, List.length_append]
    omega
  have hsize : dir.disk.entries.bytes.length = 0 + front.length + tail.length := by
    rw [hbytes, List.length_append, Nat.zero_add]
  have hpast := recoverLoop_past hfront hfits (turns + 1)
    (rfl : Recovered.stop {} = 0) hsize
  rw [← hturns, ← hbytes] at hpast
  rcases hpast with ⟨offset, detail, herror⟩ | hreached
  · exact ⟨offset, detail, openDir_error hhard hsnapshot herror stamp⟩
  · rcases recoverLoop_refused turns ⟨entries, offsets, 0 + front.length⟩ hwhole hbad
      hsize with ⟨detail, hrefused⟩
    rw [show ({} : Recovered).entries ++ entries = entries from rfl,
      show ({} : Recovered).offsets ++ offsets = offsets from rfl,
      hrefused] at hreached
    exact ⟨_, _, openDir_error hhard hsnapshot hreached stamp⟩

/-- After complete records comes one that looks as if a crash had cut it short. -/
theorem openDir_unfinished
    (hhard : readHardState dir.disk.hardState = Except.ok hardState)
    (hsnapshot : readSnapshotHeader dir.disk.snapshot = Except.ok header)
    (hfront : Encoded 0 offsets entries front)
    (hfits : forall entry, entry ∈ entries -> entry.Fits)
    (hbytes : dir.disk.entries.bytes = front ++ tail)
    (hunfinished : Unfinished tail) (hfollows : Follows header.about.index entries)
    (stamp : Entry -> UInt64) :
    exists s, DiskStorage.openDir dir stamp = Except.ok s ∧
      s.log.entries = entries := by
  have hholds : dir.disk.Holds
      { hardState := hardState
        log := { base := header.about, entries := entries }
        snapshot := (dir.disk.snapshot.getD []).drop header.dataAt
        snapshotMembers := header.members } := by
    refine ⟨hhard, ⟨header.dataAt, ?_, rfl⟩, header.about.index, entries,
      ⟨⟨offsets, front, tail, hbytes, hfront, hunfinished⟩, hfollows, hfits⟩,
      Nat.le_refl _, ?_⟩
    · rw [hsnapshot, ← dataLen_eq hsnapshot]
    · unfold reconcile
      rw [if_pos rfl]
  rcases DiskStorage.openDir_spec hholds stamp with ⟨s, hopen, hstores, _⟩
  refine ⟨s, hopen, ?_⟩
  rw [hstores.log]

end Opening

/-- A bit of a log of complete entries is flipped.  Outside of the length fields of
its record, or where the record still ends within the file and does not pass its
checksum or has a key that no entry has, opening reports it.  The latter is so for
every bit of the key's length but the lowest.  A record that then ends past the end of
the file is dropped, with every entry after it. -/
theorem flipped_bit_reported {dir : RaftDir} {hardState : HardState}
    {header : SnapshotHeader}
    (hhard : readHardState dir.disk.hardState = Except.ok hardState)
    (hsnapshot : readSnapshotHeader dir.disk.snapshot = Except.ok header)
    {offsets : List Nat} {entries : List Entry} {bytes : Bytes}
    (hencoded : Encoded 0 offsets entries bytes)
    (hfits : forall entry, entry ∈ entries -> entry.Fits) {pos : Nat}
    (hpos : pos < bytes.length) {bit : Fin 8}
    (hflip : dir.disk.entries.bytes = flipBit bytes pos bit)
    (stamp : Entry -> UInt64) :
    exists k start, offsets[k]? = some start ∧ start <= pos ∧
      (forall next, offsets[k + 1]? = some next -> pos < next) ∧
      ((¬ InLengths (pos - start) ∨
          ¬ Unfinished (dir.disk.entries.bytes.drop start) ∧
          (¬ Sealed (dir.disk.entries.bytes.drop start) ∨
            ¬ Keyed (dir.disk.entries.bytes.drop start))) ->
        exists offset detail, DiskStorage.openDir dir stamp =
          Except.error (Error.corrupt 0 offset detail)) ∧
      (12 <= pos - start -> pos - start < 16 -> ¬ (pos - start = 12 ∧ bit = 0) ->
        ¬ Keyed (dir.disk.entries.bytes.drop start)) ∧
      (Unfinished (dir.disk.entries.bytes.drop start) ->
        Follows header.about.index entries ->
        exists s, DiskStorage.openDir dir stamp = Except.ok s ∧
          s.log.entries = entries.take k ∧ k < entries.length) := by
  rcases hencoded.locate hpos with ⟨k, front, record, rest, stamp', entry, hbytes,
    hfront, hrecord, hentry, hoffset, hafter, hle, hlt⟩
  rw [Nat.zero_add] at hoffset hafter
  -- The record before and after the flip.
  have hplace : pos - front.length < record.length := by omega
  obtain ⟨before, byte, after, hsplit, hbefore⟩ : exists before byte after,
      record = before ++ byte :: after ∧ before.length = pos - front.length :=
    ⟨record.take (pos - front.length), record[pos - front.length],
      record.drop (pos - front.length + 1), by
        rw [← List.drop_eq_getElem_cons hplace, List.take_append_drop], by
        rw [List.length_take]
        omega⟩
  have hflipped : dir.disk.entries.bytes = front ++
      (before ++ (byte ^^^ (1 <<< UInt8.ofNat bit)) :: after ++ rest) := by
    have hwhole : bytes = (front ++ before) ++ byte :: (after ++ rest) := by
      rw [hbytes, hsplit]
      simp
    have hat : pos = (front ++ before).length := by
      rw [List.length_append]
      omega
    rw [hflip, hwhole, hat, flipBit_append]
    simp
  have hdrop : dir.disk.entries.bytes.drop front.length =
      before ++ (byte ^^^ (1 <<< UInt8.ofNat bit)) :: after ++ rest := by
    rw [hflipped, List.drop_left]
  rw [hsplit] at hrecord
  have hbefores : forall other, other ∈ entries.take k -> other.Fits :=
    fun other hother => hfits other (List.mem_of_mem_take hother)
  refine ⟨k, front.length, hoffset, hle, ?_, ?_, ?_, ?_⟩
  · intro next hnext
    rw [hafter next hnext]
    exact hlt
  · intro hnoticed
    rw [hdrop] at hnoticed
    rcases hnoticed with houtside | ⟨hwhole, hbad⟩
    · have hchanged := changed_unsealed (flip_ne byte bit) hrecord (by
        unfold InLengths at houtside
        omega) rest
      exact openDir_refused hhard hsnapshot hfront hbefores hflipped hchanged.1
        (Or.inl hchanged.2) stamp
    · exact openDir_refused hhard hsnapshot hfront hbefores hflipped hwhole hbad stamp
  · intro hfrom hto hbit
    rw [hdrop, ← flipBit_append]
    rw [← hbefore] at hfrom hto hbit
    exact unkeyed_of_flip hrecord hfrom hto hbit rest
  · intro hunfinished hfollows
    rw [hdrop] at hunfinished
    rcases openDir_unfinished hhard hsnapshot hfront hbefores hflipped hunfinished
      (hfollows.take k) stamp with ⟨s, hopen, hheld⟩
    exact ⟨s, hopen, hheld, (List.getElem?_eq_some_iff.mp hentry).1⟩

def flippedLog (bytes : Bytes) (pos : Nat) (bit : Fin 8) : RaftDir where
  disk := { entries := { bytes := flipBit bytes pos bit } }

def oneEntry : Entry where
  term := 1
  index := 1
  command := Command.data [7]

theorem flipped_bit_reported_first_byte :
    exists bytes, encodeEntry 0 oneEntry = Except.ok bytes ∧
      exists k start, [0][k]? = some start ∧ start <= 0 ∧
        (forall next, [0][k + 1]? = some next -> 0 < next) ∧
        ((¬ InLengths (0 - start) ∨
            ¬ Unfinished ((flipBit bytes 0 3).drop start) ∧
            (¬ Sealed ((flipBit bytes 0 3).drop start) ∨
              ¬ Keyed ((flipBit bytes 0 3).drop start))) ->
          exists offset detail,
            DiskStorage.openDir (flippedLog bytes 0 3) (fun _ => 0) =
              Except.error (Error.corrupt 0 offset detail)) ∧
        (12 <= 0 - start -> 0 - start < 16 -> ¬ (0 - start = 12 ∧ (3 : Fin 8) = 0) ->
          ¬ Keyed ((flipBit bytes 0 3).drop start)) ∧
        (Unfinished ((flipBit bytes 0 3).drop start) ->
          Follows ({} : SnapshotHeader).about.index [oneEntry] ->
          exists s, DiskStorage.openDir (flippedLog bytes 0 3) (fun _ => 0) =
            Except.ok s ∧
            s.log.entries = [oneEntry].take k ∧ k < [oneEntry].length) := by
  have hfits : oneEntry.Fits := by decide
  rcases encodeEntry_ok hfits 0 with ⟨bytes, hencode⟩
  have hencoded : Encoded 0 [0] [oneEntry] (bytes ++ []) :=
    Encoded.cons 0 hencode (Encoded.nil _)
  rw [List.append_nil] at hencoded
  have hpos : 0 < bytes.length :=
    Nat.lt_of_lt_of_le (by decide) (Encoded.length_encodeEntry hencode)
  have hflip : (flippedLog bytes 0 3).disk.entries.bytes = flipBit bytes 0 3 :=
    rfl
  refine ⟨bytes, hencode,
    flipped_bit_reported rfl rfl hencoded ?_ hpos hflip (fun _ => 0)⟩
  intro entry hentry
  rw [List.mem_singleton.mp hentry]
  exact hfits

/-- The top bit of the value's length is flipped, and the log opens empty. -/
theorem flipped_length_unreported :
    (encodeEntry 0 oneEntry).bind (fun bytes =>
      (DiskStorage.openDir (flippedLog bytes 19 7) (fun _ => 0)).map
        (fun s => s.log.entries)) = Except.ok [] := by
  decide +kernel

end Raft
end Minicask
