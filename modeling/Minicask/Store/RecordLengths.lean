import Minicask.Store.DamagedRecords

/-!
# Lengths of records

The format has room for a key and a value of almost 4 GiB each, and every length of
a whole record is kept in 32 bits.  It is the true one exactly as long as the record
is shorter than 4 GiB, and the record can be read exactly as long as that.
-/

namespace Minicask

theorem toNat_ofNat_iff (n : Nat) : (UInt32.ofNat n).toNat = n ↔ n < 2 ^ 32 := by
  constructor
  · intro h
    rw [← h]
    exact UInt32.toNat_lt _
  · intro h
    rw [UInt32.toNat_ofNat']
    exact Nat.mod_eq_of_lt h

theorem framed_of_encode {key : Bytes} {value : Option Bytes}
    {tstamp : UInt64} {bytes : Bytes}
    (h : encode key value tstamp = Except.ok bytes) :
    exists f : Framed, f.bytes = bytes ∧ f.key = key ∧
      f.value = value.getD [] := by
  rcases encode_parts h with ⟨header, hbytes, hkey, hvalue, hverify, _⟩
  let f : Framed := ⟨header, key, value.getD [], hkey, hvalue, hverify⟩
  refine ⟨f, ?_, rfl, rfl⟩
  rw [hbytes]
  exact List.append_assoc _ _ _

theorem length_encoded {key : Bytes} {value : Option Bytes} {tstamp : UInt64}
    {bytes : Bytes} (h : encode key value tstamp = Except.ok bytes) :
    bytes.length = headerLen + key.length + (value.getD []).length := by
  rcases encode_parts h with ⟨header, hbytes, _⟩
  rw [hbytes, List.length_append, Header.length_encode, List.length_append,
    Nat.add_assoc]

/-!
# Where lengths are made
-/

theorem append_len_iff {w : LogWriter} {dir : Dir} (hok : w.Ok dir)
    (bytes : Bytes) (reach : Reach) :
    (w.append dir bytes reach).1.2.toNat = bytes.length ↔
      bytes.length < 2 ^ 32 := by
  rw [(LogWriter.appended_append hok bytes reach).1]
  exact toNat_ofNat_iff _

theorem scanned_len_iff (f : Framed) (rest : Bytes) (offset : Nat) :
    (exists found next,
      Scanner.nextRecord { rest := f.bytes ++ rest, offset := offset } =
        (ScanOutcome.record found, next) ∧
      found.len.toNat = f.bytes.length) ↔ f.bytes.length < 2 ^ 32 := by
  rw [Scanner.nextRecord_framed]
  constructor
  · intro h
    rcases h with ⟨found, next, heq, hlen⟩
    cases heq
    dsimp only at hlen
    rw [← f.length_bytes] at hlen
    exact (toNat_ofNat_iff _).mp hlen
  · intro h
    refine ⟨_, _, rfl, ?_⟩
    dsimp only
    rw [← f.length_bytes]
    exact (toNat_ofNat_iff _).mpr h

/-!
# Puts and deletes
-/

/-- What is decoded from the start of a record is all of it. -/
theorem decodeValue_take {f : Framed} {n : Nat} (hn : n <= f.bytes.length)
    {loc : Location} {value : Bytes}
    (h : decodeValue (f.bytes.take n) loc = Except.ok value) :
    n = f.bytes.length := by
  have hlength : (f.bytes.take n).length = n := List.length_take_of_le hn
  unfold decodeValue at h
  dsimp only at h
  rw [hlength] at h
  split at h
  · cases h
  · rename_i hheader
    have hle : headerLen <= n := Nat.le_of_not_lt hheader
    have htake : (f.bytes.take n).take headerLen = f.header.encode := by
      rw [List.take_take, Nat.min_eq_left hle, Framed.bytes, List.append_assoc]
      exact List.take_left' (Header.length_encode _)
    rw [htake, Header.decode_encode, ← f.length_bytes] at h
    split at h
    · cases h
    · rename_i hsame
      exact (not_not.mp hsame).symm

theorem slice_of_append {before bytes : Bytes} {offset n : Nat}
    (hbefore : before.length = offset) :
    slice (before ++ bytes) offset (offset + n) = bytes.take n := by
  unfold slice
  rw [← hbefore, List.drop_left, Nat.add_sub_cancel_left]

/-- A record that was just appended is read back when its length is kept. -/
theorem get_appended_iff {s s' : Store} (hok : s.Ok) {key value bytes : Bytes}
    {now : UInt64} (hencode : encode key (some value) now = Except.ok bytes)
    (hadvanced : s.Advanced bytes s') {loc : Location}
    (hlookup : s'.keydir.lookup key = some loc)
    (hfileId : loc.fileId = s'.writer.fileId)
    (hoffset : loc.offset = s.writer.offset)
    (hlen : loc.len = UInt32.ofNat bytes.length) :
    s'.get key = Except.ok (some value) ↔ bytes.length < 2 ^ 32 := by
  have hok' := hadvanced.ok hok
  have hcontents : s'.contents loc.fileId =
      s.writer.contents s.dir ++ bytes := by
    rw [hfileId, Store.contents_active]
    exact hadvanced.appended.contents
  have hbefore : (s.writer.contents s.dir).length = loc.offset := by
    rw [hoffset]
    exact hok.writer.length_contents
  have hle : loc.len.toNat <= bytes.length := by
    rw [hlen, UInt32.toNat_ofNat']
    exact Nat.mod_le _ _
  have hget : s'.get key =
      (decodeValue (bytes.take loc.len.toNat) loc).map some := by
    rw [Store.get_eq_decode hok' hlookup (by rw [hfileId]; exact hok'.active),
      hcontents, slice_of_append hbefore]
    · rw [hcontents, List.length_append, hbefore]
      exact Nat.add_le_add_left hle _
    · intro _
      cases hadvanced.appended.boundary with
      | inl hsame =>
          right
          rw [hsame, hoffset, hok.writer.offset]
          exact Nat.le_add_right _ _
      | inr hall =>
          left
          rw [hall, hadvanced.appended.offset hok.writer, hoffset]
          exact Nat.add_le_add_left hle _
  rw [hget]
  constructor
  · intro h
    rcases framed_of_encode hencode with ⟨f, hbytes, _, _⟩
    rw [← hbytes] at h hle
    cases hdecode : decodeValue (f.bytes.take loc.len.toNat) loc with
    | error e =>
        rw [hdecode] at h
        cases h
    | ok found =>
        rw [← hbytes, ← decodeValue_take hle hdecode]
        exact UInt32.toNat_lt _
  · intro hshort
    rcases encode_eq_ok hencode hshort with ⟨r, _, hvalue, _, rfl⟩
    have hall : loc.len.toNat = r.bytes.length := by
      rw [hlen]
      exact r.toNat_length_bytes
    rw [hall, List.take_length, decodeValue_bytes, r.value_eq_some hvalue]
    rfl

theorem put_len_iff {s : Store} (hok : s.Ok) (hwritable : s.restoring = false)
    {key value bytes : Bytes} {now : UInt64}
    (hencode : encode key (some value) now = Except.ok bytes) (reach : Reach)
    (later : UInt64) :
    exists s' loc e, s.putWith key value reach now later = Except.ok s' ∧
      s'.keydir.lookup key = some loc ∧
      s'.activeHints.getLast? = some e ∧ e.key = key ∧
      (loc.len.toNat = bytes.length ↔ bytes.length < 2 ^ 32) ∧
      (e.len.toNat = bytes.length ↔ bytes.length < 2 ^ 32) ∧
      (s'.get key = Except.ok (some value) ↔ bytes.length < 2 ^ 32) := by
  rcases Store.rolled hok bytes.length with ⟨hrolled, _⟩
  have happend :=
    (LogWriter.appended_append hrolled.writer bytes reach).1
  unfold Store.putWith
  rw [if_neg (by simp [hwritable]), hencode]
  exact ⟨_, _, _, rfl, AList.lookup_insert _, List.getLast?_concat, rfl,
    append_len_iff hrolled.writer bytes reach,
    append_len_iff hrolled.writer bytes reach,
    get_appended_iff hrolled hencode
      (Store.advanced_append hrolled bytes reach rfl rfl rfl)
      (AList.lookup_insert _) rfl (congrArg Prod.fst happend)
      (congrArg Prod.snd happend)⟩

theorem delete_len_iff {s : Store} (hok : s.Ok)
    (hwritable : s.restoring = false) {key bytes : Bytes} {now : UInt64}
    (hencode : encode key none now = Except.ok bytes)
    (hlive : s.containsKey key = true) (reach : Reach) (later : UInt64) :
    exists s' e, s.deleteWith key reach now later = Except.ok (s', true) ∧
      s'.activeHints.getLast? = some e ∧ e.key = key ∧
      (e.len.toNat = bytes.length ↔ bytes.length < 2 ^ 32) := by
  rcases Store.rolled hok bytes.length with ⟨hrolled, _⟩
  unfold Store.deleteWith
  rw [if_neg (by simp [hwritable]), if_neg (by simp [hlive]), hencode]
  exact ⟨_, _, rfl, List.getLast?_concat, rfl,
    append_len_iff hrolled.writer bytes reach⟩

/-- Every length that is made of an encoded record is its true one, and a put of it
can be read, exactly when the record is shorter than 2^32 bytes. -/
theorem record_lengths_iff {s : Store} (hok : s.Ok)
    (hwritable : s.restoring = false) {key : Bytes} {value : Option Bytes}
    {now : UInt64} {bytes : Bytes}
    (hencode : encode key value now = Except.ok bytes) (reach : Reach)
    (later : UInt64) :
    ((s.writer.append s.dir bytes reach).1.2.toNat = bytes.length ↔
      bytes.length < 2 ^ 32) ∧
    (forall rest offset, (exists found next,
      Scanner.nextRecord { rest := bytes ++ rest, offset := offset } =
        (ScanOutcome.record found, next) ∧
      found.len.toNat = bytes.length) ↔ bytes.length < 2 ^ 32) ∧
    (forall v, value = some v -> exists s' loc e,
      s.putWith key v reach now later = Except.ok s' ∧
      s'.keydir.lookup key = some loc ∧
      s'.activeHints.getLast? = some e ∧ e.key = key ∧
      (loc.len.toNat = bytes.length ↔ bytes.length < 2 ^ 32) ∧
      (e.len.toNat = bytes.length ↔ bytes.length < 2 ^ 32) ∧
      (s'.get key = Except.ok (some v) ↔ bytes.length < 2 ^ 32)) ∧
    (value = none -> s.containsKey key = true -> exists s' e,
      s.deleteWith key reach now later = Except.ok (s', true) ∧
      s'.activeHints.getLast? = some e ∧ e.key = key ∧
      (e.len.toNat = bytes.length ↔ bytes.length < 2 ^ 32)) := by
  constructor
  · exact append_len_iff hok.writer bytes reach
  constructor
  · intro rest offset
    rcases framed_of_encode hencode with ⟨f, rfl, _, _⟩
    exact scanned_len_iff f rest offset
  constructor
  · intro v hvalue
    rw [hvalue] at hencode
    exact put_len_iff hok hwritable hencode reach later
  · intro hvalue hlive
    rw [hvalue] at hencode
    exact delete_len_iff hok hwritable hencode hlive reach later

theorem record_lengths_iff_short :
    exists (bytes : Bytes) (s' : Store),
      encode [7] (some [1, 2]) 5 = Except.ok bytes ∧
      bytes.length < 2 ^ 32 ∧
      (newStore {}).putWith [7] [1, 2] Reach.kernel 5 6 = Except.ok s' ∧
      s'.get [7] = Except.ok (some [1, 2]) := by
  rcases (BackgroundRun.start (openWith_nothing {})).backs with ⟨_, hbacks⟩
  have hencode : exists bytes, encode [7] (some [1, 2]) 5 = Except.ok bytes ∧
      bytes.length < 2 ^ 32 := ⟨_, rfl, by decide⟩
  rcases hencode with ⟨bytes, hencode, hshort⟩
  rcases (record_lengths_iff hbacks.ok rfl hencode Reach.kernel 6).2.2.1 [1, 2]
    rfl with ⟨s', _, _, hput, _, _, _, _, _, hget⟩
  exact ⟨bytes, s', hencode, hshort, hput, hget.mpr hshort⟩

/-- A value of 2^32 - 22 bytes is accepted, no length of its record is the true one,
and it cannot be read. -/
theorem long_put_length_wraps :
    exists (value bytes : Bytes) (s : Store) (loc : Location),
      value.length = 2 ^ 32 - 22 ∧
      encode [7] (some value) 5 = Except.ok bytes ∧
      ((newStore {}).writer.append (newStore {}).dir bytes
        Reach.kernel).1.2.toNat ≠ bytes.length ∧
      (newStore {}).putWith [7] value Reach.kernel 5 6 = Except.ok s ∧
      s.keydir.lookup [7] = some loc ∧ loc.len.toNat ≠ bytes.length ∧
      s.get [7] ≠ Except.ok (some value) := by
  rcases (BackgroundRun.start (openWith_nothing {})).backs with ⟨_, hbacks⟩
  have hvalue : exists value : Bytes, value.length = 2 ^ 32 - 22 :=
    ⟨List.replicate (2 ^ 32 - 22) 0, List.length_replicate⟩
  rcases hvalue with ⟨value, hvalue⟩
  rcases encode_long_record hvalue with ⟨bytes, hencode, hbytes⟩
  have hlong : ¬ bytes.length < 2 ^ 32 := by
    rw [hbytes]
    exact Nat.lt_irrefl _
  rcases put_len_iff hbacks.ok rfl hencode Reach.kernel 6 with
    ⟨s, loc, _, hput, hlookup, _, _, hloc, _, hget⟩
  exact ⟨value, bytes, s, loc, hvalue, hencode,
    fun h => hlong ((append_len_iff hbacks.ok.writer bytes Reach.kernel).mp h),
    hput, hlookup, fun h => hlong (hloc.mp h), fun h => hlong (hget.mp h)⟩

end Minicask
