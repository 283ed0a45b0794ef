import Minicask.Raft.DiskStorage
import Minicask.Raft.Follows

/-!
# What recovery reads

An entries file is a run of encoded entries, and after them perhaps the start of
one more.  Recovery gives the entries back and drops the rest.
-/

namespace Minicask
namespace Raft

/-- What the fields of an entry hold: an index and a term are a `u64`, and a
command is no longer than a record's value can be. -/
def Entry.Fits (entry : Entry) : Prop :=
  entry.index < 2 ^ 64 ∧ entry.term < 2 ^ 64 ∧
    match entry.command with
    | Command.noop => True
    | Command.data bytes => bytes.length < 2 ^ 32
    | Command.config members =>
        MembersFit members ∧ (encodeMembers members).length < 2 ^ 32

instance (entry : Entry) : Decidable entry.Fits := by
  unfold Entry.Fits
  cases entry.command <;> exact inferInstance

/-- Entries one after another in a file, from some offset on, and where each of
them starts. -/
inductive Encoded : Nat -> List Nat -> List Entry -> Bytes -> Prop where
  | nil (start : Nat) : Encoded start [] [] []
  | cons {start : Nat} {offsets : List Nat} {entry : Entry}
      {entries : List Entry} {bytes rest : Bytes} (stamp : UInt64)
      (hencode : encodeEntry stamp entry = Except.ok bytes)
      (hrest : Encoded (start + bytes.length) offsets entries rest) :
      Encoded start (start :: offsets) (entry :: entries) (bytes ++ rest)

/-- The bytes end before the record they start does. -/
def Unfinished (bytes : Bytes) : Prop :=
  bytes.length < headerLen ∨
    (Header.decode (bytes.take headerLen)).recordLen > bytes.length

/-!
# One entry
-/

namespace Entry

/-- The key and the value of an entry's record. -/
def recordKey (entry : Entry) : Bytes :=
  match entry.command with
  | Command.config _ => entryKey entry.index entry.term ++ [configEntry]
  | _ => entryKey entry.index entry.term

def recordValue (entry : Entry) : Option Bytes :=
  match entry.command with
  | Command.noop => none
  | Command.data bytes => some bytes
  | Command.config members => some (encodeMembers members)

/-- Whether an entry can come after another one, or be the first. -/
def Continues (entry : Entry) (last : Option Entry) : Prop :=
  match last with
  | some last => entry.index = last.index + 1
  | none => entry.index ≠ 0

end Entry

theorem encodeEntry_eq (stamp : UInt64) (entry : Entry) :
    encodeEntry stamp entry =
      encode entry.recordKey entry.recordValue stamp := by
  unfold encodeEntry Entry.recordKey Entry.recordValue
  cases entry.command <;> rfl

theorem length_recordKey (entry : Entry) :
    16 <= entry.recordKey.length ∧ entry.recordKey.length <= 17 := by
  unfold Entry.recordKey
  cases entry.command <;> simp [entryKey]

theorem encodeEntry_ok {entry : Entry} (h : entry.Fits) (stamp : UInt64) :
    exists bytes, encodeEntry stamp entry = Except.ok bytes := by
  have hkey := length_recordKey entry
  have hvalue : (entry.recordValue.getD []).length < 2 ^ 32 := by
    rcases h with ⟨_, _, hcommand⟩
    unfold Entry.recordValue
    cases hc : entry.command with
    | noop => decide
    | data bytes =>
        rw [hc] at hcommand
        exact hcommand
    | config members =>
        rw [hc] at hcommand
        exact hcommand.2
  have hnonempty : ¬ List.isEmpty entry.recordKey = true := by
    rw [List.isEmpty_iff_length_eq_zero]
    omega
  rw [encodeEntry_eq]
  unfold encode
  rw [if_neg hnonempty, if_neg (by unfold u32Max; omega)]
  dsimp only
  rw [if_neg (by unfold u32Max; omega)]
  exact ⟨_, rfl⟩

theorem recordKey_index {entry : Entry} (h : entry.Fits) :
    fromLe (slice entry.recordKey 0 8) = entry.index := by
  have hslice : slice entry.recordKey 0 8 = leBytes 8 entry.index := by
    unfold Entry.recordKey
    cases entry.command <;> simp [slice, entryKey]
  rw [hslice]
  exact fromLe_leBytes_of_lt h.1

theorem recordKey_term {entry : Entry} (h : entry.Fits) :
    fromLe (slice entry.recordKey 8 16) = entry.term := by
  have hslice : slice entry.recordKey 8 16 = leBytes 8 entry.term := by
    unfold Entry.recordKey
    cases entry.command <;>
      simp [slice, entryKey, List.take_of_length_le]
  rw [hslice]
  exact fromLe_leBytes_of_lt h.2.1

theorem isConfigKey_recordKey (offset : Nat) (entry : Entry) :
    isConfigKey offset entry.recordKey =
      Except.ok entry.command.isConfig := by
  unfold isConfigKey Entry.recordKey
  cases entry.command <;> simp [entryKey, Command.isConfig]

theorem checkOrder_of_continues {entry : Entry} {last : Option Entry}
    (h : entry.Continues last) (offset : Nat) :
    checkOrder offset last entry.index = Except.ok () := by
  unfold Entry.Continues at h
  unfold checkOrder
  cases last with
  | none => exact if_neg h
  | some last => exact if_neg (not_not_intro h)

theorem decodeCommand_recordValue {entry : Entry} (h : entry.Fits)
    (offset : Nat) :
    decodeCommand offset entry.command.isConfig entry.recordValue.isNone
      (entry.recordValue.getD []) = Except.ok entry.command := by
  rcases h with ⟨_, _, hcommand⟩
  unfold decodeCommand Entry.recordValue
  cases hc : entry.command with
  | noop => rfl
  | data bytes => rfl
  | config members =>
      rw [hc] at hcommand
      simp only [Command.isConfig, if_true, Option.getD_some,
        decodeMembers_encodeMembers hcommand.1]

theorem decodeEntry_record {entry : Entry} (h : entry.Fits) {last : Option Entry}
    (hlast : entry.Continues last) {header : Header}
    (hverify : header.verify entry.recordKey (entry.recordValue.getD []) = true)
    (htombstone : header.isTombstone = entry.recordValue.isNone)
    (offset : Nat) :
    decodeEntry offset last header entry.recordKey
      (entry.recordValue.getD []) = Except.ok entry := by
  unfold decodeEntry
  rw [hverify, isConfigKey_recordKey, recordKey_index h, recordKey_term h,
    htombstone]
  dsimp only [Except.bind]
  rw [checkOrder_of_continues hlast]
  dsimp only
  rw [decodeCommand_recordValue h]
  rfl

/-!
# The loop
-/

/-- A complete record at the front is decoded and the loop goes on after it. -/
theorem recoverLoop_record {size turns : Nat} {entry : Entry} {stamp : UInt64}
    {bytes : Bytes} (hencode : encodeEntry stamp entry = Except.ok bytes)
    (rest : Bytes) {found : Recovered}
    (hroom : bytes.length <= size - found.stop) :
    exists header : Header,
      header.verify entry.recordKey (entry.recordValue.getD []) = true ∧
      header.isTombstone = entry.recordValue.isNone ∧
      recoverLoop size (turns + 1) (bytes ++ rest) found =
        (decodeEntry found.stop found.entries.getLast? header entry.recordKey
          (entry.recordValue.getD [])).bind (fun entry =>
            recoverLoop size turns rest
              { entries := found.entries ++ [entry]
                offsets := found.offsets ++ [found.stop]
                stop := found.stop + bytes.length }) := by
  rw [encodeEntry_eq] at hencode
  rcases encode_parts hencode with
    ⟨header, rfl, hkeyLen, hvalueLen, hverify, htombstone⟩
  refine ⟨header, hverify, htombstone, ?_⟩
  have hlength : (header.encode ++ (entry.recordKey ++
      entry.recordValue.getD [])).length = header.recordLen := by
    simp [Header.recordLen, hkeyLen, hvalueLen]
    omega
  have htake : (header.encode ++ (entry.recordKey ++
      entry.recordValue.getD []) ++ rest).take headerLen = header.encode := by
    simp
  have hdrop : (header.encode ++ (entry.recordKey ++
      entry.recordValue.getD []) ++ rest).drop headerLen =
      entry.recordKey ++ entry.recordValue.getD [] ++ rest := by
    simp
  have hbody : (entry.recordKey ++ entry.recordValue.getD [] ++ rest).take
      (header.keyLen.toNat + header.valueLen.toNat) =
      entry.recordKey ++ entry.recordValue.getD [] := by
    rw [hkeyLen, hvalueLen, ← List.length_append, List.take_left]
  have hrest : (header.encode ++ (entry.recordKey ++
      entry.recordValue.getD []) ++ rest).drop header.recordLen = rest := by
    rw [← hlength, List.drop_left]
  rw [recoverLoop, if_neg (by
    rw [List.length_append, hlength, Header.recordLen]
    omega)]
  rw [htake, Header.decode_encode]
  dsimp only
  rw [if_neg (by rw [← hlength]; omega), hdrop, hbody,
    if_neg (by simp [hkeyLen, hvalueLen]), hkeyLen, List.take_left,
    List.drop_left, hrest, hlength]

theorem recoverLoop_encode {size turns : Nat} {entry : Entry}
    (hfits : entry.Fits) {stamp : UInt64} {bytes : Bytes}
    (hencode : encodeEntry stamp entry = Except.ok bytes) (rest : Bytes)
    {found : Recovered} (hlast : entry.Continues found.entries.getLast?)
    (hroom : bytes.length <= size - found.stop) :
    recoverLoop size (turns + 1) (bytes ++ rest) found =
      recoverLoop size turns rest
        { entries := found.entries ++ [entry]
          offsets := found.offsets ++ [found.stop]
          stop := found.stop + bytes.length } := by
  rcases recoverLoop_record hencode rest hroom with
    ⟨header, hverify, htombstone, hstep⟩
  rw [hstep, decodeEntry_record hfits hlast hverify htombstone]
  rfl

/-- Recovery stops at a record that is not all there. -/
theorem recoverLoop_unfinished {size turns : Nat} {tail : Bytes}
    (h : Unfinished tail) {found : Recovered}
    (hsize : size = found.stop + tail.length) :
    recoverLoop size (turns + 1) tail found = Except.ok found := by
  rw [recoverLoop]
  rcases h with hshort | hlong
  · rw [if_pos hshort]
  · split
    · rfl
    · dsimp only
      rw [if_pos (by omega)]

theorem Follows.continues {prev : Nat} {entry : Entry} {rest : List Entry}
    (h : Follows prev (entry :: rest)) {last : Option Entry}
    (hlast : last.map Entry.index = some prev ∨ last = none) :
    entry.Continues last := by
  unfold Entry.Continues
  cases last with
  | none =>
      show entry.index ≠ 0
      rw [h.1]
      exact Nat.succ_ne_zero _
  | some last =>
      rcases hlast with hsome | hnone
      · show entry.index = last.index + 1
        rw [h.1, Option.some.inj hsome]
      · cases hnone

/-- Entries that follow each other are all read back, up to what is left over. -/
theorem recoverLoop_encoded {start : Nat} {offsets : List Nat}
    {entries : List Entry} {bytes : Bytes}
    (h : Encoded start offsets entries bytes) {prev : Nat}
    (hfollows : Follows prev entries)
    (hfits : forall entry, entry ∈ entries -> entry.Fits) {tail : Bytes}
    (htail : Unfinished tail) {size turns : Nat} {found : Recovered}
    (hstop : found.stop = start)
    (hlast : found.entries.getLast?.map Entry.index = some prev ∨
      found.entries.getLast? = none)
    (hsize : size = start + bytes.length + tail.length)
    (hturns : entries.length < turns) :
    recoverLoop size turns (bytes ++ tail) found = Except.ok
      { entries := found.entries ++ entries
        offsets := found.offsets ++ offsets
        stop := start + bytes.length } := by
  induction h generalizing prev turns found with
  | nil start =>
      cases turns with
      | zero => exact absurd hturns (Nat.not_lt_zero _)
      | succ turns =>
          rw [List.nil_append, recoverLoop_unfinished htail (by
            rw [hsize, hstop]
            rfl)]
          simp [← hstop]
  | @cons start offsets entry entries bytes rest stamp hencode hrest ih =>
      cases turns with
      | zero => exact absurd hturns (Nat.not_lt_zero _)
      | succ turns =>
          rw [List.length_append] at hsize
          rw [List.append_assoc, recoverLoop_encode
            (hfits entry List.mem_cons_self) hencode _
            (hfollows.continues hlast) (by omega)]
          rw [ih hfollows.2
            (fun other hother => hfits other (List.mem_cons_of_mem _ hother))
            (by rw [hstop]) (Or.inl (by simp)) (by omega)
            (by simpa using hturns)]
          simp [Nat.add_assoc, hstop]

/-!
# Batches
-/

theorem encodeEntries_encoded {stamp : Entry -> UInt64} {start : Nat}
    {entries : List Entry} {offsets : List Nat} {buf : Bytes}
    (h : encodeEntries stamp start entries = Except.ok (offsets, buf)) :
    Encoded start offsets entries buf := by
  induction entries generalizing start offsets buf with
  | nil =>
      cases h
      exact Encoded.nil start
  | cons entry entries ih =>
      rw [encodeEntries] at h
      cases hencode : encodeEntry (stamp entry) entry with
      | error e =>
          rw [hencode] at h
          cases h
      | ok bytes =>
          rw [hencode] at h
          dsimp only [Except.bind] at h
          cases hrest : encodeEntries stamp (start + bytes.length) entries with
          | error e =>
              rw [hrest] at h
              cases h
          | ok done =>
              rw [hrest] at h
              cases h
              exact Encoded.cons (stamp entry) hencode (ih hrest)

theorem encodeEntries_ok (stamp : Entry -> UInt64) (start : Nat)
    {entries : List Entry}
    (h : forall entry, entry ∈ entries -> entry.Fits) :
    exists offsets buf,
      encodeEntries stamp start entries = Except.ok (offsets, buf) := by
  induction entries generalizing start with
  | nil => exact ⟨[], [], rfl⟩
  | cons entry entries ih =>
      rcases encodeEntry_ok (h entry List.mem_cons_self) (stamp entry) with
        ⟨bytes, hencode⟩
      rcases ih (start + bytes.length)
        (fun other hother => h other (List.mem_cons_of_mem _ hother)) with
        ⟨offsets, buf, hrest⟩
      refine ⟨start :: offsets, bytes ++ buf, ?_⟩
      rw [encodeEntries, hencode]
      dsimp only [Except.bind]
      rw [hrest]
      rfl

namespace Encoded

theorem append {start : Nat} {offsets more : List Nat}
    {entries others : List Entry} {bytes rest : Bytes}
    (h : Encoded start offsets entries bytes)
    (h' : Encoded (start + bytes.length) more others rest) :
    Encoded start (offsets ++ more) (entries ++ others) (bytes ++ rest) := by
  induction h with
  | nil start => exact h'
  | cons stamp hencode hrest ih =>
      rw [List.length_append, ← Nat.add_assoc] at h'
      have hall := Encoded.cons stamp hencode (ih h')
      rw [← List.append_assoc] at hall
      exact hall

theorem length_offsets {start : Nat} {offsets : List Nat}
    {entries : List Entry} {bytes : Bytes}
    (h : Encoded start offsets entries bytes) :
    offsets.length = entries.length := by
  induction h with
  | nil start => rfl
  | cons stamp hencode hrest ih => simp [ih]

theorem length_encodeEntry {stamp : UInt64} {entry : Entry} {bytes : Bytes}
    (h : encodeEntry stamp entry = Except.ok bytes) :
    headerLen + 16 <= bytes.length := by
  rw [encodeEntry_eq] at h
  rcases encode_parts h with ⟨header, rfl, _⟩
  have hkey := length_recordKey entry
  simp
  omega

theorem length_entries_le {start : Nat} {offsets : List Nat}
    {entries : List Entry} {bytes : Bytes}
    (h : Encoded start offsets entries bytes) :
    entries.length <= bytes.length := by
  induction h with
  | nil start => exact Nat.le_refl 0
  | cons stamp hencode hrest ih =>
      have hpos := length_encodeEntry hencode
      rw [List.length_append, List.length_cons]
      omega

/-- The file up to where some entry starts holds the entries before it. -/
theorem take {start : Nat} {offsets : List Nat} {entries : List Entry}
    {bytes : Bytes} (h : Encoded start offsets entries bytes) {keep stop : Nat}
    (hstop : offsets[keep]? = some stop) :
    start <= stop ∧ stop - start <= bytes.length ∧
      Encoded start (offsets.take keep) (entries.take keep)
        (bytes.take (stop - start)) := by
  induction h generalizing keep with
  | nil start => cases hstop
  | @cons start offsets entry entries bytes rest stamp hencode hrest ih =>
      cases keep with
      | zero =>
          have heq : start = stop := Option.some.inj hstop
          subst heq
          refine ⟨Nat.le_refl _, by simp, ?_⟩
          simp only [Nat.sub_self, List.take_zero]
          exact Encoded.nil start
      | succ keep =>
          rcases ih (by simpa using hstop) with ⟨hle, hshort, htaken⟩
          refine ⟨by omega, by rw [List.length_append]; omega, ?_⟩
          have hbytes : (bytes ++ rest).take (stop - start) =
              bytes ++ rest.take (stop - (start + bytes.length)) := by
            rw [List.take_append, List.take_of_length_le (by omega)]
            congr 2
            omega
          rw [hbytes]
          exact Encoded.cons stamp hencode htaken

theorem keeps_all {start : Nat} {offsets : List Nat} {entries : List Entry}
    {bytes : Bytes} (h : Encoded start offsets entries bytes) {keep : Nat}
    (hnone : offsets[keep]? = none) : entries.take keep = entries := by
  rw [List.getElem?_eq_none_iff, h.length_offsets] at hnone
  exact List.take_of_length_le hnone

end Encoded

theorem unfinished_of_prefix {stamp : UInt64} {entry : Entry}
    {bytes tail : Bytes} (h : encodeEntry stamp entry = Except.ok bytes)
    (hstarts : tail <+: bytes) (hshort : tail.length < bytes.length) :
    Unfinished tail := by
  by_cases hheader : tail.length < headerLen
  · exact Or.inl hheader
  · rw [encodeEntry_eq] at h
    rcases encode_parts h with ⟨header, hbytes, hkeyLen, hvalueLen, _⟩
    have htake : tail.take headerLen = header.encode := by
      rcases hstarts with ⟨rest, hrest⟩
      have hsame : (tail ++ rest).take headerLen = tail.take headerLen :=
        List.take_append_of_le_length (by omega)
      rw [← hsame, hrest, hbytes]
      simp
    have hlength : bytes.length = header.recordLen := by
      rw [hbytes]
      simp [Header.recordLen, hkeyLen, hvalueLen]
      omega
    refine Or.inr ?_
    rw [htake, Header.decode_encode, ← hlength]
    exact hshort

theorem unfinished_nil : Unfinished [] :=
  Or.inl (by decide)

/-- A file cut anywhere holds some whole entries and the start of one. -/
theorem Encoded.cut {start : Nat} {offsets : List Nat} {entries : List Entry}
    {bytes : Bytes} (h : Encoded start offsets entries bytes) (n : Nat) :
    exists keep whole tail, bytes.take n = whole ++ tail ∧
      Encoded start (offsets.take keep) (entries.take keep) whole ∧
      Unfinished tail := by
  induction h generalizing n with
  | nil start =>
      exact ⟨0, [], [], by simp, Encoded.nil start, unfinished_nil⟩
  | @cons start offsets entry entries bytes rest stamp hencode hrest ih =>
      by_cases hn : n < bytes.length
      · refine ⟨0, [], bytes.take n, ?_, Encoded.nil start,
          unfinished_of_prefix hencode (List.take_prefix n bytes) ?_⟩
        · rw [List.nil_append, List.take_append_of_le_length (by omega)]
        · rw [List.length_take]
          omega
      · rcases ih (n - bytes.length) with
          ⟨keep, whole, tail, htake, hwhole, htail⟩
        refine ⟨keep + 1, bytes ++ whole, tail, ?_,
          Encoded.cons stamp hencode hwhole, htail⟩
        rw [List.take_append, List.take_of_length_le (by omega), htake,
          List.append_assoc]

/-!
# The other two files
-/

def HardState.Fits (state : HardState) : Prop :=
  state.term < 2 ^ 64 ∧ forall vote, state.votedFor = some vote -> vote < noVote

theorem readHardState_encode {state : HardState} (h : state.Fits) :
    readHardState (some (encodeHardState state)) = Except.ok state := by
  rcases state with ⟨term, votedFor⟩
  rcases h with ⟨hterm, hvote⟩
  have hvoted : votedFor.getD noVote < 256 ^ 8 := by
    cases votedFor with
    | none => decide
    | some vote =>
        exact Nat.lt_trans (hvote vote rfl) (by decide)
  have hbody : (encodeHardState ⟨term, votedFor⟩).drop 4 =
      leBytes 8 term ++ leBytes 8 (votedFor.getD noVote) := by
    simp [encodeHardState]
  have hcrc : slice (encodeHardState ⟨term, votedFor⟩) 0 4 =
      leBytes 4 (Crc.crc32Parts
        [leBytes 8 term ++ leBytes 8 (votedFor.getD noVote)]).toNat := by
    simp [slice, encodeHardState]
  have htermAt : slice (encodeHardState ⟨term, votedFor⟩) 4 12 =
      leBytes 8 term := by
    rw [slice, hbody]
    simp
  have hvotedAt : slice (encodeHardState ⟨term, votedFor⟩) 12 20 =
      leBytes 8 (votedFor.getD noVote) := by
    simp [slice, encodeHardState, List.drop_append]
  have hlength : (encodeHardState ⟨term, votedFor⟩).length = hardStateLen := by
    simp [encodeHardState, hardStateLen]
  unfold readHardState
  dsimp only
  rw [if_neg (by omega), ← hlength, List.take_length, hbody, hcrc, htermAt,
    hvotedAt, fromLe_leBytes_of_lt (UInt32.toNat_lt _),
    UInt32.ofNat_toNat, if_neg (fun hne => hne rfl),
    fromLe_leBytes_of_lt hterm, fromLe_leBytes_of_lt hvoted]
  cases votedFor with
  | none => simp
  | some vote =>
      have hne : vote ≠ noVote := Nat.ne_of_lt (hvote vote rfl)
      simp [hne]

def SnapshotMeta.Fits (about : SnapshotMeta) : Prop :=
  about.index < 2 ^ 64 ∧ about.term < 2 ^ 64

/-- A membership that a snapshot can record: its length is not the one that
stands for none. -/
def SnapshotMembersFit (members : Option (List Member)) : Prop :=
  forall list, members = some list ->
    MembersFit list ∧ (encodeMembers list).length < noMembers

def snapshotFile (about : SnapshotMeta) (members : Option (List Member))
    (data : Bytes) : Bytes :=
  snapshotMagic ++
    leBytes 4 (Crc.crc32Parts [snapshotHeader about members, data]).toNat ++
    snapshotHeader about members ++ data

def membersPart (members : Option (List Member)) : Bytes :=
  match members with
  | some list => encodeMembers list
  | none => []

def membersLen (members : Option (List Member)) : Nat :=
  match members with
  | some list => (encodeMembers list).length
  | none => noMembers

theorem snapshotHeader_eq (about : SnapshotMeta)
    (members : Option (List Member)) :
    snapshotHeader about members =
      leBytes 8 about.index ++ leBytes 8 about.term ++
        leBytes 4 (membersLen members) ++ membersPart members := by
  unfold snapshotHeader membersLen membersPart
  cases members <;> simp

theorem snapshot_fixed (crc about rest : Bytes) (hcrc : crc.length = 4)
    (habout : about.length = 20) :
    slice (snapshotMagic ++ crc ++ about ++ rest) 4 28 = crc ++ about := by
  rw [List.append_assoc snapshotMagic crc about]
  exact slice_append snapshotMagic (crc ++ about) rest rfl (by simp [hcrc, habout])

theorem drop_snapshot (crc about encoded data : Bytes) (hcrc : crc.length = 4)
    (habout : about.length = 20) :
    (snapshotMagic ++ crc ++ about ++ (encoded ++ data)).drop
      (28 + encoded.length) = data := by
  have hlength : (snapshotMagic ++ crc ++ about ++ encoded).length =
      28 + encoded.length := by
    simp [hcrc, habout, snapshotMagic]
    omega
  rw [← List.append_assoc, ← hlength, List.drop_left]

/-- A file that starts with the marker is checked and taken apart, whatever its
length field makes of it. -/
theorem readSnapshotHeader_magic {about : SnapshotMeta} (hfits : about.Fits)
    {len : Nat} (hlen : len < 2 ^ 32) {encoded data : Bytes}
    {members : Option (List Member)} {crc : UInt32}
    (hmembers : forall front : Bytes, front.length = 28 ->
      readSnapshotMembers (front ++ (encoded ++ data)) len =
        Except.ok (members, encoded))
    (hcrc : Crc.crc32Parts [leBytes 8 about.index ++ leBytes 8 about.term ++
      leBytes 4 len, encoded, data] = crc) :
    readSnapshotHeader (some (snapshotMagic ++ leBytes 4 crc.toNat ++
      (leBytes 8 about.index ++ leBytes 8 about.term ++ leBytes 4 len) ++
        (encoded ++ data))) = Except.ok
      { about := about
        members := members
        dataAt := 28 + encoded.length
        dataLen := data.length } := by
  have hfixed := snapshot_fixed (leBytes 4 crc.toNat)
    (leBytes 8 about.index ++ leBytes 8 about.term ++ leBytes 4 len)
    (encoded ++ data) (by simp) (by simp)
  have hdata := drop_snapshot (leBytes 4 crc.toNat)
    (leBytes 8 about.index ++ leBytes 8 about.term ++ leBytes 4 len)
    encoded data (by simp) (by simp)
  have hread := hmembers (snapshotMagic ++ leBytes 4 crc.toNat ++
    (leBytes 8 about.index ++ leBytes 8 about.term ++ leBytes 4 len))
    (by simp [snapshotMagic])
  have hmagic : (snapshotMagic ++ leBytes 4 crc.toNat ++
      (leBytes 8 about.index ++ leBytes 8 about.term ++ leBytes 4 len) ++
        (encoded ++ data)).take 4 = snapshotMagic := by
    simp [snapshotMagic]
  have hlong : ¬ (snapshotMagic ++ leBytes 4 crc.toNat ++
      (leBytes 8 about.index ++ leBytes 8 about.term ++ leBytes 4 len) ++
        (encoded ++ data)).length < 4 := by
    simp [snapshotMagic]
  unfold readSnapshotHeader
  dsimp only
  rw [if_neg hlong, if_pos hmagic, hfixed]
  have hlenAt : slice (leBytes 4 crc.toNat ++ (leBytes 8 about.index ++
      leBytes 8 about.term ++ leBytes 4 len)) 20 24 = leBytes 4 len := by
    simp [slice, List.drop_append]
  have hcrcAt : slice (leBytes 4 crc.toNat ++ (leBytes 8 about.index ++
      leBytes 8 about.term ++ leBytes 4 len)) 0 4 = leBytes 4 crc.toNat := by
    simp [slice]
  have hindexAt : slice (leBytes 4 crc.toNat ++ (leBytes 8 about.index ++
      leBytes 8 about.term ++ leBytes 4 len)) 4 12 = leBytes 8 about.index := by
    simp [slice]
  have htermAt : slice (leBytes 4 crc.toNat ++ (leBytes 8 about.index ++
      leBytes 8 about.term ++ leBytes 4 len)) 12 20 = leBytes 8 about.term := by
    simp [slice, List.drop_append]
  have hcovered : (leBytes 4 crc.toNat ++ (leBytes 8 about.index ++
      leBytes 8 about.term ++ leBytes 4 len)).drop 4 = leBytes 8 about.index ++
      leBytes 8 about.term ++ leBytes 4 len := by
    simp
  rw [if_neg (by simp), hlenAt, fromLe_leBytes_of_lt hlen, hread]
  dsimp only [Except.bind]
  rw [hdata, hcovered, hcrcAt, hcrc, fromLe_leBytes_of_lt (UInt32.toNat_lt _),
    UInt32.ofNat_toNat, if_neg (fun hne => hne rfl), hindexAt, htermAt,
    fromLe_leBytes_of_lt hfits.1, fromLe_leBytes_of_lt hfits.2]

theorem readSnapshotMembers_encode {members : Option (List Member)}
    (h : SnapshotMembersFit members) (data : Bytes) {front : Bytes}
    (hfront : front.length = 28) :
    readSnapshotMembers (front ++ (membersPart members ++ data))
      (membersLen members) = Except.ok (members, membersPart members) := by
  cases members with
  | none =>
      unfold readSnapshotMembers membersLen
      rw [if_pos rfl]
      rfl
  | some list =>
      rcases h list rfl with ⟨hfit, hlt⟩
      have hslice : slice (front ++ (encodeMembers list ++ data)) 28
          (28 + (encodeMembers list).length) = encodeMembers list := by
        rw [← List.append_assoc]
        exact slice_append front (encodeMembers list) data hfront rfl
      unfold readSnapshotMembers membersLen membersPart
      dsimp only
      rw [if_neg (Nat.ne_of_lt hlt), hslice, if_neg (Nat.lt_irrefl _),
        decodeMembers_encodeMembers hfit]

theorem membersLen_lt {members : Option (List Member)}
    (h : SnapshotMembersFit members) : membersLen members < 2 ^ 32 := by
  cases members with
  | none => decide
  | some list => exact Nat.lt_trans (h list rfl).2 (by decide)

theorem length_snapshotHeader (about : SnapshotMeta)
    (members : Option (List Member)) :
    8 + (snapshotHeader about members).length =
      28 + (membersPart members).length := by
  rw [snapshotHeader_eq]
  simp
  omega

/-- A finished snapshot file says what it was made of. -/
theorem readSnapshotHeader_snapshotFile {about : SnapshotMeta}
    (hfits : about.Fits) {members : Option (List Member)}
    (hmembers : SnapshotMembersFit members) (data : Bytes) :
    readSnapshotHeader (some (snapshotFile about members data)) = Except.ok
      { about := about
        members := members
        dataAt := 8 + (snapshotHeader about members).length
        dataLen := data.length } := by
  have hread := readSnapshotHeader_magic hfits (membersLen_lt hmembers)
    (fun front hfront => readSnapshotMembers_encode hmembers data hfront) rfl
  rw [length_snapshotHeader, ← hread]
  unfold snapshotFile
  rw [snapshotHeader_eq, Crc.crc32Parts_append]
  simp

theorem drop_snapshotFile (about : SnapshotMeta)
    (members : Option (List Member)) (data : Bytes) :
    (snapshotFile about members data).drop
      (8 + (snapshotHeader about members).length) = data := by
  have hlength : (snapshotMagic ++
      leBytes 4 (Crc.crc32Parts [snapshotHeader about members, data]).toNat ++
      snapshotHeader about members).length =
      8 + (snapshotHeader about members).length := by
    simp [snapshotMagic]
    omega
  rw [snapshotFile, ← hlength, List.drop_left]

theorem dataLen_eq {file : Option Bytes} {header : SnapshotHeader}
    (h : readSnapshotHeader file = Except.ok header) :
    header.dataLen = ((file.getD []).drop header.dataAt).length := by
  cases file with
  | none =>
      cases h
      rfl
  | some bytes =>
      unfold readSnapshotHeader at h
      dsimp only at h
      split at h
      · cases h
      · split at h
        · split at h
          · cases h
          · cases hread : readSnapshotMembers bytes
              (fromLe (slice (slice bytes 4 28) 20 24)) with
            | error e =>
                rw [hread] at h
                cases h
            | ok read =>
                rw [hread] at h
                dsimp only [Except.bind] at h
                split at h
                · cases h
                · cases h
                  rfl
        · split at h
          · cases h
          · split at h
            · cases h
            · cases h
              rfl

end Raft
end Minicask
