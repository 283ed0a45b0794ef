import Minicask.Replay
import Minicask.Store.Basic

/-!
# The index says where the map is

A map of keys to values is what a store is for.  The index represents it when
exactly the keys of the map are in it and each points at a record that holds the
key's value, wherever that record is: in the writer's buffer, in the active file
or in any other.  Reading then answers from the map, and appending a record moves
it on by one write.
-/

namespace Minicask

open Replay

abbrev Contents := Bytes -> Option Bytes

def Rec.write (r : Rec) : Write Bytes Bytes where
  key := r.key
  value := r.value

/-- A record stands at an offset of some bytes. -/
def Located (bytes : Bytes) (offset : Nat) (r : Rec) : Prop :=
  exists before after, bytes = before ++ r.bytes ++ after ∧
    before.length = offset

theorem Located.append {bytes : Bytes} {offset : Nat} {r : Rec}
    (h : Located bytes offset r) (more : Bytes) :
    Located (bytes ++ more) offset r := by
  rcases h with ⟨before, after, hbytes, hoffset⟩
  exact ⟨before, after ++ more, by simp [hbytes], hoffset⟩

theorem Located.le {bytes : Bytes} {offset : Nat} {r : Rec}
    (h : Located bytes offset r) :
    offset + r.bytes.length <= bytes.length := by
  rcases h with ⟨before, after, hbytes, hoffset⟩
  rw [hbytes, List.length_append, List.length_append, hoffset]
  omega

theorem Located.slice {bytes : Bytes} {offset : Nat} {r : Rec}
    (h : Located bytes offset r) :
    slice bytes offset (offset + r.bytes.length) = r.bytes := by
  rcases h with ⟨before, after, hbytes, hoffset⟩
  rw [hbytes]
  exact slice_append before r.bytes after hoffset rfl

theorem decodeValue_bytes (r : Rec) (loc : Location) :
    decodeValue r.bytes loc = Except.ok r.payload := by
  have htake := r.take_bytes []
  have hdrop := r.drop_bytes []
  rw [List.append_nil] at htake hdrop
  rw [List.append_nil] at hdrop
  have hlength : ¬ r.bytes.length < headerLen := by
    rw [r.length_bytes]
    omega
  unfold decodeValue
  rw [if_neg hlength]
  simp only [htake, hdrop, Header.decode_encode, Rec.recordLen_header,
    Rec.keyLen_toNat, List.take_left, List.drop_left, Rec.verify_header]
  simp

namespace Store

/-- A data file as the store sees it, the buffer of the active one included. -/
def contents (s : Store) (id : FileId) : Bytes :=
  if id = s.writer.fileId then s.writer.contents s.dir
  else s.dir.disk.contents id

/-- A location points at a record.  The buffer's edge never falls inside it. -/
structure Holds (s : Store) (loc : Location) (r : Rec) : Prop where
  located : Located (s.contents loc.fileId) loc.offset r
  len : loc.len = UInt32.ofNat r.bytes.length
  readable : loc.fileId ∈ s.readers
  whole : loc.fileId = s.writer.fileId ->
    loc.offset + r.bytes.length <= s.writer.written ∨
      s.writer.written <= loc.offset

/-- The store's files and its account of them agree, and the active file is the
newest. -/
structure Ok (s : Store) : Prop where
  writer : s.writer.Ok s.dir
  active : s.writer.fileId ∈ s.readers
  linked : forall id, id ∈ s.readers -> id ∈ s.dir.disk.data
  newest : forall id, id ∈ s.dir.disk.data -> id <= s.writer.fileId

/-- The index represents a map. -/
structure Indexes (s : Store) (m : Contents) : Prop where
  live : forall k, s.keydir.lookup k = none ↔ m k = none
  held : forall k loc, s.keydir.lookup k = some loc ->
    exists r : Rec, r.key = k ∧ r.value = m k ∧ s.Holds loc r

theorem contents_active (s : Store) :
    s.contents s.writer.fileId = s.writer.contents s.dir := by
  rw [contents, if_pos rfl]

theorem contents_of_ne (s : Store) {id : FileId} (h : id ≠ s.writer.fileId) :
    s.contents id = s.dir.disk.contents id := by
  rw [contents, if_neg h]

/-!
# Reading
-/

theorem handle_of_mem {disk : Disk} {id : FileId} (h : id ∈ disk.data) :
    disk.handle id = disk.contents id := by
  rcases Option.isSome_iff_exists.mp (AList.lookup_isSome.mpr h) with
    ⟨file, hfile⟩
  rw [Disk.handle, Disk.contents, hfile]
  rfl

theorem readRecord_of_located {readers : List FileId} {dir : Dir}
    {loc : Location} {r : Rec}
    (hlocated : Located (dir.disk.handle loc.fileId) loc.offset r)
    (hlen : loc.len = UInt32.ofNat r.bytes.length)
    (hreadable : loc.fileId ∈ readers) :
    readRecord readers dir loc = Except.ok r.bytes := by
  rw [readRecord, if_pos hreadable, Dir.readAt, hlen, r.toNat_length_bytes]
  simp only [if_pos hlocated.le, hlocated.slice]

/-- The two ways a read can go, and either decodes the bytes of the location. -/
theorem get_eq_decode {s : Store} (hok : s.Ok) {k : Bytes} {loc : Location}
    (hlookup : s.keydir.lookup k = some loc) (hread : loc.fileId ∈ s.readers)
    (hthere : loc.offset + loc.len.toNat <= (s.contents loc.fileId).length)
    (hwhole : loc.fileId = s.writer.fileId ->
      loc.offset + loc.len.toNat <= s.writer.written ∨
        s.writer.written <= loc.offset) :
    s.get k = (decodeValue (slice (s.contents loc.fileId) loc.offset
      (loc.offset + loc.len.toNat)) loc).map some := by
  have hhandle := handle_of_mem (hok.linked loc.fileId hread)
  have hfile : loc.offset + loc.len.toNat <=
      (s.dir.disk.contents loc.fileId).length ->
      (readValue s.readers s.dir loc).map some =
        (decodeValue (slice (s.dir.disk.contents loc.fileId) loc.offset
          (loc.offset + loc.len.toNat)) loc).map some := by
    intro hle
    unfold readValue readRecord Dir.readAt
    rw [if_pos hread, hhandle]
    dsimp only
    rw [if_pos hle]
    rfl
  unfold get
  rw [hlookup]
  dsimp only
  by_cases hactive : loc.fileId = s.writer.fileId
  · rw [if_pos hactive]
    have hcontents : s.contents loc.fileId =
        s.dir.disk.contents s.writer.fileId ++ s.writer.pending := by
      rw [hactive, contents_active]
      rfl
    rw [hcontents, List.length_append, hok.writer.written] at hthere
    rw [hcontents]
    by_cases hbefore : loc.offset < s.writer.written
    · have hle : loc.offset + loc.len.toNat <= s.writer.written := by
        have hcases := hwhole hactive
        omega
      rw [LogWriter.buffered, if_pos hbefore,
        slice_append_of_le _ (by rw [hok.writer.written]; exact hle), ← hactive]
      apply hfile
      rw [hactive, hok.writer.written]
      exact hle
    · rw [LogWriter.buffered, if_neg hbefore, slice_append_of_ge _
        (by rw [hok.writer.written]; exact Nat.le_of_not_lt hbefore),
        hok.writer.written]
      have hstop : loc.offset - s.writer.written + loc.len.toNat =
          loc.offset + loc.len.toNat - s.writer.written := by
        omega
      dsimp only
      rw [hstop, if_pos (by omega)]
  · rw [if_neg hactive, contents_of_ne s hactive]
    rw [contents_of_ne s hactive] at hthere
    exact hfile hthere

theorem get_of_holds {s : Store} (hok : s.Ok) {k : Bytes} {loc : Location}
    {r : Rec} (hlookup : s.keydir.lookup k = some loc) (h : s.Holds loc r) :
    s.get k = Except.ok (some r.payload) := by
  have hlen : loc.len.toNat = r.bytes.length := by
    rw [h.len]
    exact r.toNat_length_bytes
  have hget := get_eq_decode hok hlookup h.readable
    (by rw [hlen]; exact h.located.le) (by rw [hlen]; exact h.whole)
  rw [hlen, h.located.slice, decodeValue_bytes] at hget
  exact hget

/-- Reading answers from the map. -/
theorem get_eq {s : Store} {m : Contents} (hok : s.Ok) (h : s.Indexes m)
    (k : Bytes) : s.get k = Except.ok (m k) := by
  cases hlookup : s.keydir.lookup k with
  | none =>
      rw [(h.live k).mp hlookup, get, hlookup]
  | some loc =>
      rcases h.held k loc hlookup with ⟨r, _, hvalue, hholds⟩
      rw [get_of_holds hok hlookup hholds]
      cases hm : m k with
      | none =>
          rw [(h.live k).mpr hm] at hlookup
          cases hlookup
      | some value =>
          rw [r.value_eq_some (hvalue.trans hm)]

theorem containsKey_eq {s : Store} {m : Contents} (h : s.Indexes m)
    (k : Bytes) : s.containsKey k = (m k).isSome := by
  have hlive := h.live k
  unfold containsKey
  cases hlookup : s.keydir.lookup k with
  | none =>
      rw [hlive.mp hlookup]
      rfl
  | some loc =>
      cases hm : m k with
      | none =>
          rw [hlive.mpr hm] at hlookup
          cases hlookup
      | some value => rfl

theorem mem_keys_iff {s : Store} {m : Contents} (h : s.Indexes m)
    (k : Bytes) : k ∈ s.keys ↔ (m k).isSome := by
  rw [keys, ← AList.mem_keys, ← AList.lookup_isSome, ← containsKey_eq h]
  rfl

/-!
# Writing
-/

/-- Every record stays where the index can find it. -/
def Carries (s s' : Store) : Prop :=
  forall loc r, s.Holds loc r -> s'.Holds loc r

theorem Indexes.carried {s s' : Store} {m : Contents} (h : s.Indexes m)
    (hcarries : s.Carries s') (hkeydir : s'.keydir = s.keydir) :
    s'.Indexes m := by
  refine ⟨?_, ?_⟩
  · intro k
    rw [hkeydir]
    exact h.live k
  · intro k loc hlookup
    rw [hkeydir] at hlookup
    rcases h.held k loc hlookup with ⟨r, hkey, hvalue, hholds⟩
    exact ⟨r, hkey, hvalue, hcarries loc r hholds⟩

theorem Indexes.insert {s s' : Store} {m : Contents} (h : s.Indexes m)
    (hcarries : s.Carries s') {r : Rec} {loc : Location}
    (hvalue : r.value ≠ none)
    (hkeydir : s'.keydir = s.keydir.insert r.key loc)
    (hholds : s'.Holds loc r) : s'.Indexes (act m r.write) := by
  refine ⟨?_, ?_⟩
  · intro k
    rw [hkeydir]
    by_cases hk : k = r.key
    · subst hk
      rw [show act m r.write r.key = r.value from act_self m r.write]
      simp [hvalue]
    · rw [AList.lookup_insert_ne hk, act_of_ne m r.write hk]
      exact h.live k
  · intro k loc' hlookup
    rw [hkeydir] at hlookup
    by_cases hk : k = r.key
    · subst hk
      rw [AList.lookup_insert, Option.some.injEq] at hlookup
      subst hlookup
      exact ⟨r, rfl, (act_self m r.write).symm, hholds⟩
    · rw [AList.lookup_insert_ne hk] at hlookup
      rcases h.held k loc' hlookup with ⟨r', hkey', hvalue', hholds'⟩
      refine ⟨r', hkey', ?_, hcarries loc' r' hholds'⟩
      rw [hvalue', act_of_ne m r.write hk]

theorem Indexes.erase {s s' : Store} {m : Contents} (h : s.Indexes m)
    (hcarries : s.Carries s') {r : Rec} (hvalue : r.value = none)
    (hkeydir : s'.keydir = s.keydir.erase r.key) :
    s'.Indexes (act m r.write) := by
  refine ⟨?_, ?_⟩
  · intro k
    rw [hkeydir]
    by_cases hk : k = r.key
    · subst hk
      rw [show act m r.write r.key = r.value from act_self m r.write]
      simp [hvalue]
    · rw [AList.lookup_erase_ne hk, act_of_ne m r.write hk]
      exact h.live k
  · intro k loc hlookup
    rw [hkeydir] at hlookup
    by_cases hk : k = r.key
    · subst hk
      rw [AList.lookup_erase] at hlookup
      cases hlookup
    · rw [AList.lookup_erase_ne hk] at hlookup
      rcases h.held k loc hlookup with ⟨r', hkey', hvalue', hholds'⟩
      refine ⟨r', hkey', ?_, hcarries loc r' hholds'⟩
      rw [hvalue', act_of_ne m r.write hk]

/-- The active file moved on: everything in it stays where it was, and a record
appended to it is where the writer was. -/
structure Advanced (s : Store) (bytes : Bytes) (s' : Store) : Prop where
  appended : LogWriter.Appended s.writer s.dir bytes s'.writer s'.dir
  readers : s'.readers = s.readers

theorem Advanced.contents {s s' : Store} {bytes : Bytes}
    (h : s.Advanced bytes s') (id : FileId) :
    s'.contents id = s.contents id ++
      (if id = s.writer.fileId then bytes else []) := by
  unfold Store.contents
  rw [h.appended.fileId]
  by_cases hid : id = s.writer.fileId
  · simp only [if_pos hid]
    exact h.appended.contents
  · simp only [if_neg hid, List.append_nil]
    exact h.appended.frame.contents hid

theorem Advanced.ok {s s' : Store} {bytes : Bytes} (hok : s.Ok)
    (h : s.Advanced bytes s') : s'.Ok where
  writer := h.appended.ok
  active := by
    rw [h.appended.fileId, h.readers]
    exact hok.active
  linked id hid := by
    rw [h.readers] at hid
    by_cases heq : id = s.writer.fileId
    · rw [heq]
      exact h.appended.frame.linked hok.writer.linked
    · rw [← AList.lookup_isSome, h.appended.frame.lookup id heq,
        AList.lookup_isSome]
      exact hok.linked id hid
  newest id hid := by
    rw [h.appended.fileId]
    by_cases heq : id = s.writer.fileId
    · exact Nat.le_of_eq heq
    · rw [← AList.lookup_isSome, h.appended.frame.lookup id heq,
        AList.lookup_isSome] at hid
      exact hok.newest id hid

theorem Advanced.carries {s s' : Store} {bytes : Bytes} (hok : s.Ok)
    (h : s.Advanced bytes s') : s.Carries s' := by
  intro loc r hholds
  refine ⟨?_, hholds.len, ?_, ?_⟩
  · rw [h.contents loc.fileId]
    exact hholds.located.append _
  · rw [h.readers]
    exact hholds.readable
  · intro hactive
    rw [h.appended.fileId] at hactive
    have hle := hholds.located.le
    rw [hactive, contents_active, hok.writer.length_contents] at hle
    have hoffset := h.appended.offset hok.writer
    rcases h.appended.boundary with hsame | hall
    · rw [hsame]
      exact hholds.whole hactive
    · exact Or.inl (by omega)

theorem Advanced.holds {s s' : Store} {r : Rec} (hok : s.Ok)
    (h : s.Advanced r.bytes s') {loc : Location}
    (hfileId : loc.fileId = s'.writer.fileId)
    (hoffset : loc.offset = s.writer.offset)
    (hlen : loc.len = UInt32.ofNat r.bytes.length) : s'.Holds loc r := by
  refine ⟨?_, hlen, ?_, ?_⟩
  · rw [hfileId, contents_active, h.appended.contents]
    refine ⟨s.writer.contents s.dir, [], by simp, ?_⟩
    rw [hok.writer.length_contents, hoffset]
  · rw [hfileId, h.readers, h.appended.fileId]
    exact hok.active
  · intro _
    have hnew := h.appended.offset hok.writer
    have hold := hok.writer.offset
    rcases h.appended.boundary with hsame | hall
    · exact Or.inr (by omega)
    · exact Or.inl (by omega)

theorem advanced_append {s : Store} (hok : s.Ok) (bytes : Bytes)
    (reach : Reach) {s' : Store}
    (hwriter : s'.writer = (s.writer.append s.dir bytes reach).2.1)
    (hdir : s'.dir = (s.writer.append s.dir bytes reach).2.2)
    (hreaders : s'.readers = s.readers) : s.Advanced bytes s' := by
  refine ⟨?_, hreaders⟩
  rw [hwriter, hdir]
  exact (LogWriter.appended_append hok.writer bytes reach).2

theorem advanced_sync {s : Store} (hok : s.Ok) : s.Advanced [] s.sync :=
  ⟨(LogWriter.appended_sync hok.writer).1, rfl⟩

/-!
# Sealing the active file
-/

theorem contents_sync {s : Store} (hok : s.Ok) (id : FileId) :
    s.sync.dir.disk.contents id = s.contents id := by
  have hpending : s.sync.writer.pending = [] :=
    (LogWriter.appended_sync hok.writer).2
  have hcontents := (advanced_sync hok).contents id
  have hfile : s.sync.contents id = s.sync.dir.disk.contents id := by
    unfold Store.contents
    split
    · next heq => rw [heq, LogWriter.contents, hpending, List.append_nil]
    · rfl
  rw [← hfile, hcontents]
  split <;> simp

theorem writer_sealInto (s : Store) (nextId : FileId) :
    (s.sealInto nextId).writer.fileId = nextId := rfl

theorem lookup_sealInto (s : Store) (nextId other : FileId) :
    (s.sealInto nextId).dir.disk.data.lookup other =
      if other = nextId then
        some ((s.sync.dir.disk.data.lookup nextId).getD {})
      else s.sync.dir.disk.data.lookup other := by
  exact Dir.lookup_create _ nextId other

theorem hints_sealInto (s : Store) (nextId : FileId) :
    (s.sealInto nextId).dir.disk.hints =
      s.sync.dir.disk.hints.insert s.writer.fileId
        (Hint.encode s.sync.writer.offset s.activeHints) := by
  have hid : s.sync.writer.fileId = s.writer.fileId := by
    show ((s.writer.flush s.dir).1).fileId = _
    unfold LogWriter.flush
    split <;> rfl
  show ((Hint.write s.sync.dir s.sync.writer.fileId s.sync.writer.offset
    s.activeHints).create nextId).disk.hints = _
  rw [Dir.hints_create, hid]
  rfl

theorem not_mem_of_gt {s : Store} (hok : s.Ok) {id : FileId}
    (h : s.writer.fileId < id) : id ∉ s.sync.dir.disk.data := by
  intro hmem
  have hle := ((advanced_sync hok).ok hok).newest id hmem
  rw [(advanced_sync hok).appended.fileId] at hle
  exact Nat.not_le_of_lt h hle

theorem contents_sealInto {s : Store} (hok : s.Ok) {nextId : FileId}
    (hnext : s.writer.fileId < nextId) (id : FileId) :
    (s.sealInto nextId).dir.disk.contents id =
      if id = nextId then [] else s.contents id := by
  rw [Disk.contents, lookup_sealInto]
  split
  · rw [AList.lookup_eq_none.mpr (not_mem_of_gt hok hnext)]
    rfl
  · exact contents_sync hok id

theorem mem_sealInto {s : Store} (hok : s.Ok) (nextId id : FileId) :
    id ∈ (s.sealInto nextId).dir.disk.data ↔
      id = nextId ∨ id ∈ s.dir.disk.data := by
  have hframe := (advanced_sync hok).appended.frame
  rw [← AList.lookup_isSome, lookup_sealInto]
  by_cases heq : id = nextId
  · simp [heq]
  · rw [if_neg heq, AList.lookup_isSome]
    simp only [heq, false_or]
    exact hframe.mem_iff hok.writer.linked id

theorem ok_sealInto {s : Store} (hok : s.Ok) {nextId : FileId}
    (hnext : s.writer.fileId < nextId) : (s.sealInto nextId).Ok where
  writer := LogWriter.ok_openFile
  active := List.mem_insert_self
  linked id hid := by
    rw [mem_sealInto hok]
    rcases List.mem_insert_iff.mp hid with heq | hmem
    · exact Or.inl heq
    · exact Or.inr (hok.linked id hmem)
  newest id hid := by
    rw [writer_sealInto]
    rcases (mem_sealInto hok nextId id).mp hid with heq | hmem
    · exact Nat.le_of_eq heq
    · exact Nat.le_of_lt (Nat.lt_of_le_of_lt (hok.newest id hmem) hnext)

theorem carries_sealInto {s : Store} (hok : s.Ok) {nextId : FileId}
    (hnext : s.writer.fileId < nextId) : s.Carries (s.sealInto nextId) := by
  intro loc r hholds
  have hle := hok.newest loc.fileId (hok.linked loc.fileId hholds.readable)
  have hne : loc.fileId ≠ nextId := Nat.ne_of_lt (Nat.lt_of_le_of_lt hle hnext)
  refine ⟨?_, hholds.len, List.mem_insert_of_mem hholds.readable, ?_⟩
  · rw [contents_of_ne _ hne, contents_sealInto hok hnext, if_neg hne]
    exact hholds.located
  · intro hactive
    exact absurd hactive hne

/-- Rolling over moves no record out of the index's sight. -/
theorem rolled {s : Store} (hok : s.Ok) (incoming : Nat) :
    (s.rollIfNeeded incoming).Ok ∧ s.Carries (s.rollIfNeeded incoming) ∧
      (s.rollIfNeeded incoming).keydir = s.keydir ∧
      (s.rollIfNeeded incoming).restoring = s.restoring ∧
      (s.rollIfNeeded incoming).compacting = s.compacting := by
  unfold rollIfNeeded
  split
  · exact ⟨hok, fun _ _ h => h, rfl, rfl, rfl⟩
  · have hnext : s.writer.fileId < s.writer.fileId + 1 := Nat.lt_succ_self _
    exact ⟨ok_sealInto hok hnext, carries_sealInto hok hnext, rfl, rfl, rfl⟩

/-!
# Puts and deletes
-/

/-- A record was appended, after a rollover if one was due, and noted for the
hint. -/
structure Wrote (s : Store) (r : Rec) (s' : Store) : Prop where
  advanced : (s.rollIfNeeded r.bytes.length).Advanced r.bytes s'
  noted : exists e : HintEntry,
    s'.activeHints = (s.rollIfNeeded r.bytes.length).activeHints ++ [e] ∧
      e.key = r.key ∧
      e.offset = (s.rollIfNeeded r.bytes.length).writer.offset ∧
      e.len = UInt32.ofNat r.bytes.length ∧
      e.tombstone = r.value.isNone
  keydir : forall k loc, s'.keydir.lookup k = some loc ->
    s.keydir.lookup k = some loc ∨ loc.fileId = s'.writer.fileId
  restoring : s'.restoring = s.restoring
  compacting : s'.compacting = s.compacting

theorem Wrote.ok {s s' : Store} {r : Rec} (hok : s.Ok) (h : s.Wrote r s') :
    s'.Ok :=
  h.advanced.ok (rolled hok _).1

theorem Wrote.carries {s s' : Store} {r : Rec} (hok : s.Ok)
    (h : s.Wrote r s') : s.Carries s' := by
  intro loc r' hholds
  exact h.advanced.carries (rolled hok _).1 loc r'
    ((rolled hok _).2.1 loc r' hholds)

theorem Wrote.indexes_insert {s s' : Store} {r : Rec} (hok : s.Ok)
    (h : s.Wrote r s') {loc : Location} (hvalue : r.value ≠ none)
    (hkeydir : s'.keydir = s.keydir.insert r.key loc)
    (hfileId : loc.fileId = s'.writer.fileId)
    (hoffset : loc.offset = (s.rollIfNeeded r.bytes.length).writer.offset)
    (hlen : loc.len = UInt32.ofNat r.bytes.length) {m : Contents}
    (hindexes : s.Indexes m) : s'.Indexes (act m r.write) :=
  hindexes.insert (h.carries hok) hvalue hkeydir
    (h.advanced.holds (rolled hok _).1 hfileId hoffset hlen)

theorem Wrote.indexes_erase {s s' : Store} {r : Rec} (hok : s.Ok)
    (h : s.Wrote r s') (hvalue : r.value = none)
    (hkeydir : s'.keydir = s.keydir.erase r.key) {m : Contents}
    (hindexes : s.Indexes m) : s'.Indexes (act m r.write) :=
  hindexes.erase (h.carries hok) hvalue hkeydir

theorem lookup_insert_cases {keydir : Keydir} {key k : Bytes}
    {loc loc' : Location} (h : (keydir.insert key loc).lookup k = some loc') :
    keydir.lookup k = some loc' ∨ loc' = loc := by
  by_cases hk : k = key
  · rw [hk, AList.lookup_insert, Option.some.injEq] at h
    exact Or.inr h.symm
  · rw [AList.lookup_insert_ne hk] at h
    exact Or.inl h

theorem lookup_of_erase {keydir : Keydir} {key k : Bytes} {loc : Location}
    (h : (keydir.erase key).lookup k = some loc) :
    keydir.lookup k = some loc := by
  by_cases hk : k = key
  · rw [hk, AList.lookup_erase] at h
    cases h
  · rwa [AList.lookup_erase_ne hk] at h

theorem putWith_eq_ok {s s' : Store} {key value : Bytes} {reach : Reach}
    {now later : UInt64}
    (h : s.putWith key value reach now later = Except.ok s') :
    s.restoring = false ∧ exists bytes rolled landed writer dir,
      encode key (some value) now = Except.ok bytes ∧
      rolled = s.rollIfNeeded bytes.length ∧
      (landed, writer, dir) = rolled.writer.append rolled.dir bytes reach ∧
      s' = { rolled with
        dir := dir
        writer := writer
        activeHints := rolled.activeHints ++
          [{ key := key
             offset := landed.1
             len := landed.2
             tstamp := later
             tombstone := false }]
        diskBytes := rolled.diskBytes + landed.2.toNat
        liveBytes := rolled.liveBytes - rolled.liveLen key + landed.2.toNat
        keydir := rolled.keydir.insert key
          { fileId := writer.fileId
            offset := landed.1
            len := landed.2
            tstamp := later } } := by
  unfold putWith at h
  split at h
  · cases h
  · next hwritable =>
      split at h
      · cases h
      · next bytes hencode =>
          cases h
          exact ⟨Bool.eq_false_iff.mpr hwritable, bytes, _, _, _, _, hencode, rfl,
            rfl, rfl⟩

theorem deleteWith_eq_ok {s s' : Store} {key : Bytes} {reach : Reach}
    {now later : UInt64} {was : Bool}
    (h : s.deleteWith key reach now later = Except.ok (s', was)) :
    s.restoring = false ∧ s.containsKey key = was ∧
      ((was = false ∧ s' = s) ∨
        (was = true ∧ exists bytes rolled landed writer dir,
          encode key none now = Except.ok bytes ∧
          rolled = s.rollIfNeeded bytes.length ∧
          (landed, writer, dir) = rolled.writer.append rolled.dir bytes reach ∧
          s' = { rolled with
            dir := dir
            writer := writer
            activeHints := rolled.activeHints ++
              [{ key := key
                 offset := landed.1
                 len := landed.2
                 tstamp := later
                 tombstone := true }]
            diskBytes := rolled.diskBytes + landed.2.toNat
            liveBytes := rolled.liveBytes - rolled.liveLen key
            keydir := rolled.keydir.erase key })) := by
  unfold deleteWith at h
  split at h
  · cases h
  · next hwritable =>
      have hplain := Bool.eq_false_iff.mpr hwritable
      split at h
      · next habsent =>
          cases h
          exact ⟨hplain, (Bool.not_eq_true' _).mp habsent, Or.inl ⟨rfl, rfl⟩⟩
      · next hlive =>
          split at h
          · cases h
          · next bytes hencode =>
              cases h
              rw [Bool.not_eq_true', Bool.not_eq_false] at hlive
              exact ⟨hplain, hlive, Or.inr ⟨rfl, bytes, _, _, _, _, hencode, rfl,
                rfl, rfl⟩⟩

theorem putWith_rec {s : Store} (hok : s.Ok) (hwritable : s.restoring = false)
    (r : Rec) {value : Bytes} (hvalue : r.value = some value) (reach : Reach)
    (later : UInt64) :
    exists s', s.putWith r.key value reach r.tstamp later = Except.ok s' ∧
      s.Wrote r s' ∧
      forall m, s.Indexes m -> s'.Indexes (act m r.write) := by
  rcases rolled hok r.bytes.length with
    ⟨hrolled, _, hkeydir, hrestoring, hcompacting⟩
  have hlanded :=
    (LogWriter.appended_append hrolled.writer r.bytes reach).1
  have hencode := encode_rec r
  rw [hvalue] at hencode
  have hput : exists s' loc,
      s.putWith r.key value reach r.tstamp later = Except.ok s' ∧
      s.Wrote r s' ∧ s'.keydir = s.keydir.insert r.key loc ∧
      loc.fileId = s'.writer.fileId ∧
      loc.offset = (s.rollIfNeeded r.bytes.length).writer.offset ∧
      loc.len = UInt32.ofNat r.bytes.length := by
    unfold putWith
    rw [if_neg (by simp [hwritable]), hencode]
    refine ⟨_, _, rfl, ⟨advanced_append hrolled r.bytes reach rfl rfl rfl,
      ⟨_, rfl, rfl, congrArg Prod.fst hlanded, congrArg Prod.snd hlanded,
        by rw [hvalue]; rfl⟩, ?_, hrestoring, hcompacting⟩,
      by rw [← hkeydir], rfl, congrArg Prod.fst hlanded,
      congrArg Prod.snd hlanded⟩
    intro k loc hlookup
    rcases lookup_insert_cases hlookup with hold | hnew
    · rw [hkeydir] at hold
      exact Or.inl hold
    · exact Or.inr (by rw [hnew])
  rcases hput with ⟨s', loc, hput, hwrote, hkeydir', hfileId, hoffset, hlen⟩
  refine ⟨s', hput, hwrote, ?_⟩
  intro m hindexes
  exact hwrote.indexes_insert hok (by simp [hvalue]) hkeydir' hfileId hoffset
    hlen hindexes

theorem deleteWith_rec {s : Store} (hok : s.Ok)
    (hwritable : s.restoring = false) (r : Rec) (hvalue : r.value = none)
    (hlive : s.containsKey r.key = true) (reach : Reach) (later : UInt64) :
    exists s',
      s.deleteWith r.key reach r.tstamp later = Except.ok (s', true) ∧
      s.Wrote r s' ∧
      forall m, s.Indexes m -> s'.Indexes (act m r.write) := by
  rcases rolled hok r.bytes.length with
    ⟨hrolled, _, hkeydir, hrestoring, hcompacting⟩
  have hlanded :=
    (LogWriter.appended_append hrolled.writer r.bytes reach).1
  have hencode := encode_rec r
  rw [hvalue] at hencode
  have hdelete : exists s',
      s.deleteWith r.key reach r.tstamp later = Except.ok (s', true) ∧
      s.Wrote r s' ∧ s'.keydir = s.keydir.erase r.key := by
    unfold deleteWith
    rw [if_neg (by simp [hwritable]), if_neg (by simp [hlive]), hencode]
    refine ⟨_, rfl, ⟨advanced_append hrolled r.bytes reach rfl rfl rfl,
      ⟨_, rfl, rfl, congrArg Prod.fst hlanded, congrArg Prod.snd hlanded,
        by rw [hvalue]; rfl⟩, ?_, hrestoring, hcompacting⟩,
      by rw [← hkeydir]⟩
    intro k loc hlookup
    have hold := lookup_of_erase hlookup
    rw [hkeydir] at hold
    exact Or.inl hold
  rcases hdelete with ⟨s', hdelete, hwrote, hkeydir'⟩
  refine ⟨s', hdelete, hwrote, ?_⟩
  intro m hindexes
  exact hwrote.indexes_erase hok hvalue hkeydir' hindexes

theorem deleteWith_absent {s : Store} (hwritable : s.restoring = false)
    {key : Bytes} (habsent : s.containsKey key = false) (reach : Reach)
    (now later : UInt64) :
    s.deleteWith key reach now later = Except.ok (s, false) := by
  rw [deleteWith, if_neg (by simp [hwritable]), if_pos (by simp [habsent])]

theorem putWith_spec {s : Store} (hok : s.Ok) {m : Contents}
    (hindexes : s.Indexes m) (hwritable : s.restoring = false)
    {key value : Bytes} (hkey : key ≠ [])
    (hshort : headerLen + key.length + value.length < 2 ^ 32) (reach : Reach)
    (now later : UInt64) :
    exists s' r, s.putWith key value reach now later = Except.ok s' ∧
      r.write = { key := key, value := some value } ∧ s.Wrote r s' ∧
      s'.Indexes (act m { key := key, value := some value }) := by
  let r : Rec := ⟨key, some value, now, hkey, hshort⟩
  rcases putWith_rec hok hwritable r rfl reach later with
    ⟨s', hput, hwrote, hindexes'⟩
  exact ⟨s', r, hput, rfl, hwrote, hindexes' m hindexes⟩

theorem Indexes.tombstone {s : Store} {m : Contents} (h : s.Indexes m)
    {key : Bytes} (hlive : s.containsKey key = true) (tstamp : UInt64) :
    exists r : Rec, r.key = key ∧ r.value = none ∧ r.tstamp = tstamp := by
  rcases Option.isSome_iff_exists.mp hlive with ⟨loc, hlookup⟩
  rcases h.held key loc hlookup with ⟨old, hold, _, _⟩
  have hshort : headerLen + key.length +
      ((none : Option Bytes).getD []).length < 2 ^ 32 := by
    have := old.short
    rw [hold] at this
    simp only [Option.getD_none, List.length_nil]
    omega
  exact ⟨⟨key, none, tstamp, hold ▸ old.nonempty, hshort⟩, rfl, rfl, rfl⟩

theorem wrote_of_putWith {s s' : Store} (hok : s.Ok) {key value : Bytes}
    (hshort : headerLen + key.length + value.length < 2 ^ 32) {reach : Reach}
    {now later : UInt64}
    (hput : s.putWith key value reach now later = Except.ok s') :
    exists r : Rec, r.key = key ∧ r.value = some value ∧ r.tstamp = now ∧
      s.restoring = false ∧ s.Wrote r s' ∧
      forall m, s.Indexes m -> s'.Indexes (act m r.write) := by
  rcases putWith_eq_ok hput with ⟨hwritable, bytes, _, _, _, _, hencode, _⟩
  have hkey : key ≠ [] := by
    intro hnil
    rw [hnil, encode_nil] at hencode
    cases hencode
  let r : Rec := ⟨key, some value, now, hkey, hshort⟩
  rcases putWith_rec hok hwritable r rfl reach later with
    ⟨s'', hput', hwrote, hindexes⟩
  have hsame : s'' = s' := Except.ok.inj (hput'.symm.trans hput)
  subst hsame
  exact ⟨r, rfl, rfl, rfl, hwritable, hwrote, hindexes⟩

theorem wrote_of_deleteWith {s s' : Store} (hok : s.Ok) {m : Contents}
    (hindexes : s.Indexes m) {key : Bytes} {reach : Reach} {now later : UInt64}
    {was : Bool}
    (hdelete : s.deleteWith key reach now later = Except.ok (s', was)) :
    s' = s ∨ exists r : Rec, r.key = key ∧ r.value = none ∧ r.tstamp = now ∧
      s.restoring = false ∧ s.containsKey key = true ∧ s.Wrote r s' ∧
      forall m, s.Indexes m -> s'.Indexes (act m r.write) := by
  rcases deleteWith_eq_ok hdelete with ⟨hwritable, hlive, ⟨_, hsame⟩ | ⟨rfl, _⟩⟩
  · exact Or.inl hsame
  · rcases hindexes.tombstone hlive now with ⟨r, rfl, hvalue, rfl⟩
    rcases deleteWith_rec hok hwritable r hvalue hlive reach later with
      ⟨s'', hdelete', hwrote, hindexes'⟩
    have hsame : s'' = s' :=
      congrArg Prod.fst (Except.ok.inj (hdelete'.symm.trans hdelete))
    subst hsame
    exact Or.inr ⟨r, rfl, hvalue, rfl, hwritable, hlive, hwrote, hindexes'⟩

/-- A delete appends nothing when the key is not there. -/
theorem deleteWith_spec {s : Store} (hok : s.Ok) {m : Contents}
    (hindexes : s.Indexes m) (hwritable : s.restoring = false) (key : Bytes)
    (reach : Reach) (now later : UInt64) :
    exists s', s.deleteWith key reach now later =
        Except.ok (s', (m key).isSome) ∧
      s'.Indexes (act m { key := key, value := none }) ∧
      ((s' = s ∧ m key = none) ∨
        exists r : Rec, r.write = { key := key, value := none } ∧
          s.Wrote r s') := by
  have hcontains := containsKey_eq hindexes key
  cases hm : m key with
  | none =>
      rw [hm] at hcontains
      refine ⟨s, deleteWith_absent hwritable hcontains reach now later, ?_,
        Or.inl ⟨rfl, rfl⟩⟩
      rw [act_eq_self hm]
      exact hindexes
  | some value =>
      rw [hm] at hcontains
      rcases hindexes.tombstone hcontains now with ⟨r, rfl, hvalue, rfl⟩
      rcases deleteWith_rec hok hwritable r hvalue hcontains reach later with
        ⟨s', hdelete, hwrote, hindexes'⟩
      have hwrite : r.write = { key := r.key, value := none } := by
        rw [Rec.write, hvalue]
      refine ⟨s', hdelete, ?_, Or.inr ⟨r, hwrite, hwrote⟩⟩
      rw [← hwrite]
      exact hindexes' m hindexes

end Store

end Minicask
