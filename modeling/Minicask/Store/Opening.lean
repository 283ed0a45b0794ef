import Minicask.Store.Layout

/-!
# Opening a store

The files are read oldest first, each from its hint as far as that goes and by
scanning after it, and the index is what replaying them gives.  The newest file
may end in part of a record, which is cut off.
-/

namespace Minicask

open Replay

/-!
# Scanning
-/

theorem length_le_join (rs : List Rec) : rs.length <= (Rec.join rs).length := by
  induction rs with
  | nil => exact Nat.le_refl 0
  | cons r rs ih =>
      have hpos := List.length_pos_iff.mpr r.bytes_ne_nil
      rw [Rec.join_cons, List.length_append, List.length_cons]
      omega

/-- Part of a record, or nothing. -/
def Torn (tail : Bytes) : Prop :=
  tail = [] ∨ exists r : Rec, tail <+: r.bytes ∧ tail.length < r.bytes.length

/-- The scan recovers the whole records and reports what is left over. -/
theorem scanLoop_join {tail : Bytes} (htail : Torn tail) (rs : List Rec)
    (start : Nat) {turns : Nat} (hturns : rs.length < turns) :
    exists es torn,
      scanLoop turns { rest := Rec.join rs ++ tail, offset := start } =
        (es, torn) ∧
      Hint.Describes start es rs ∧
      (tail = [] -> torn = none) ∧
      (tail ≠ [] -> exists detail,
        torn = some (start + (Rec.join rs).length, detail)) := by
  induction rs generalizing start turns with
  | nil =>
      cases turns with
      | zero => cases hturns
      | succ turns =>
          rcases htail with hnil | ⟨r, hprefix, hshort⟩
          · refine ⟨[], none, ?_, Hint.Describes.nil start, fun _ => rfl,
              fun hne => absurd hnil hne⟩
            simp [scanLoop, hnil]
          · by_cases hnil : tail = []
            · refine ⟨[], none, ?_, Hint.Describes.nil start, fun _ => rfl,
                fun hne => absurd hnil hne⟩
              simp [scanLoop, hnil]
            · rcases Scanner.nextRecord_torn r hprefix hnil hshort start with
                ⟨detail, hnext⟩
              refine ⟨[], some (start, detail), ?_, Hint.Describes.nil start,
                fun h => absurd h hnil, fun _ => ⟨detail, rfl⟩⟩
              simp [scanLoop, hnext]
  | cons r rs ih =>
      cases turns with
      | zero => cases hturns
      | succ turns =>
          rcases ih (start + r.bytes.length) (by simpa using hturns) with
            ⟨es, torn, hscan, hdescribes, hclean, htorn⟩
          refine ⟨_, torn, ?_, Hint.Describes.cons (e := ⟨r.key, start,
            UInt32.ofNat r.bytes.length, r.tstamp, r.value.isNone⟩) rfl rfl rfl
            rfl hdescribes, hclean, ?_⟩
          · rw [Rec.join_cons, List.append_assoc, scanLoop,
              Scanner.nextRecord_bytes]
            simp only [hscan, Rec.isTombstone_header]
            rfl
          · intro hne
            rcases htorn hne with ⟨detail, heq⟩
            refine ⟨detail, ?_⟩
            rw [heq, Rec.join_cons, List.length_append, Nat.add_assoc]

/-!
# Indexing
-/

/-- An index that points at the records of a chart. -/
structure Points (chart : Chart) (keydir : Keydir) (m : Contents) : Prop where
  live : forall k, keydir.lookup k = none ↔ m k = none
  held : forall k loc, keydir.lookup k = some loc ->
    exists r before after, chart loc.fileId = before ++ r :: after ∧
      loc.offset = (Rec.join before).length ∧
      loc.len = UInt32.ofNat r.bytes.length ∧ r.key = k ∧ r.value = m k

theorem Points.empty (chart : Chart) :
    Points chart ∅ (Replay.empty : Contents) := by
  refine ⟨fun k => ⟨fun _ => rfl, fun _ => rfl⟩, ?_⟩
  intro k loc hlookup
  cases hlookup

theorem Points.insert {chart : Chart} {keydir : Keydir} {m : Contents}
    (h : Points chart keydir m) {id : FileId} {r : Rec}
    {before after : List Rec} (hchart : chart id = before ++ r :: after)
    (hvalue : r.value ≠ none) {loc : Location} (hid : loc.fileId = id)
    (hoffset : loc.offset = (Rec.join before).length)
    (hlen : loc.len = UInt32.ofNat r.bytes.length) :
    Points chart (keydir.insert r.key loc) (act m r.write) := by
  refine ⟨?_, ?_⟩
  · intro k
    by_cases hk : k = r.key
    · subst hk
      rw [show act m r.write r.key = r.value from act_self m r.write]
      simp [hvalue]
    · rw [AList.lookup_insert_ne hk, act_of_ne m r.write hk]
      exact h.live k
  · intro k loc' hlookup
    by_cases hk : k = r.key
    · subst hk
      rw [AList.lookup_insert, Option.some.injEq] at hlookup
      subst hlookup
      exact ⟨r, before, after, hid ▸ hchart, hoffset, hlen, rfl,
        (act_self m r.write).symm⟩
    · rw [AList.lookup_insert_ne hk] at hlookup
      rcases h.held k loc' hlookup with
        ⟨r', before', after', hchart', hoffset', hlen', hkey', hvalue'⟩
      refine ⟨r', before', after', hchart', hoffset', hlen', hkey', ?_⟩
      rw [hvalue', act_of_ne m r.write hk]

theorem Points.erase {chart : Chart} {keydir : Keydir} {m : Contents}
    (h : Points chart keydir m) {r : Rec} (hvalue : r.value = none) :
    Points chart (keydir.erase r.key) (act m r.write) := by
  refine ⟨?_, ?_⟩
  · intro k
    by_cases hk : k = r.key
    · subst hk
      rw [show act m r.write r.key = r.value from act_self m r.write]
      simp [hvalue]
    · rw [AList.lookup_erase_ne hk, act_of_ne m r.write hk]
      exact h.live k
  · intro k loc hlookup
    by_cases hk : k = r.key
    · subst hk
      rw [AList.lookup_erase] at hlookup
      cases hlookup
    · rw [AList.lookup_erase_ne hk] at hlookup
      rcases h.held k loc hlookup with
        ⟨r', before', after', hchart', hoffset', hlen', hkey', hvalue'⟩
      refine ⟨r', before', after', hchart', hoffset', hlen', hkey', ?_⟩
      rw [hvalue', act_of_ne m r.write hk]

/-- Indexing the entries of a file replays its records. -/
theorem Points.index {chart : Chart} {id : FileId} {start : Nat}
    {es : List HintEntry} {rs : List Rec} (hes : Hint.Describes start es rs)
    {before : List Rec} (hchart : chart id = before ++ rs)
    (hstart : start = (Rec.join before).length) {o : Opening} {m : Contents}
    (h : Points chart o.keydir m) :
    Points chart (es.foldl (indexEntry id) o).keydir
      (replay m (rs.map Rec.write)) := by
  induction hes generalizing before o m with
  | nil start => exact h
  | @cons start e r es rs hkey hoffset hlen htombstone _ ih =>
      have hchart' : chart id = (before ++ [r]) ++ rs := by
        rw [hchart, List.append_assoc]
        rfl
      have hstart' : start + r.bytes.length =
          (Rec.join (before ++ [r])).length := by
        rw [hstart]
        simp
      rw [List.foldl_cons, List.map_cons, replay_cons]
      apply ih hchart' hstart'
      unfold indexEntry
      rw [htombstone]
      cases hvalue : r.value with
      | none =>
          rw [if_pos (by rfl), hkey]
          exact h.erase hvalue
      | some value =>
          rw [if_neg (by simp), hkey]
          exact h.insert hchart (by simp [hvalue]) rfl (hoffset.trans hstart)
            hlen

theorem keydir_indexEntry (id : FileId) (o : Opening) (e : HintEntry) :
    (indexEntry id o e).keydir =
      if e.tombstone then o.keydir.erase e.key
      else o.keydir.insert e.key
        { fileId := id
          offset := e.offset
          len := e.len
          tstamp := e.tstamp } := by
  unfold indexEntry
  cases e.tombstone <;> rfl

theorem lookup_indexEntry (id : FileId) (o : Opening) (e : HintEntry) :
    (indexEntry id o e).keydir.lookup e.key =
      if e.tombstone then none
      else some
        { fileId := id
          offset := e.offset
          len := e.len
          tstamp := e.tstamp } := by
  rw [keydir_indexEntry]
  split
  · exact AList.lookup_erase e.key o.keydir
  · exact AList.lookup_insert o.keydir

/-- What a key's present record takes up. -/
def Opening.liveLen (o : Opening) (key : Bytes) : Nat :=
  ((o.keydir.lookup key).map (fun loc => loc.len.toNat)).getD 0

theorem liveBytes_indexEntry (id : FileId) (o : Opening) (e : HintEntry) :
    (indexEntry id o e).liveBytes = o.liveBytes - o.liveLen e.key +
      (if e.tombstone then 0 else e.len.toNat) := by
  unfold indexEntry Opening.liveLen
  dsimp only
  cases o.keydir.lookup e.key <;> cases e.tombstone <;> rfl

theorem diskBytes_indexEntry (id : FileId) (o : Opening) (e : HintEntry) :
    (indexEntry id o e).diskBytes = o.diskBytes + e.len.toNat := by
  unfold indexEntry
  cases e.tombstone <;> rfl

theorem dir_index (id : FileId) (es : List HintEntry) (o : Opening) :
    (es.foldl (indexEntry id) o).dir = o.dir ∧
      (es.foldl (indexEntry id) o).activeHints = o.activeHints := by
  induction es generalizing o with
  | nil => exact ⟨rfl, rfl⟩
  | cons e es ih =>
      have hentry : (indexEntry id o e).dir = o.dir ∧
          (indexEntry id o e).activeHints = o.activeHints := by
        unfold indexEntry
        dsimp only
        cases e.tombstone <;> exact ⟨rfl, rfl⟩
      rw [List.foldl_cons, (ih _).1, (ih _).2]
      exact hentry

/-!
# One file
-/

/-- Files that can be opened: whole records, and in the newest perhaps part of
one more. -/
structure Openable (disk : Disk) (chart : Chart) (tail : Bytes) : Prop where
  absent : forall id, id ∉ disk.data -> chart id = []
  files : forall id, id ∈ disk.data -> disk.contents id = Rec.join (chart id) ++
    (if disk.listDataFiles.getLast? = some id then tail else [])
  torn : Torn tail
  sealed : forall id, id ∈ disk.data ->
    disk.listDataFiles.getLast? ≠ some id ->
    disk.synced id = (disk.contents id).length
  synced : forall id, disk.listDataFiles.getLast? = some id -> tail = [] ->
    exists rs, rs <+: chart id ∧ disk.synced id = (Rec.join rs).length
  hints : forall id bytes, id ∈ disk.data ->
    disk.hints.lookup id = some bytes -> HintOk disk id (chart id) bytes

theorem Openable.length_le {disk : Disk} {chart : Chart} {tail : Bytes}
    (h : Openable disk chart tail) {id : FileId} (hid : id ∈ disk.data) :
    (Rec.join (chart id)).length <= (disk.contents id).length := by
  rw [h.files id hid, List.length_append]
  omega

theorem load_start {disk : Disk} {id : FileId} {rs : List Rec}
    (hlength : (Rec.join rs).length <= (disk.contents id).length)
    (hhints : forall bytes, disk.hints.lookup id = some bytes ->
      exists hinted es, hinted <+: rs ∧
        bytes = Hint.encode (Rec.join hinted).length es ∧
        Hint.Describes 0 es hinted) (opts : Options) :
    exists es hinted rest,
      (if opts.verifyOnOpen then ([], 0)
        else (Hint.load disk id (disk.contents id).length).getD ([], 0)) =
          (es, (Rec.join hinted).length) ∧
      rs = hinted ++ rest ∧ Hint.Describes 0 es hinted := by
  have hnothing : exists es hinted rest,
      (([], 0) : List HintEntry × Nat) = (es, (Rec.join hinted).length) ∧
      rs = hinted ++ rest ∧ Hint.Describes 0 es hinted :=
    ⟨[], [], rs, rfl, rfl, Hint.Describes.nil 0⟩
  split
  · exact hnothing
  · cases hlookup : disk.hints.lookup id with
    | none =>
        rw [Hint.load, hlookup]
        exact hnothing
    | some bytes =>
        rcases hhints bytes hlookup with
          ⟨hinted, es, ⟨rest, hrest⟩, hbytes, hdescribes⟩
        have hle : (Rec.join hinted).length <=
            (disk.contents id).length := by
          rw [← hrest, Rec.join_append, List.length_append] at hlength
          omega
        rw [hbytes] at hlookup
        rw [Hint.load_encode hlookup hdescribes hle]
        split
        · exact ⟨es, hinted, rest, rfl, hrest.symm, hdescribes⟩
        · exact hnothing

/-- What a file's hint gives is the start of its records. -/
theorem Openable.load {disk : Disk} {chart : Chart} {tail : Bytes}
    (h : Openable disk chart tail) {id : FileId} (hid : id ∈ disk.data)
    (opts : Options) :
    exists es hinted rest,
      (if opts.verifyOnOpen then ([], 0)
        else (Hint.load disk id (disk.contents id).length).getD ([], 0)) =
          (es, (Rec.join hinted).length) ∧
      chart id = hinted ++ rest ∧ Hint.Describes 0 es hinted := by
  apply load_start (h.length_le hid)
  intro bytes hlookup
  rcases h.hints id bytes hid hlookup with
    ⟨hinted, es, hstarts, hbytes, hdescribes, _⟩
  exact ⟨hinted, es, hstarts, hbytes, hdescribes⟩

theorem listDataFiles_congr {disk disk' : Disk}
    (h : forall id, id ∈ disk'.data ↔ id ∈ disk.data) :
    disk'.listDataFiles = disk.listDataFiles := by
  have hperm : disk'.data.keys.Perm disk.data.keys := by
    rw [List.perm_ext_iff_of_nodup disk'.data.keys_nodup disk.data.keys_nodup]
    exact h
  apply List.Perm.eq_of_pairwise
  · intro a b _ _ hab hba
    exact Nat.le_antisymm hab hba
  · exact List.pairwise_insertionSort (· <= ·) _
  · exact List.pairwise_insertionSort (· <= ·) _
  · exact ((List.perm_insertionSort _ _).trans hperm).trans
      (List.perm_insertionSort _ _).symm

theorem mem_listDataFiles {disk : Disk} {id : FileId} :
    id ∈ disk.listDataFiles ↔ id ∈ disk.data := by
  rw [Disk.listDataFiles, sortedIds, List.mem_insertionSort]
  rfl

theorem Openable.hint {dir : Dir} {chart : Chart} {tail : Bytes}
    (h : Openable dir.disk chart tail) {id : FileId}
    (hid : id ∈ dir.disk.data)
    (hsealed : dir.disk.listDataFiles.getLast? ≠ some id)
    {es : List HintEntry} (hes : Hint.Describes 0 es (chart id)) :
    Openable (Hint.write (dir.syncData id) id
      (dir.disk.contents id).length es).disk chart tail := by
  have hframe := Dir.syncData_sameBut dir id
  have hcontents : forall other,
      (dir.syncData id).disk.contents other = dir.disk.contents other := by
    intro other
    by_cases heq : other = id
    · rw [heq]
      exact Dir.contents_syncData hid
    · exact hframe.contents heq
  have hmem := hframe.mem_iff hid
  have hlist : (dir.syncData id).disk.listDataFiles =
      dir.disk.listDataFiles := listDataFiles_congr hmem
  have hfile := h.files id hid
  rw [if_neg hsealed, List.append_nil] at hfile
  have hsynced : forall other, other ≠ id ->
      (dir.syncData id).disk.synced other = dir.disk.synced other := by
    intro other hne
    rw [Disk.synced, Disk.synced, hframe.lookup other hne]
  refine ⟨?_, ?_, h.torn, ?_, ?_, ?_⟩
  · intro other hnot
    exact h.absent other (fun hin => hnot ((hmem other).mpr hin))
  · intro other hin
    show (dir.syncData id).disk.contents other = _ ++
      (if (dir.syncData id).disk.listDataFiles.getLast? = some other then tail
        else [])
    rw [hcontents, hlist]
    exact h.files other ((hmem other).mp hin)
  · intro other hin hne
    show (dir.syncData id).disk.synced other =
      ((dir.syncData id).disk.contents other).length
    rw [hcontents]
    by_cases heq : other = id
    · rw [heq]
      exact Dir.synced_syncData dir id
    · rw [hsynced other heq]
      refine h.sealed other ((hmem other).mp hin) ?_
      rw [← hlist]
      exact hne
  · intro other hlast hnil
    have hlast' : dir.disk.listDataFiles.getLast? = some other := by
      rw [← hlist]
      exact hlast
    have hne : other ≠ id := by
      intro heq
      rw [heq] at hlast'
      exact hsealed hlast'
    show exists rs, rs <+: chart other ∧
      (dir.syncData id).disk.synced other = _
    rw [hsynced other hne]
    exact h.synced other hlast' hnil
  · intro other bytes hin hlookup
    show HintOk (dir.syncData id).disk other (chart other) bytes
    rw [Hint.write, Dir.hints_writeHint] at hlookup
    by_cases heq : other = id
    · subst heq
      rw [AList.lookup_insert, Option.some.injEq] at hlookup
      refine ⟨chart other, es, List.prefix_refl _, ?_, hes, ?_⟩
      · rw [← hlookup, hfile]
      · rw [Dir.synced_syncData, hfile]
    · rw [AList.lookup_insert_ne heq, hframe.hints] at hlookup
      exact (h.hints other bytes ((hmem other).mp hin) hlookup).mono
        (List.prefix_refl _) (Nat.le_of_eq (hsynced other heq).symm)

theorem Openable.truncate {dir : Dir} {chart : Chart} {tail : Bytes}
    (h : Openable dir.disk chart tail) {id : FileId}
    (hid : id ∈ dir.disk.data)
    (hlast : dir.disk.listDataFiles.getLast? = some id) :
    Openable ((dir.setLen id (Rec.join (chart id)).length).syncData id).disk
      chart [] := by
  have hlookup : forall other,
      ((dir.setLen id (Rec.join (chart id)).length).syncData
        id).disk.data.lookup other =
      if other = id then
        ((dir.disk.data.lookup id).map
          (fun file => file.setLen (Rec.join (chart id)).length)).map
            File.syncData
      else dir.disk.data.lookup other := by
    intro other
    rw [Dir.syncData, Dir.lookup_modify, Dir.setLen, Dir.lookup_modify,
      Dir.lookup_modify, if_pos rfl]
    split <;> rfl
  have hmem : forall other,
      other ∈ ((dir.setLen id (Rec.join (chart id)).length).syncData
        id).disk.data ↔ other ∈ dir.disk.data := by
    intro other
    rw [← AList.lookup_isSome, ← AList.lookup_isSome, hlookup]
    split
    · next heq => rw [heq, Option.isSome_map, Option.isSome_map]
    · rfl
  have hlist := listDataFiles_congr hmem
  have hne : forall other, other ≠ id ->
      ((dir.setLen id (Rec.join (chart id)).length).syncData
        id).disk.data.lookup other = dir.disk.data.lookup other := by
    intro other hne
    rw [hlookup, if_neg hne]
  have hcontents :
      ((dir.setLen id (Rec.join (chart id)).length).syncData
        id).disk.contents id = Rec.join (chart id) := by
    have hfile := h.files id hid
    rw [if_pos hlast, Disk.contents] at hfile
    rw [Disk.contents, hlookup, if_pos rfl]
    rcases Option.isSome_iff_exists.mp (AList.lookup_isSome.mpr hid) with
      ⟨file, hsome⟩
    rw [hsome] at hfile ⊢
    show file.bytes.take _ = _
    rw [show file.bytes = _ from hfile, List.take_left]
  have hsynced :
      ((dir.setLen id (Rec.join (chart id)).length).syncData
        id).disk.synced id = (Rec.join (chart id)).length := by
    rw [Dir.synced_syncData, ← Dir.contents_syncData, hcontents]
    rw [← AList.lookup_isSome, Dir.setLen, Dir.lookup_modify, if_pos rfl,
      Option.isSome_map, AList.lookup_isSome]
    exact hid
  refine ⟨?_, ?_, Or.inl rfl, ?_, ?_, ?_⟩
  · intro other hnot
    exact h.absent other (fun hin => hnot ((hmem other).mpr hin))
  · intro other hin
    rw [ite_self, List.append_nil]
    by_cases heq : other = id
    · rw [heq]
      exact hcontents
    · have hfile := h.files other ((hmem other).mp hin)
      rw [if_neg (by rw [hlast]; simpa using Ne.symm heq),
        List.append_nil] at hfile
      rw [Disk.contents, hne other heq]
      exact hfile
  · intro other hin hother
    rw [hlist] at hother
    have heq : other ≠ id := by
      intro heq
      rw [heq] at hother
      exact hother hlast
    rw [Disk.synced, Disk.contents, hne other heq]
    exact h.sealed other ((hmem other).mp hin) hother
  · intro other hother _
    rw [hlist, hlast, Option.some.injEq] at hother
    subst hother
    exact ⟨chart id, List.prefix_refl _, hsynced⟩
  · intro other bytes hin hhint
    have hhints : ((dir.setLen id (Rec.join (chart id)).length).syncData
        id).disk.hints = dir.disk.hints := by
      rw [Dir.syncData, Dir.hints_modify, Dir.setLen, Dir.hints_modify]
    rw [hhints] at hhint
    rcases h.hints other bytes ((hmem other).mp hin) hhint with
      ⟨hinted, es, hprefix, hbytes, hdescribes, hle⟩
    refine ⟨hinted, es, hprefix, hbytes, hdescribes, ?_⟩
    by_cases heq : other = id
    · rw [heq, hsynced]
      rcases hprefix with ⟨rest, hrest⟩
      rw [← heq, ← hrest, Rec.join_append, List.length_append]
      omega
    · rw [Disk.synced, hne other heq]
      exact hle

/-- A directory with the same data files as another, and no hints for any but
these. -/
structure Dir.SameFiles (dir dir' : Dir) : Prop where
  mem : forall id, id ∈ dir'.disk.data ↔ id ∈ dir.disk.data
  hints : forall id, id ∈ dir'.disk.hints ->
    id ∈ dir.disk.hints ∨ id ∈ dir.disk.data
  appliedIndex : dir'.disk.appliedIndex = dir.disk.appliedIndex

theorem Dir.SameFiles.refl (dir : Dir) : dir.SameFiles dir :=
  ⟨fun _ => Iff.rfl, fun _ h => Or.inl h, rfl⟩

theorem Dir.SameFiles.trans {a b c : Dir} (hab : a.SameFiles b)
    (hbc : b.SameFiles c) : a.SameFiles c where
  mem id := (hbc.mem id).trans (hab.mem id)
  hints id h := by
    rcases hbc.hints id h with hhint | hdata
    · exact hab.hints id hhint
    · exact Or.inr ((hab.mem id).mp hdata)
  appliedIndex := hbc.appliedIndex.trans hab.appliedIndex

theorem Dir.modify_sameFiles (dir : Dir) (id : FileId)
    (change : File -> File) : dir.SameFiles (dir.modify id change) where
  mem other := by
    rw [← AList.lookup_isSome, ← AList.lookup_isSome, lookup_modify]
    split
    · next heq => rw [heq, Option.isSome_map]
    · rfl
  hints other h := by
    rw [hints_modify] at h
    exact Or.inl h
  appliedIndex := by
    unfold modify
    split <;> rfl

theorem Dir.hinted_sameFiles (dir : Dir) {id : FileId} (hid : id ∈ dir.disk.data)
    (len : Nat) (es : List HintEntry) :
    dir.SameFiles (Hint.write (dir.modify id File.syncData) id len es) := by
  have hsame := Dir.modify_sameFiles dir id File.syncData
  refine ⟨hsame.mem, ?_, hsame.appliedIndex⟩
  intro other hother
  rw [Hint.write, Dir.hints_writeHint, AList.mem_insert] at hother
  rcases hother with heq | hother
  · rw [heq]
    exact Or.inr hid
  · exact hsame.hints other hother

/-- Reading one file recovers its records, whatever mix of hint and scan it
takes, and leaves files that can be opened again. -/
theorem Openable.readEntries {dir : Dir} {chart : Chart} {tail : Bytes}
    (h : Openable dir.disk chart tail) {id : FileId}
    (hid : id ∈ dir.disk.data) (opts : Options) :
    exists es dir',
      readEntries dir opts id
        (dir.disk.listDataFiles.getLast? == some id) =
          Except.ok (es, dir') ∧
      Hint.Describes 0 es (chart id) ∧
      Openable dir'.disk chart
        (if dir.disk.listDataFiles.getLast? = some id then [] else tail) ∧
      dir.SameFiles dir' := by
  rcases h.load hid opts with
    ⟨es, hinted, rest, hload, hchart, hdescribes⟩
  have hfile := h.files id hid
  unfold Minicask.readEntries
  dsimp only
  rw [hload]
  dsimp only
  by_cases hlt : (Rec.join hinted).length < (dir.disk.contents id).length
  · rw [if_pos hlt]
    have hdrop : (dir.disk.contents id).drop (Rec.join hinted).length =
        Rec.join rest ++
          (if dir.disk.listDataFiles.getLast? = some id then tail else []) := by
      rw [hfile, hchart, Rec.join_append, List.append_assoc, List.drop_left]
    have htorn : Torn
        (if dir.disk.listDataFiles.getLast? = some id then tail else []) := by
      split
      · exact h.torn
      · exact Or.inl rfl
    have hturns : rest.length < (dir.disk.contents id).length + 1 := by
      have hrest := length_le_join rest
      have hle := h.length_le hid
      rw [hchart, Rec.join_append, List.length_append] at hle
      omega
    rcases scanLoop_join htorn rest (Rec.join hinted).length hturns with
      ⟨found, torn, hscan, hfound, hclean, hdirty⟩
    have hall : Hint.Describes 0 (es ++ found) (chart id) := by
      rw [hchart]
      apply hdescribes.append
      rw [Nat.zero_add]
      exact hfound
    rw [Scanner.openAt, hdrop, hscan]
    dsimp only
    by_cases hnewest : dir.disk.listDataFiles.getLast? = some id
    · rw [if_pos hnewest] at hclean hdirty
      rw [if_pos hnewest, beq_iff_eq.mpr hnewest]
      by_cases hnil : tail = []
      · rw [hclean hnil]
        refine ⟨_, _, rfl, hall, ?_, Dir.SameFiles.refl dir⟩
        rw [← hnil]
        exact h
      · rcases hdirty hnil with ⟨detail, hsome⟩
        rw [hsome]
        refine ⟨_, _, rfl, hall, ?_,
          (Dir.modify_sameFiles dir id _).trans
            (Dir.modify_sameFiles _ id _)⟩
        rw [← List.length_append, ← Rec.join_append, ← hchart]
        exact h.truncate hid hnewest
    · rw [if_neg hnewest] at hclean
      rw [if_neg hnewest, hclean rfl, (beq_eq_false_iff_ne).mpr hnewest]
      exact ⟨_, _, rfl, hall, h.hint hid hnewest hall,
        dir.hinted_sameFiles hid _ _⟩
  · rw [if_neg hlt]
    have hlength : (dir.disk.contents id).length =
        (Rec.join hinted).length + (Rec.join rest).length +
        (if dir.disk.listDataFiles.getLast? = some id then tail
          else []).length := by
      rw [hfile, hchart, Rec.join_append, List.length_append,
        List.length_append]
    have hrest : rest = [] := by
      have := length_le_join rest
      exact List.length_eq_zero_iff.mp (by omega)
    refine ⟨es, dir, rfl, ?_, ?_, Dir.SameFiles.refl dir⟩
    · rw [hchart, hrest, List.append_nil]
      exact hdescribes
    · split
      · next hnewest =>
          rw [if_pos hnewest] at hlength
          have hnil : tail = [] := List.length_eq_zero_iff.mp (by omega)
          rw [← hnil]
          exact h
      · exact h

/-!
# All the files
-/

/-- The loop over the files replays them into the index. -/
theorem Openable.openLoop {chart : Chart} (opts : Options)
    {newest : Option FileId} (ids : List FileId) {o : Opening} {tail : Bytes}
    {m : Contents} (hopen : Openable o.dir.disk chart tail)
    (hnewest : o.dir.disk.listDataFiles.getLast? = newest)
    (hids : forall id, id ∈ ids -> id ∈ o.dir.disk.data)
    (htail : tail = [] ∨ exists id, id ∈ ids ∧ newest = some id)
    (hpoints : Points chart o.keydir m) :
    exists o', openLoop opts newest ids o = Except.ok o' ∧
      Openable o'.dir.disk chart [] ∧ o.dir.SameFiles o'.dir ∧
      Points chart o'.keydir (replay m ((ids.flatMap chart).map Rec.write)) ∧
      (forall id, newest = some id -> id ∈ ids ->
        Hint.Describes 0 o'.activeHints (chart id)) ∧
      ((forall id, id ∈ ids -> newest ≠ some id) ->
        o'.activeHints = o.activeHints) := by
  induction ids generalizing o tail m with
  | nil =>
      have hnil : tail = [] := by
        rcases htail with hnil | ⟨id, hid, _⟩
        · exact hnil
        · cases hid
      rw [hnil] at hopen
      exact ⟨o, rfl, hopen, Dir.SameFiles.refl o.dir, hpoints,
        fun id _ hid => absurd hid List.not_mem_nil, fun _ => rfl⟩
  | cons id ids ih =>
      have hid := hids id List.mem_cons_self
      rcases hopen.readEntries hid opts with
        ⟨es, dir', hread, hes, hopen', hsame⟩
      rw [hnewest] at hread hopen'
      have hindexed := dir_index id es { o with dir := dir' }
      have hpoints' : Points chart
          (es.foldl (indexEntry id) { o with dir := dir' }).keydir
          (replay m ((chart id).map Rec.write)) := by
        apply Points.index hes (List.nil_append _).symm rfl
        exact hpoints
      rw [Minicask.openLoop, hread]
      dsimp only
      generalize hnext : (if newest == some id then
          { es.foldl (indexEntry id) { o with dir := dir' } with
            activeHints := es }
        else es.foldl (indexEntry id) { o with dir := dir' }) = next
      have hdir : next.dir = dir' := by
        rw [← hnext]
        split <;> exact hindexed.1
      have hkeydir : next.keydir =
          (es.foldl (indexEntry id) { o with dir := dir' }).keydir := by
        rw [← hnext]
        split <;> rfl
      have hhints : next.activeHints =
          if newest = some id then es else o.activeHints := by
        rw [← hnext]
        by_cases heq : newest = some id
        · rw [if_pos (beq_iff_eq.mpr heq), if_pos heq]
        · rw [if_neg (by simpa using heq), if_neg heq]
          exact hindexed.2
      rw [← hdir] at hopen' hsame
      rw [← hkeydir] at hpoints'
      have hlist := listDataFiles_congr hsame.mem
      rcases ih hopen' (by rw [hlist]; exact hnewest)
        (fun other hother => (hsame.mem other).mpr
          (hids other (List.mem_cons_of_mem id hother)))
        (by
          by_cases heq : newest = some id
          · exact Or.inl (if_pos heq)
          · rw [if_neg heq]
            rcases htail with hnil | ⟨other, hother, hsome⟩
            · exact Or.inl hnil
            · rcases List.mem_cons.mp hother with hhead | hrest
              · rw [hhead] at hsome
                exact absurd hsome heq
              · exact Or.inr ⟨other, hrest, hsome⟩) hpoints' with
        ⟨o', hloop, hopenable, hfiles, hindex, hactive, hidle⟩
      refine ⟨o', hloop, hopenable, hsame.trans hfiles, ?_, ?_, ?_⟩
      · rw [List.flatMap_cons, List.map_append, replay_append]
        exact hindex
      · intro other hsome hother
        by_cases hrest : other ∈ ids
        · exact hactive other hsome hrest
        · have heq : other = id :=
            (List.mem_cons.mp hother).resolve_right hrest
          subst heq
          rw [hidle, hhints, if_pos hsome]
          · exact hes
          · intro id' hid' heq'
            rw [hsome, Option.some.injEq] at heq'
            rw [heq'] at hrest
            exact hrest hid'
      · intro hnone
        rw [hidle (fun other hother =>
            hnone other (List.mem_cons_of_mem id hother)), hhints,
          if_neg (hnone id List.mem_cons_self)]

theorem flatMap_filter_eq {ids : List FileId} {p : FileId -> Bool}
    {chart : Chart} (h : forall id, id ∈ ids -> p id = false -> chart id = []) :
    (ids.filter p).flatMap chart = ids.flatMap chart := by
  induction ids with
  | nil => rfl
  | cons id ids ih =>
      have hrest := ih (fun other hother =>
        h other (List.mem_cons_of_mem id hother))
      cases hp : p id with
      | true => rw [List.filter_cons_of_pos hp, List.flatMap_cons,
          List.flatMap_cons, hrest]
      | false => rw [List.filter_cons_of_neg (by simp [hp]),
          List.flatMap_cons, h id List.mem_cons_self hp, hrest,
          List.nil_append]

theorem pairwise_listDataFiles (disk : Disk) :
    disk.listDataFiles.Pairwise (· <= ·) :=
  List.pairwise_insertionSort (· <= ·) _

theorem flatMap_listDataFiles {disk : Disk} {chart : Chart} {top : FileId}
    (habsent : forall id, id ∉ disk.data -> chart id = [])
    (hle : forall id, id ∈ disk.data -> id <= top) :
    disk.listDataFiles.flatMap chart = logged chart top := by
  have hlist : disk.listDataFiles =
      (List.range (top + 1)).filter (· ∈ disk.data) := by
    apply List.Perm.eq_of_pairwise
    · intro a b _ _ hab hba
      exact Nat.le_antisymm hab hba
    · exact pairwise_listDataFiles disk
    · exact List.pairwise_le_range.filter _
    · rw [List.perm_ext_iff_of_nodup]
      · intro id
        rw [mem_listDataFiles, List.mem_filter, List.mem_range,
          decide_eq_true_eq]
        exact ⟨fun h => ⟨Nat.lt_succ_of_le (hle id h), h⟩, fun h => h.2⟩
      · exact (List.perm_insertionSort _ _).nodup_iff.mpr disk.data.keys_nodup
      · exact List.nodup_range.filter _
  rw [hlist, flatMap_filter_eq]
  · rfl
  · intro id _ hnot
    exact habsent id (by simpa using hnot)

theorem le_of_getLast {disk : Disk} {newest : FileId}
    (h : disk.listDataFiles.getLast? = some newest) :
    newest ∈ disk.data ∧ forall id, id ∈ disk.data -> id <= newest := by
  rcases List.getLast?_eq_some_iff.mp h with ⟨older, holder⟩
  refine ⟨?_, ?_⟩
  · rw [← mem_listDataFiles, holder]
    simp
  · intro id hid
    rw [← mem_listDataFiles, holder] at hid
    have hpairwise := pairwise_listDataFiles disk
    rw [holder, List.pairwise_append] at hpairwise
    rcases List.mem_append.mp hid with hold | hlast
    · exact hpairwise.2.2 id hold newest List.mem_cons_self
    · rw [List.mem_singleton.mp hlast]

theorem foldl_removePart (ids : List FileId) (dir : Dir) :
    (ids.foldl Dir.removePart dir).disk.data = dir.disk.data ∧
      (ids.foldl Dir.removePart dir).disk.hints = dir.disk.hints ∧
      (ids.foldl Dir.removePart dir).disk.appliedIndex =
        dir.disk.appliedIndex := by
  induction ids generalizing dir with
  | nil => exact ⟨rfl, rfl, rfl⟩
  | cons id ids ih => exact ih (dir.removePart id)

theorem foldl_removeHint (ids : List FileId) (dir : Dir) :
    (ids.foldl Dir.removeHint dir).disk.data = dir.disk.data ∧
      (ids.foldl Dir.removeHint dir).disk.appliedIndex =
        dir.disk.appliedIndex ∧
      forall id, (ids.foldl Dir.removeHint dir).disk.hints.lookup id =
        if id ∈ ids then none else dir.disk.hints.lookup id := by
  induction ids generalizing dir with
  | nil => exact ⟨rfl, rfl, fun _ => by simp⟩
  | cons id ids ih =>
      rcases ih (dir.removeHint id) with ⟨hdata, happlied, hhints⟩
      rw [Dir.data_removeHint] at hdata
      have happlied' : (dir.removeHint id).disk.appliedIndex =
          dir.disk.appliedIndex := by
        unfold Dir.removeHint
        split <;> rfl
      refine ⟨hdata, happlied.trans happlied', ?_⟩
      intro other
      rw [List.foldl_cons, hhints, Dir.lookup_removeHint]
      by_cases hhead : other = id
      · simp [hhead]
      · simp [hhead]

/-- Clearing up leaves the data files alone, and hints for these only. -/
theorem removeLeftovers_spec (dir : Dir) :
    (removeLeftovers dir dir.disk.listDataFiles).disk.data = dir.disk.data ∧
      (removeLeftovers dir dir.disk.listDataFiles).disk.appliedIndex =
        dir.disk.appliedIndex ∧
      (forall id, id ∈ dir.disk.data ->
        (removeLeftovers dir dir.disk.listDataFiles).disk.hints.lookup id =
          dir.disk.hints.lookup id) ∧
      (forall id,
        id ∈ (removeLeftovers dir dir.disk.listDataFiles).disk.hints ->
          id ∈ dir.disk.data) := by
  unfold removeLeftovers
  dsimp only
  rcases foldl_removePart dir.disk.parts.keys dir with
    ⟨hdata, hhints, happlied⟩
  generalize dir.disk.parts.keys.foldl Dir.removePart dir = cleared at *
  rcases foldl_removeHint (cleared.disk.hints.keys.filter
    (fun id => !dir.disk.listDataFiles.contains id)) cleared with
    ⟨hdata', happlied', hlookup⟩
  refine ⟨hdata'.trans hdata, happlied'.trans happlied, ?_, ?_⟩
  · intro id hid
    rw [hlookup, if_neg, hhints]
    rw [List.mem_filter]
    intro hmem
    have := mem_listDataFiles.mpr hid
    simp [this] at hmem
  · intro id hid
    rw [← AList.lookup_isSome, hlookup] at hid
    split at hid
    · cases hid
    · next hnot =>
        rw [AList.lookup_isSome, AList.mem_keys] at hid
        by_contra hmissing
        apply hnot
        rw [List.mem_filter]
        refine ⟨hid, ?_⟩
        simp [mem_listDataFiles, hmissing]

theorem Openable.bared {disk disk' : Disk} {chart : Chart} {tail : Bytes}
    (h : Openable disk chart tail) (hdata : disk'.data = disk.data)
    (hhints : forall id bytes, id ∈ disk.data ->
      disk'.hints.lookup id = some bytes -> disk.hints.lookup id = some bytes) :
    Openable disk' chart tail := by
  have hlist : disk'.listDataFiles = disk.listDataFiles := by
    rw [Disk.listDataFiles, hdata]
    rfl
  have hcontents : disk'.contents = disk.contents := by
    funext id
    rw [Disk.contents, hdata]
    rfl
  have hsynced : disk'.synced = disk.synced := by
    funext id
    rw [Disk.synced, hdata]
    rfl
  refine ⟨?_, ?_, h.torn, ?_, ?_, ?_⟩
  · rw [hdata]
    exact h.absent
  · rw [hdata, hlist, hcontents]
    exact h.files
  · rw [hdata, hlist, hcontents, hsynced]
    exact h.sealed
  · rw [hlist, hsynced]
    exact h.synced
  · intro id bytes hid hlookup
    rw [hdata] at hid
    rw [HintOk, hsynced]
    exact h.hints id bytes hid (hhints id bytes hid hlookup)

theorem Openable.congr {disk disk' : Disk} {chart : Chart} {tail : Bytes}
    (h : Openable disk chart tail) (hdata : disk'.data = disk.data)
    (hhints : forall id, id ∈ disk.data ->
      disk'.hints.lookup id = disk.hints.lookup id) :
    Openable disk' chart tail := by
  apply h.bared hdata
  intro id bytes hid hlookup
  rw [← hhints id hid]
  exact hlookup

/-!
# The opened store
-/

theorem Points.indexes {s : Store} {chart : Chart} {m : Contents}
    (h : Points chart s.keydir m)
    (hcontents : forall id, chart id ≠ [] ->
      s.contents id = Rec.join (chart id) ∧ id ∈ s.readers)
    (hwritten : s.writer.written =
      (Rec.join (chart s.writer.fileId)).length) : s.Indexes m := by
  refine ⟨h.live, ?_⟩
  intro k loc hlookup
  rcases h.held k loc hlookup with
    ⟨r, before, after, hchart, hoffset, hlen, hkey, hvalue⟩
  have hjoin : Rec.join (chart loc.fileId) =
      Rec.join before ++ r.bytes ++ Rec.join after := by
    rw [hchart, Rec.join_append, Rec.join_cons, List.append_assoc]
  have hne : chart loc.fileId ≠ [] := by
    rw [hchart]
    simp
  refine ⟨r, hkey, hvalue, ⟨?_, hlen, (hcontents _ hne).2, ?_⟩⟩
  · rw [(hcontents _ hne).1, hjoin]
    exact ⟨_, _, rfl, hoffset.symm⟩
  · intro hactive
    left
    rw [hwritten, ← hactive, hjoin, List.length_append, List.length_append,
      hoffset]
    omega

/-- What an opened store is: its files and index say the same, and writing goes
on where the newest file ends. -/
structure Opened (dir : Dir) (chart : Chart) (s : Store) : Prop where
  ok : s.Ok
  charted : Charted s chart
  indexes : s.Indexes (recorded chart s.writer.fileId)
  pending : s.writer.pending = []
  compacting : s.compacting = false
  restoring : s.restoring = false
  appliedIndex : s.dir.disk.appliedIndex = dir.disk.appliedIndex

/-- The end of `openWith`: the writer opens on the newest file, or on a first
one. -/
theorem opened_of_points {dir : Dir} {chart : Chart} {o : Opening}
    {activeId : FileId} (opts : Options)
    (hopen : Openable o.dir.disk chart []) (hsame : dir.SameFiles o.dir)
    (hhints : forall id, id ∈ dir.disk.hints -> id ∈ dir.disk.data)
    (hlast : forall id, id ∈ dir.disk.data -> id <= activeId ∧
      dir.disk.listDataFiles.getLast? = some activeId)
    (hpoints : Points chart o.keydir (recorded chart activeId))
    (hactive : Hint.Describes 0 o.activeHints (chart activeId)) :
    Opened dir chart
      { dir := (LogWriter.openFile o.dir activeId).2
        keydir := o.keydir
        readers := dir.disk.listDataFiles.insert activeId
        writer := (LogWriter.openFile o.dir activeId).1
        opts := opts
        liveBytes := o.liveBytes
        diskBytes := o.diskBytes
        activeHints := o.activeHints
        compacting := false
        restoring := false } := by
  have hlist := listDataFiles_congr hsame.mem
  have hlookup := Dir.lookup_create o.dir activeId
  have hmem : forall id, id ∈ (o.dir.create activeId).disk.data ↔
      id = activeId ∨ id ∈ dir.disk.data := by
    intro id
    rw [← AList.lookup_isSome, hlookup]
    by_cases heq : id = activeId
    · simp [heq]
    · rw [if_neg heq, AList.lookup_isSome, hsame.mem]
      simp [heq]
  have hfile : forall id, (o.dir.create activeId).disk.data.lookup id =
      o.dir.disk.data.lookup id ∨
      (o.dir.create activeId).disk.data.lookup id = some {} ∧
        o.dir.disk.data.lookup id = none := by
    intro id
    rw [hlookup]
    by_cases heq : id = activeId
    · rw [if_pos heq, heq]
      cases o.dir.disk.data.lookup activeId with
      | none => exact Or.inr ⟨rfl, rfl⟩
      | some file => exact Or.inl rfl
    · rw [if_neg heq]
      exact Or.inl rfl
  have hcontents : forall id, (o.dir.create activeId).disk.contents id =
      Rec.join (chart id) := by
    intro id
    rw [Disk.contents]
    by_cases hid : id ∈ o.dir.disk.data
    · have := hopen.files id hid
      rw [ite_self, List.append_nil, Disk.contents] at this
      rcases hfile id with heq | ⟨_, hnone⟩
      · rw [heq]
        exact this
      · rw [← AList.lookup_isSome, hnone] at hid
        cases hid
    · rw [hopen.absent id hid]
      rcases hfile id with heq | ⟨hempty, _⟩
      · rw [heq, AList.lookup_eq_none.mpr hid]
        rfl
      · rw [hempty]
        rfl
  have hsynced : forall id, (o.dir.create activeId).disk.synced id =
      o.dir.disk.synced id := by
    intro id
    rw [Disk.synced, Disk.synced]
    rcases hfile id with heq | ⟨hempty, hnone⟩
    · rw [heq]
    · rw [hempty, hnone]
      rfl
  have happlied : (o.dir.create activeId).disk.appliedIndex =
      dir.disk.appliedIndex := by
    rw [← hsame.appliedIndex]
    unfold Dir.create
    split <;> rfl
  have hwhole : (o.dir.create activeId).disk.contents activeId ++ [] =
      Rec.join (chart activeId) := by
    rw [hcontents, List.append_nil]
  refine ⟨⟨LogWriter.ok_openFile, List.mem_insert_self, ?_, ?_⟩,
    ⟨?_, ?_, ?_, ?_, hwhole, ?_, ?_, ?_, hactive⟩, ?_, rfl, rfl, rfl, happlied⟩
  · intro id hid
    apply (hmem id).mpr
    rcases List.mem_insert_iff.mp hid with heq | hin
    · exact Or.inl heq
    · exact Or.inr (mem_listDataFiles.mp hin)
  · intro id hid
    rcases (hmem id).mp hid with heq | hin
    · exact Nat.le_of_eq heq
    · exact (hlast id hin).1
  · intro id hnot
    apply hopen.absent
    rw [hsame.mem]
    exact fun hin => hnot ((hmem id).mpr (Or.inr hin))
  · intro id hid
    rcases (hmem id).mp hid with heq | hin
    · rw [heq]
      exact List.mem_insert_self
    · exact List.mem_insert_of_mem (mem_listDataFiles.mpr hin)
  · intro id hid
    have hid' : id ∈ (o.dir.create activeId).disk.hints := hid
    rw [Dir.hints_create] at hid'
    apply (hmem id).mpr
    rcases hsame.hints id hid' with hhint | hdata
    · exact Or.inr (hhints id hhint)
    · exact Or.inr hdata
  · intro id hid hne
    have hin := ((hmem id).mp hid).resolve_left hne
    refine ⟨hcontents id, ?_⟩
    rw [← hcontents id]
    show (o.dir.create activeId).disk.synced id = _
    have hin' := (hsame.mem id).mpr hin
    rw [hsynced, hopen.sealed id hin', hcontents, hopen.files id hin', ite_self,
      List.append_nil]
    rw [hlist, (hlast id hin).2, ne_eq, Option.some.injEq]
    exact Ne.symm hne
  · exact ⟨chart activeId, List.prefix_refl _, hcontents activeId⟩
  · show exists rs, rs <+: chart activeId ∧
      (o.dir.create activeId).disk.synced activeId = _
    rw [hsynced]
    by_cases hin : activeId ∈ dir.disk.data
    · exact hopen.synced activeId (by rw [hlist]; exact (hlast _ hin).2) rfl
    · refine ⟨[], List.nil_prefix, ?_⟩
      rw [Disk.synced, AList.lookup_eq_none.mpr
        (fun h => hin ((hsame.mem activeId).mp h))]
      rfl
  · intro id bytes hhint
    have hhint' : (o.dir.create activeId).disk.hints.lookup id =
        some bytes := hhint
    rw [Dir.hints_create] at hhint'
    have hin : id ∈ o.dir.disk.data := by
      have hmem' : id ∈ o.dir.disk.hints :=
        AList.lookup_isSome.mp (by rw [hhint']; rfl)
      rw [hsame.mem]
      rcases hsame.hints id hmem' with h | h
      · exact hhints id h
      · exact h
    exact (hopen.hints id bytes hin hhint').mono (List.prefix_refl _)
      (Nat.le_of_eq (hsynced id).symm)
  · apply Points.indexes hpoints
    · intro id hne
      refine ⟨?_, ?_⟩
      · unfold Store.contents
        split
        · next heq =>
            rw [heq]
            exact hwhole
        · exact hcontents id
      · apply List.mem_insert_of_mem
        rw [mem_listDataFiles, ← hsame.mem]
        by_contra hnot
        exact hne (hopen.absent id hnot)
    · show ((o.dir.create activeId).disk.contents activeId).length = _
      rw [hcontents]
      rfl

theorem Openable.of_none {disk : Disk} {chart : Chart} {tail : Bytes}
    (h : Openable disk chart tail)
    (hnone : disk.listDataFiles.getLast? = none) : Openable disk chart [] := by
  refine ⟨h.absent, ?_, Or.inl rfl, h.sealed, ?_, h.hints⟩
  · intro id hid
    rw [h.files id hid, hnone]
    simp
  · intro id hsome
    rw [hnone] at hsome
    cases hsome

/-- Files that can be opened do open, to what replaying them gives. -/
theorem openWith_opened {dir : Dir} {chart : Chart} {tail : Bytes}
    (h : Openable dir.disk chart tail) (opts : Options) :
    exists s, Store.openWith dir opts = Except.ok s ∧ Opened dir chart s ∧
      s.writer.fileId = dir.disk.listDataFiles.getLast?.getD 1 := by
  rcases removeLeftovers_spec dir with ⟨hdata, happlied, hkept, hhints⟩
  have hopen := h.congr hdata hkept
  have hlist : (removeLeftovers dir dir.disk.listDataFiles).disk.listDataFiles =
      dir.disk.listDataFiles := by
    rw [Disk.listDataFiles, hdata]
    rfl
  unfold Store.openWith
  dsimp only
  generalize removeLeftovers dir dir.disk.listDataFiles = cleared at *
  rw [← hlist]
  have hlast : forall id, id ∈ cleared.disk.data ->
      id <= cleared.disk.listDataFiles.getLast?.getD 1 ∧
      cleared.disk.listDataFiles.getLast? =
        some (cleared.disk.listDataFiles.getLast?.getD 1) := by
    intro id hid
    cases hnewest : cleared.disk.listDataFiles.getLast? with
    | none =>
        rw [List.getLast?_eq_none_iff] at hnewest
        rw [← mem_listDataFiles, hnewest] at hid
        cases hid
    | some newest => exact ⟨(le_of_getLast hnewest).2 id hid, rfl⟩
  have hrecorded := flatMap_listDataFiles hopen.absent
    (fun id hid => (hlast id hid).1)
  have hloop : exists o,
      openLoop opts cleared.disk.listDataFiles.getLast?
        cleared.disk.listDataFiles { dir := cleared } = Except.ok o ∧
      Openable o.dir.disk chart [] ∧ cleared.SameFiles o.dir ∧
      Points chart o.keydir
        (recorded chart (cleared.disk.listDataFiles.getLast?.getD 1)) ∧
      Hint.Describes 0 o.activeHints
        (chart (cleared.disk.listDataFiles.getLast?.getD 1)) := by
    rw [recorded, ← hrecorded]
    cases hnewest : cleared.disk.listDataFiles.getLast? with
    | none =>
        have hempty : cleared.disk.listDataFiles = [] :=
          List.getLast?_eq_none_iff.mp hnewest
        have hopen' : Openable ({ dir := cleared } : Opening).dir.disk chart [] :=
          hopen.of_none hnewest
        rcases hopen'.openLoop opts cleared.disk.listDataFiles hnewest
          (fun id hid => mem_listDataFiles.mp hid) (Or.inl rfl)
          (Points.empty chart) with
          ⟨o, hloop, hfinal, hsame, hpoints, _, hidle⟩
        refine ⟨o, hloop, hfinal, hsame, hpoints, ?_⟩
        have hnone : chart ((none : Option FileId).getD 1) = [] := by
          apply hopen.absent
          rw [← mem_listDataFiles, hempty]
          exact List.not_mem_nil
        rw [hidle (fun _ _ h => by cases h), hnone]
        exact Hint.Describes.nil 0
    | some newest =>
        have hopen' : Openable ({ dir := cleared } : Opening).dir.disk chart
          tail := hopen
        have hmem : newest ∈ cleared.disk.listDataFiles :=
          mem_listDataFiles.mpr (le_of_getLast hnewest).1
        rcases hopen'.openLoop opts cleared.disk.listDataFiles hnewest
          (fun id hid => mem_listDataFiles.mp hid)
          (Or.inr ⟨newest, hmem, rfl⟩) (Points.empty chart) with
          ⟨o, hloop, hfinal, hsame, hpoints, hactive, _⟩
        exact ⟨o, hloop, hfinal, hsame, hpoints, hactive newest rfl hmem⟩
  rcases hloop with ⟨o, hloop, hfinal, hsame, hpoints, hactive⟩
  rw [hloop]
  have hopened := opened_of_points opts hfinal hsame
    (fun id hid => by rw [hdata]; exact hhints id hid) hlast hpoints hactive
  exact ⟨_, rfl, { hopened with
    appliedIndex := hopened.appliedIndex.trans happlied }, rfl⟩

/-!
# Closing
-/

theorem getLast_of_newest {disk : Disk} {newest : FileId}
    (hmem : newest ∈ disk.data)
    (hle : forall id, id ∈ disk.data -> id <= newest) :
    disk.listDataFiles.getLast? = some newest := by
  cases hlast : disk.listDataFiles.getLast? with
  | none =>
      rw [List.getLast?_eq_none_iff] at hlast
      rw [← mem_listDataFiles, hlast] at hmem
      cases hmem
  | some last =>
      have hlast' := le_of_getLast hlast
      rw [Option.some.injEq]
      exact Nat.le_antisymm (hle last hlast'.1) (hlast'.2 newest hmem)

theorem Charted.openable {s : Store} {chart : Chart} (hok : s.Ok)
    (h : Charted s chart) (hpending : s.writer.pending = []) :
    Openable s.dir.disk chart [] := by
  have hlast := getLast_of_newest hok.writer.linked hok.newest
  have hfiles : forall id, id ∈ s.dir.disk.data ->
      s.dir.disk.contents id = Rec.join (chart id) := by
    intro id hid
    by_cases heq : id = s.writer.fileId
    · rw [heq, ← h.contents, LogWriter.contents, hpending, List.append_nil]
    · exact (h.sealed id hid heq).1
  refine ⟨h.absent, ?_, Or.inl rfl, ?_, ?_, fun id bytes _ => h.hints id bytes⟩
  · intro id hid
    rw [ite_self, List.append_nil]
    exact hfiles id hid
  · intro id hid hne
    rw [hlast, ne_eq, Option.some.injEq] at hne
    rw [hfiles id hid]
    exact (h.sealed id hid (Ne.symm hne)).2
  · intro id hsome _
    rw [hlast, Option.some.injEq] at hsome
    rw [← hsome]
    exact h.synced

/-- A store closed and opened again, with any options, is the same map. -/
theorem Charted.reopen {s : Store} {chart : Chart} (hok : s.Ok)
    (h : Charted s chart) (opts : Options) :
    exists s', Store.openWith s.close opts = Except.ok s' ∧
      Opened s.close chart s' ∧ s'.writer.fileId = s.writer.fileId := by
  rcases LogWriter.appended_flush hok.writer with ⟨hflush, hpending⟩
  let flushed : Store := { s with
    writer := (s.writer.flush s.dir).1
    dir := (s.writer.flush s.dir).2 }
  have hadvanced : s.Advanced (Rec.join []) flushed := ⟨hflush, rfl⟩
  have hcharted := h.advanced hok hadvanced (List.append_nil _).symm
    (Hint.Describes.nil _)
  rw [Chart.extend_nil] at hcharted
  have hokFlushed := hadvanced.ok hok
  have hlast := getLast_of_newest hokFlushed.writer.linked hokFlushed.newest
  rcases openWith_opened (hcharted.openable hokFlushed hpending) opts with
    ⟨s', hopen, hopened, hid⟩
  refine ⟨s', hopen, hopened, ?_⟩
  rw [hid, hlast, Option.getD_some]
  exact hflush.fileId

end Minicask
