import Minicask.Store.CutCompactions

/-!
# Opening from hints and by scanning

A hint that tells the truth gives what a scan of the same records would have, apart
from what the clock said.  So it makes no difference to an opening how much of each
file comes from its hint, nor which of the hints can be read at all.
-/

namespace Minicask

open Replay

/-- A hint that fails its own checksum, or is too short to have one. -/
def Hint.Unreadable (bytes : Bytes) : Prop :=
  bytes.length < fixedLen ∨
    Crc.crc32Parts [bytes.drop 4] ≠ UInt32.ofNat (fromLe (slice bytes 0 4))

/-- Some records and perhaps part of one more, with a hint that describes some of
the records if it can be read. -/
structure Disk.Readable (disk : Disk) (id : FileId) (rs : List Rec)
    (tail : Bytes) : Prop where
  linked : id ∈ disk.data
  contents : disk.contents id = Rec.join rs ++ tail
  torn : Torn tail
  hint : forall bytes, disk.hints.lookup id = some bytes ->
    Hint.Unreadable bytes ∨ HintOk disk id rs bytes

namespace Disk.Readable

theorem congr {disk disk' : Disk} {id : FileId} {rs : List Rec} {tail : Bytes}
    (h : disk.Readable id rs tail)
    (hdata : disk'.data.lookup id = disk.data.lookup id)
    (hhints : disk'.hints.lookup id = disk.hints.lookup id) :
    disk'.Readable id rs tail where
  linked := by
    rw [← AList.lookup_isSome, hdata, AList.lookup_isSome]
    exact h.linked
  contents := by
    rw [Disk.contents, hdata]
    exact h.contents
  torn := h.torn
  hint bytes hlookup := by
    rw [hhints] at hlookup
    rw [HintOk, Disk.synced, hdata]
    exact h.hint bytes hlookup

/-- What the hint gives is the start of the records, and it gives all of them only
if they were synced. -/
theorem load {disk : Disk} {id : FileId} {rs : List Rec} {tail : Bytes}
    (h : disk.Readable id rs tail) (opts : Options) :
    exists es hinted rest,
      (if opts.verifyOnOpen then ([], 0)
        else (Hint.load disk id (disk.contents id).length).getD ([], 0)) =
          (es, (Rec.join hinted).length) ∧
      rs = hinted ++ rest ∧ Hint.Describes 0 es hinted ∧
      (Rec.join hinted).length <= disk.synced id := by
  have hnothing : exists es hinted rest,
      (([], 0) : List HintEntry × Nat) = (es, (Rec.join hinted).length) ∧
      rs = hinted ++ rest ∧ Hint.Describes 0 es hinted ∧
      (Rec.join hinted).length <= disk.synced id :=
    ⟨[], [], rs, rfl, rfl, Hint.Describes.nil 0, Nat.zero_le _⟩
  split
  · exact hnothing
  · cases hlookup : disk.hints.lookup id with
    | none =>
        rw [Hint.load, hlookup]
        exact hnothing
    | some bytes =>
        rcases h.hint bytes hlookup with hunreadable |
          ⟨hinted, es, ⟨rest, hrest⟩, hbytes, hdescribes, hsynced⟩
        · have hnone : Hint.load disk id (disk.contents id).length = none := by
            rw [Hint.load, hlookup]
            dsimp only
            rcases hunreadable with hshort | hcrc
            · rw [if_pos hshort]
            · rw [if_pos hcrc]
              exact ite_self _
          rw [hnone]
          exact hnothing
        · have hle : (Rec.join hinted).length <=
              (disk.contents id).length := by
            rw [h.contents, ← hrest, Rec.join_append, List.length_append,
              List.length_append]
            omega
          rw [hbytes] at hlookup
          rw [Hint.load_encode hlookup hdescribes hle]
          split
          · exact ⟨es, hinted, rest, rfl, hrest.symm, hdescribes, hsynced⟩
          · exact hnothing

end Disk.Readable

/-!
# Reading one file
-/

/-- What reading a file of some records leaves: the file as it was, or its torn end
cut off, or the file synced and with a new hint. -/
inductive Dir.AfterRead (dir : Dir) (id : FileId) (rs : List Rec)
    (es : List HintEntry) : Bool -> Dir -> Prop where
  | same {isNewest : Bool} (hwhole : dir.disk.contents id = Rec.join rs)
      (hsynced : isNewest = false ->
        dir.disk.synced id = (Rec.join rs).length) :
      AfterRead dir id rs es isNewest dir
  | cut (hstarts : Rec.join rs <+: dir.disk.contents id) :
      AfterRead dir id rs es true
        ((dir.setLen id (Rec.join rs).length).syncData id)
  | hinted (hwhole : dir.disk.contents id = Rec.join rs) :
      AfterRead dir id rs es false
        (Hint.write (dir.syncData id) id (Rec.join rs).length es)

/-- A file is read, from its hint and by scanning, as its records.  It is refused
if it ends in part of one and is not the newest. -/
theorem Disk.Readable.readEntries {dir : Dir} {id : FileId} {rs : List Rec}
    {tail : Bytes} (h : dir.disk.Readable id rs tail) (opts : Options)
    (isNewest : Bool) :
    (tail ≠ [] ∧ isNewest = false ∧ exists e,
      readEntries dir opts id isNewest = Except.error e) ∨
    ((tail = [] ∨ isNewest = true) ∧ exists es dir',
      Minicask.readEntries dir opts id isNewest = Except.ok (es, dir') ∧
      Hint.Describes 0 es rs ∧ dir.AfterRead id rs es isNewest dir') := by
  rcases h.load opts with
    ⟨es, hinted, rest, hload, hrs, hdescribes, hsynced⟩
  have hlength : (dir.disk.contents id).length =
      (Rec.join hinted).length + (Rec.join rest).length + tail.length := by
    rw [h.contents, hrs, Rec.join_append, List.length_append,
      List.length_append]
  unfold Minicask.readEntries
  dsimp only
  rw [hload]
  dsimp only
  by_cases hlt : (Rec.join hinted).length < (dir.disk.contents id).length
  · rw [if_pos hlt]
    have hdrop : (dir.disk.contents id).drop (Rec.join hinted).length =
        Rec.join rest ++ tail := by
      rw [h.contents, hrs, Rec.join_append, List.append_assoc, List.drop_left]
    have hturns : rest.length < (dir.disk.contents id).length + 1 := by
      have hrest := length_le_join rest
      omega
    rcases scanLoop_join h.torn rest (Rec.join hinted).length hturns with
      ⟨found, torn, hscan, hfound, hclean, hdirty⟩
    have hall : Hint.Describes 0 (es ++ found) rs := by
      rw [hrs]
      apply hdescribes.append
      rw [Nat.zero_add]
      exact hfound
    rw [Scanner.openAt, hdrop, hscan]
    dsimp only
    by_cases hnil : tail = []
    · right
      refine ⟨Or.inl hnil, ?_⟩
      have hwhole : dir.disk.contents id = Rec.join rs := by
        rw [h.contents, hnil, List.append_nil]
      rw [hclean hnil]
      cases isNewest with
      | true =>
          exact ⟨_, _, rfl, hall, Dir.AfterRead.same hwhole
            (fun hfalse => by cases hfalse)⟩
      | false =>
          refine ⟨_, _, rfl, hall, ?_⟩
          rw [hwhole]
          exact Dir.AfterRead.hinted hwhole
    · rcases hdirty hnil with ⟨detail, hsome⟩
      rw [hsome]
      cases isNewest with
      | true =>
          refine Or.inr ⟨Or.inr rfl, _, _, rfl, hall, ?_⟩
          rw [← List.length_append, ← Rec.join_append, ← hrs]
          apply Dir.AfterRead.cut
          rw [h.contents]
          exact List.prefix_append _ _
      | false => exact Or.inl ⟨hnil, rfl, _, rfl⟩
  · rw [if_neg hlt]
    have hnil : tail = [] := List.length_eq_zero_iff.mp (by omega)
    have hrest : rest = [] := by
      have := length_le_join rest
      exact List.length_eq_zero_iff.mp (by omega)
    rw [hrest, List.append_nil] at hrs
    have hwhole : dir.disk.contents id = Rec.join rs := by
      rw [h.contents, hnil, List.append_nil]
    refine Or.inr ⟨Or.inl hnil, es, dir, rfl, hrs ▸ hdescribes,
      Dir.AfterRead.same hwhole ?_⟩
    intro _
    have hle := dir.disk.synced_le id
    rw [hwhole] at hle
    rw [← hrs] at hsynced
    exact Nat.le_antisymm hle hsynced

namespace Dir.AfterRead

theorem lookup_of_ne {dir dir' : Dir} {id : FileId} {rs : List Rec}
    {es : List HintEntry} {isNewest : Bool}
    (h : dir.AfterRead id rs es isNewest dir') {other : FileId}
    (hne : other ≠ id) :
    dir'.disk.data.lookup other = dir.disk.data.lookup other ∧
      dir'.disk.hints.lookup other = dir.disk.hints.lookup other := by
  cases h with
  | same hwhole hsynced => exact ⟨rfl, rfl⟩
  | cut hstarts =>
      constructor
      · rw [Dir.syncData, Dir.lookup_modify, if_neg hne, Dir.setLen,
          Dir.lookup_modify, if_neg hne]
      · rw [Dir.syncData, Dir.hints_modify, Dir.setLen, Dir.hints_modify]
  | hinted hwhole =>
      constructor
      · rw [Hint.write, Dir.data_writeHint, Dir.syncData, Dir.lookup_modify,
          if_neg hne]
      · rw [Hint.write, Dir.hints_writeHint, AList.lookup_insert_ne hne,
          Dir.syncData, Dir.hints_modify]

/-- The file that was read is its records, and nothing of it is unsynced if it is
not the newest. -/
theorem lookup {dir dir' : Dir} {id : FileId} {rs : List Rec}
    {es : List HintEntry} {isNewest : Bool}
    (h : dir.AfterRead id rs es isNewest dir') (hid : id ∈ dir.disk.data) :
    (dir'.disk.data.lookup id).map File.bytes = some (Rec.join rs) ∧
      (isNewest = false -> dir'.disk.synced id = (Rec.join rs).length) := by
  rcases Option.isSome_iff_exists.mp (AList.lookup_isSome.mpr hid) with
    ⟨file, hfile⟩
  cases h with
  | same hwhole hsynced =>
      refine ⟨?_, hsynced⟩
      rw [Disk.contents, hfile] at hwhole
      rw [hfile, ← hwhole]
      rfl
  | cut hstarts =>
      refine ⟨?_, fun hfalse => by cases hfalse⟩
      rw [Disk.contents, hfile] at hstarts
      rcases hstarts with ⟨more, hmore⟩
      rw [Dir.syncData, Dir.lookup_modify, if_pos rfl, Dir.setLen,
        Dir.lookup_modify, if_pos rfl, hfile]
      show some (file.bytes.take _) = _
      rw [show file.bytes = _ from hmore.symm, List.take_left]
  | hinted hwhole =>
      constructor
      · rw [Disk.contents, hfile] at hwhole
        rw [Hint.write, Dir.data_writeHint, Dir.syncData, Dir.lookup_modify,
          if_pos rfl, hfile, ← hwhole]
        rfl
      · intro _
        show (dir.syncData id).disk.synced id = _
        rw [Dir.synced_syncData, hwhole]

theorem marks {dir dir' : Dir} {id : FileId} {rs : List Rec}
    {es : List HintEntry} {isNewest : Bool}
    (h : dir.AfterRead id rs es isNewest dir') (hid : id ∈ dir.disk.data)
    (hle : dir.disk.synced id <= (Rec.join rs).length) :
    dir.disk.synced id <= dir'.disk.synced id := by
  have hfile := h.lookup hid
  cases h with
  | same hwhole hsynced => exact Nat.le_refl _
  | cut hstarts =>
      have hall := synced_all (dir.setLen id (Rec.join rs).length) id
      rw [hall]
      refine Nat.le_trans hle (Nat.le_of_eq ?_)
      rw [Disk.contents]
      rcases Option.map_eq_some_iff.mp hfile.1 with ⟨file, hlookup, hbytes⟩
      rw [hlookup, ← hbytes]
      rfl
  | hinted hwhole => exact Nat.le_trans hle (Nat.le_of_eq (hfile.2 rfl).symm)

end Dir.AfterRead

/-!
# Two openings side by side

Indexes are compared by where their records are, since a hint says of the clock what it
did when it was written.  Two openings agree when both have the same keys in the same
places, over data files with the same bytes.
-/

/-- Where a record is, without what the clock said. -/
def Location.place (loc : Location) : FileId × Nat × UInt32 :=
  (loc.fileId, loc.offset, loc.len)

/-- Two indexes with the same keys, each in the same place. -/
def Keydir.Alike (keydir keydir' : Keydir) : Prop :=
  forall k, (keydir.lookup k).map Location.place =
    (keydir'.lookup k).map Location.place

/-- Two rebuilt indexes that agree, over data files with the same bytes. -/
structure Opening.Alike (o o' : Opening) : Prop where
  keydir : o.keydir.Alike o'.keydir
  liveBytes : o.liveBytes = o'.liveBytes
  diskBytes : o.diskBytes = o'.diskBytes
  files : forall id, (o.dir.disk.data.lookup id).map File.bytes =
    (o'.dir.disk.data.lookup id).map File.bytes

theorem Opening.Alike.liveLen {o o' : Opening} (h : o.Alike o') (k : Bytes) :
    o.liveLen k = o'.liveLen k := by
  have hlen := congrArg (Option.map (fun place => place.2.2.toNat))
    (h.keydir k)
  rw [Option.map_map, Option.map_map] at hlen
  exact congrArg (fun len => len.getD 0) hlen

theorem Opening.Alike.indexEntry {o o' : Opening} (h : o.Alike o')
    (id : FileId) {e e' : HintEntry} (hkey : e.key = e'.key)
    (hoffset : e.offset = e'.offset) (hlen : e.len = e'.len)
    (htombstone : e.tombstone = e'.tombstone) :
    (indexEntry id o e).Alike (Minicask.indexEntry id o' e') := by
  have hdir : forall (o : Opening) (e : HintEntry),
      (Minicask.indexEntry id o e).dir = o.dir :=
    fun o e => (dir_index id [e] o).1
  refine ⟨?_, ?_, ?_, ?_⟩
  · intro k
    rw [keydir_indexEntry, keydir_indexEntry, htombstone, hkey]
    split
    · by_cases hk : k = e'.key
      · rw [hk, AList.lookup_erase, AList.lookup_erase]
      · rw [AList.lookup_erase_ne hk, AList.lookup_erase_ne hk]
        exact h.keydir k
    · by_cases hk : k = e'.key
      · rw [hk, AList.lookup_insert, AList.lookup_insert]
        simp [Location.place, hoffset, hlen]
      · rw [AList.lookup_insert_ne hk, AList.lookup_insert_ne hk]
        exact h.keydir k
  · rw [liveBytes_indexEntry, liveBytes_indexEntry, h.liveBytes, hkey,
      h.liveLen, htombstone, hlen]
  · rw [diskBytes_indexEntry, diskBytes_indexEntry, h.diskBytes, hlen]
  · rw [hdir, hdir]
    exact h.files

/-- Two descriptions of the same records are indexed alike. -/
theorem Opening.Alike.index {start : Nat} {es es' : List HintEntry}
    {rs : List Rec} (hes : Hint.Describes start es rs)
    (hes' : Hint.Describes start es' rs) {o o' : Opening} (h : o.Alike o')
    (id : FileId) :
    (es.foldl (Minicask.indexEntry id) o).Alike
      (es'.foldl (Minicask.indexEntry id) o') := by
  induction hes generalizing es' o o' with
  | nil start =>
      cases hes' with
      | nil => exact h
  | cons hkey hoffset hlen htombstone _ ih =>
      cases hes' with
      | cons hkey' hoffset' hlen' htombstone' hrest' =>
          rw [List.foldl_cons, List.foldl_cons]
          exact ih hrest' (h.indexEntry id (hkey.trans hkey'.symm)
            (hoffset.trans hoffset'.symm) (hlen.trans hlen'.symm)
            (htombstone.trans htombstone'.symm))

/-- Both fail, or both give openings that agree. -/
inductive Opening.Same : Except Error Opening -> Except Error Opening -> Prop
    where
  | failed (e e' : Error) : Same (Except.error e) (Except.error e')
  | opened {o o' : Opening} (h : o.Alike o') :
      Same (Except.ok o) (Except.ok o')

/-- Files that can be read, in two directories whose data files are the same, are
read alike under any options. -/
theorem openLoop_same (opts opts' : Options) (newest : Option FileId)
    {ids : List FileId} (hnodup : ids.Nodup) {kept : Chart}
    {tails : FileId -> Bytes} {o o' : Opening} (halike : o.Alike o')
    (h : forall id, id ∈ ids -> o.dir.disk.Readable id (kept id) (tails id))
    (h' : forall id, id ∈ ids ->
      o'.dir.disk.Readable id (kept id) (tails id)) :
    Opening.Same (openLoop opts newest ids o)
      (openLoop opts' newest ids o') := by
  induction ids generalizing o o' with
  | nil => exact Opening.Same.opened halike
  | cons id ids ih =>
      rw [List.nodup_cons] at hnodup
      have hid := h id List.mem_cons_self
      have hid' := h' id List.mem_cons_self
      have hother : forall other, other ∈ ids -> other ≠ id := by
        intro other hin heq
        rw [heq] at hin
        exact hnodup.1 hin
      rw [openLoop, openLoop]
      dsimp only
      rcases hid.readEntries opts (newest == some id) with
        ⟨hne, hold, e, hread⟩ | ⟨hfine, es, dir, hread, hes, hafter⟩
      · rcases hid'.readEntries opts' (newest == some id) with
          ⟨_, _, e', hread'⟩ | ⟨hfine', _⟩
        · rw [hread, hread']
          exact Opening.Same.failed e e'
        · rcases hfine' with hnil | hnew
          · exact absurd hnil hne
          · rw [hold] at hnew
            cases hnew
      · rcases hid'.readEntries opts' (newest == some id) with
          ⟨hne, hold, _⟩ | ⟨_, es', dir', hread', hes', hafter'⟩
        · rcases hfine with hnil | hnew
          · exact absurd hnil hne
          · rw [hold] at hnew
            cases hnew
        · rw [hread, hread']
          dsimp only
          rw [index_withDir id es o dir, index_withDir id es' o' dir']
          have hindexed := Opening.Alike.index hes hes' halike id
          have hfiles : forall other,
              (dir.disk.data.lookup other).map File.bytes =
                (dir'.disk.data.lookup other).map File.bytes := by
            intro other
            by_cases heq : other = id
            · rw [heq, (hafter.lookup hid.linked).1,
                (hafter'.lookup hid'.linked).1]
            · rw [(hafter.lookup_of_ne heq).1, (hafter'.lookup_of_ne heq).1]
              exact halike.files other
          have hrest : forall other, other ∈ ids ->
              dir.disk.Readable other (kept other) (tails other) := by
            intro other hin
            have hsame := hafter.lookup_of_ne (hother other hin)
            exact (h other (List.mem_cons_of_mem id hin)).congr hsame.1 hsame.2
          have hrest' : forall other, other ∈ ids ->
              dir'.disk.Readable other (kept other) (tails other) := by
            intro other hin
            have hsame := hafter'.lookup_of_ne (hother other hin)
            exact (h' other (List.mem_cons_of_mem id hin)).congr hsame.1
              hsame.2
          refine ih hnodup.2 ?_ ?_ ?_
          · split
            · exact ⟨hindexed.keydir, hindexed.liveBytes, hindexed.diskBytes,
                hfiles⟩
            · exact ⟨hindexed.keydir, hindexed.liveBytes, hindexed.diskBytes,
                hfiles⟩
          · split <;> exact hrest
          · split <;> exact hrest'

/-!
# Opening a directory twice

With and without its hints, or under other options: both openings fail, or both give
stores that answer alike.
-/

/-- Two ways of opening that come to the same: both fail, or both succeed with the
same keys in the same places, the same counts, and the same data files left. -/
inductive Store.SameOpening : Except Error Store -> Except Error Store -> Prop
    where
  | failed (e e' : Error) : SameOpening (Except.error e) (Except.error e')
  | opened {s s' : Store} (keydir : s.keydir.Alike s'.keydir)
      (liveBytes : s.liveBytes = s'.liveBytes)
      (diskBytes : s.diskBytes = s'.diskBytes)
      (files : forall id, (s.dir.disk.data.lookup id).map File.bytes =
        (s'.dir.disk.data.lookup id).map File.bytes) :
      SameOpening (Except.ok s) (Except.ok s')

theorem Store.SameOpening.containsKey {opened opened' : Except Error Store}
    (h : SameOpening opened opened') (key : Bytes) :
    (opened.map (fun s => s.containsKey key)).toOption =
      (opened'.map (fun s => s.containsKey key)).toOption := by
  cases h with
  | failed e e' => rfl
  | @opened s s' keydir liveBytes diskBytes files =>
      have hkey := congrArg Option.isSome (keydir key)
      rw [Option.isSome_map, Option.isSome_map] at hkey
      exact congrArg some hkey

/-- Every data file can be read. -/
def Disk.AllReadable (disk : Disk) : Prop :=
  exists (kept : Chart) (tails : FileId -> Bytes), forall id, id ∈ disk.data ->
    disk.Readable id (kept id) (tails id)

theorem created_bytes {found found' : Option File}
    (h : found.map File.bytes = found'.map File.bytes) :
    (some (found.getD {})).map File.bytes =
      (some (found'.getD {})).map File.bytes := by
  cases found with
  | none =>
      cases found' with
      | none => rfl
      | some file' => cases h
  | some file =>
      cases found' with
      | none => cases h
      | some file' => exact h

theorem Disk.nodup_listDataFiles (disk : Disk) : disk.listDataFiles.Nodup :=
  (List.perm_insertionSort _ _).nodup_iff.mpr disk.data.keys_nodup

theorem Disk.AllReadable.sameOpening {disk : Disk} (h : disk.AllReadable)
    (opts opts' : Options) :
    Store.SameOpening (Store.openWith { disk := disk } opts)
      (Store.openWith { disk := disk } opts') := by
  rcases h with ⟨kept, tails, hreadable⟩
  rcases removeLeftovers_spec { disk := disk } with ⟨hdata, _, hhints, _⟩
  unfold Store.openWith
  dsimp only at hdata hhints ⊢
  generalize removeLeftovers { disk := disk } disk.listDataFiles = cleared at *
  have hcleared : forall id, id ∈ disk.listDataFiles ->
      cleared.disk.Readable id (kept id) (tails id) := by
    intro id hin
    have hid := mem_listDataFiles.mp hin
    exact (hreadable id hid).congr (by rw [hdata]) (hhints id hid)
  have hsame : Opening.Same
      (openLoop opts disk.listDataFiles.getLast? disk.listDataFiles
        { dir := cleared })
      (openLoop opts' disk.listDataFiles.getLast? disk.listDataFiles
        { dir := cleared }) :=
    openLoop_same opts opts' _ disk.nodup_listDataFiles
      ⟨fun _ => rfl, rfl, rfl, fun _ => rfl⟩ hcleared hcleared
  generalize openLoop opts disk.listDataFiles.getLast? disk.listDataFiles
    { dir := cleared } = opened at hsame
  generalize openLoop opts' disk.listDataFiles.getLast? disk.listDataFiles
    { dir := cleared } = opened' at hsame
  cases hsame with
  | failed e e' => exact Store.SameOpening.failed e e'
  | opened halike =>
      refine Store.SameOpening.opened halike.keydir halike.liveBytes
        halike.diskBytes ?_
      intro id
      have hactive := halike.files (disk.listDataFiles.getLast?.getD 1)
      show ((Dir.create _ _).disk.data.lookup id).map File.bytes =
        ((Dir.create _ _).disk.data.lookup id).map File.bytes
      rw [Dir.lookup_create, Dir.lookup_create]
      split
      · exact created_bytes hactive
      · exact halike.files id

end Minicask
