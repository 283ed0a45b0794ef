import Minicask.Store.Jobs

/-!
# Jobs and the store they were taken from

A view goes on showing the map it was taken from, whatever the store does
meanwhile.  A merge copies what its view shows, and installing it changes no
answer: a key that was written since points past the slot the merge fills.  A
restore fills the slot with a map of its own, and installing it makes the store
that map.
-/

namespace Minicask

open Replay

theorem Located.unique {bytes : Bytes} {offset : Nat} {r r' : Rec}
    (h : Located bytes offset r) (h' : Located bytes offset r')
    (hlength : r.bytes.length = r'.bytes.length) : r = r' := by
  apply Rec.bytes_injective
  rw [← h.slice, ← h'.slice, hlength]

theorem Located.mono {bytes bytes' : Bytes} {offset : Nat} {r : Rec}
    (h : Located bytes offset r) (hle : bytes <+: bytes') :
    Located bytes' offset r := by
  rcases hle with ⟨more, rfl⟩
  exact h.append more

/-- A location that a handle can read a record at. -/
structure Reads (dir : Dir) (readers : List FileId) (loc : Location)
    (r : Rec) : Prop where
  located : Located (dir.disk.handle loc.fileId) loc.offset r
  len : loc.len = UInt32.ofNat r.bytes.length
  readable : loc.fileId ∈ readers

/-- What was readable through some handles stays so while they only grow. -/
theorem Reads.kept {dir dir' : Dir} {readers : List FileId} {loc : Location}
    {r : Rec} (h : Reads dir readers loc r)
    (hkept : forall id, id ∈ readers ->
      dir.disk.handle id <+: dir'.disk.handle id) : Reads dir' readers loc r :=
  ⟨h.located.mono (hkept _ h.readable), h.len, h.readable⟩

theorem Reads.readRecord {dir : Dir} {readers : List FileId} {loc : Location}
    {r : Rec} (h : Reads dir readers loc r) :
    readRecord readers dir loc = Except.ok r.bytes :=
  Store.readRecord_of_located h.located h.len h.readable

theorem Reads.readValue {dir : Dir} {readers : List FileId} {loc : Location}
    {r : Rec} (h : Reads dir readers loc r) :
    readValue readers dir loc = Except.ok r.payload := by
  rw [Minicask.readValue, h.readRecord]
  exact decodeValue_bytes r loc

/-!
# Views
-/

theorem mem_inKeyOrder {keydir : Keydir} {p : Bytes × Location} :
    p ∈ inKeyOrder keydir ↔ keydir.lookup p.1 = some p.2 := by
  rw [← mem_inFileOrder, inKeyOrder, inFileOrder, List.mem_insertionSort,
    List.mem_insertionSort]

/-- Keys in order, each once. -/
def Ascending (keys : List Bytes) : Prop :=
  keys.Pairwise (· < ·)

theorem Ascending.nodup {keys : List Bytes} (h : Ascending keys) :
    keys.Nodup := by
  refine List.Pairwise.imp ?_ h
  intro a b hlt heq
  rw [heq] at hlt
  exact List.lt_irrefl b hlt

theorem ascending_of_le {keys : List Bytes} (hle : keys.Pairwise (· <= ·))
    (hnodup : keys.Nodup) : Ascending keys := by
  refine (hle.and hnodup).imp ?_
  intro a b h
  by_contra hlt
  exact h.2 (List.le_antisymm h.1 (List.not_lt.mp hlt))

theorem ascending_inKeyOrder (keydir : Keydir) :
    Ascending ((inKeyOrder keydir).map Prod.fst) := by
  apply ascending_of_le
  · rw [List.pairwise_map]
    have : IsTrans (Bytes × Location) (fun a b => a.1 <= b.1) :=
      ⟨fun _ _ _ => List.le_trans⟩
    have : Std.Total (α := Bytes × Location) (fun a b => a.1 <= b.1) :=
      ⟨fun a b => List.le_total a.1 b.1⟩
    exact List.pairwise_insertionSort _ _
  · have hperm : ((inKeyOrder keydir).map Prod.fst).Perm keydir.keys := by
      refine ((List.perm_insertionSort _ _).map Prod.fst).trans ?_
      rw [List.map_map]
      exact List.Perm.refl _
    exact hperm.nodup_iff.mpr keydir.keys_nodup

/-- The view's keys are a map's, and each points at a record of its value. -/
structure StoreView.Shows (view : StoreView) (dir : Dir) (m : Contents) :
    Prop where
  ascending : Ascending (view.entries.map Prod.fst)
  live : forall k, m k ≠ none -> k ∈ view.entries.map Prod.fst
  held : forall entry, entry ∈ view.entries -> exists r : Rec,
    r.key = entry.1 ∧ r.value = m entry.1 ∧ r.value ≠ none ∧
      Reads dir view.readers entry.2 r

theorem StoreView.Shows.kept {view : StoreView} {dir dir' : Dir} {m : Contents}
    (h : view.Shows dir m)
    (hkept : forall id, id ∈ view.readers ->
      dir.disk.handle id <+: dir'.disk.handle id) : view.Shows dir' m := by
  refine ⟨h.ascending, h.live, ?_⟩
  intro entry hentry
  rcases h.held entry hentry with ⟨r, hkey, hvalue, hlive, hreads⟩
  exact ⟨r, hkey, hvalue, hlive, hreads.kept hkept⟩

/-- A record for each entry of a list of entries. -/
abbrev Recorded (dir : Dir) (readers : List FileId) :=
  List.Forall₂ (fun (entry : Bytes × Location) (r : Rec) =>
    r.key = entry.1 ∧ Reads dir readers entry.2 r)

theorem Recorded.keys {dir : Dir} {readers : List FileId}
    {entries : List (Bytes × Location)} {rs : List Rec}
    (h : Recorded dir readers entries rs) :
    rs.map Rec.key = entries.map Prod.fst := by
  induction h with
  | nil => rfl
  | cons hhead _ ih => rw [List.map_cons, List.map_cons, ih, hhead.1]

theorem StoreView.Shows.records {view : StoreView} {dir : Dir} {m : Contents}
    (h : view.Shows dir m) :
    exists rs, Recorded dir view.readers view.entries rs ∧
      forall r, r ∈ rs -> r.value = m r.key ∧ r.value ≠ none := by
  have hheld := h.held
  generalize view.entries = entries at hheld
  induction entries with
  | nil => exact ⟨[], List.Forall₂.nil, fun _ hr => absurd hr List.not_mem_nil⟩
  | cons entry entries ih =>
      rcases hheld entry List.mem_cons_self with
        ⟨r, hkey, hvalue, hlive, hreads⟩
      rcases ih (fun entry' hentry' =>
        hheld entry' (List.mem_cons_of_mem entry hentry')) with
        ⟨rs, hrecorded, hvalues⟩
      refine ⟨r :: rs, hrecorded.cons ⟨hkey, hreads⟩, ?_⟩
      intro r' hr'
      rcases List.mem_cons.mp hr' with heq | hin
      · rw [heq, hkey]
        exact ⟨hvalue, hlive⟩
      · exact hvalues r' hin

theorem Recorded.forEach {view : StoreView} {dir : Dir} {rs : List Rec}
    (h : Recorded dir view.readers view.entries rs) {acc : Type}
    (f : acc -> Bytes -> Bytes -> Except Error acc) (start : acc) :
    view.forEach dir f start =
      rs.foldlM (fun found r => f found r.key r.payload) start := by
  unfold StoreView.forEach
  generalize view.entries = entries at h
  induction h generalizing start with
  | nil => rfl
  | cons hhead _ ih =>
      simp only [List.foldlM_cons]
      rw [hhead.2.readValue, hhead.1]
      exact bind_congr (fun found => ih found)

namespace Store

theorem later_flushed {s : Store} (hok : s.Ok) : s.Later s.flushed :=
  (advanced_flushed hok).later hok (fun _ _ h => Or.inl h) rfl rfl

theorem Holds.reads {s : Store} (hok : s.Ok) {loc : Location} {r : Rec}
    (h : s.Holds loc r) (hwritten : s.contents loc.fileId =
      s.dir.disk.contents loc.fileId) : Reads s.dir s.readers loc r := by
  refine ⟨?_, h.len, h.readable⟩
  rw [handle_of_mem (hok.linked _ h.readable), ← hwritten]
  exact h.located

theorem Holds.unique {s : Store} (hok : s.Ok) {loc : Location} {r r' : Rec}
    (h : s.Holds loc r)
    (hlocated : Located (s.dir.disk.handle loc.fileId) loc.offset r')
    (hlen : loc.len = UInt32.ofNat r'.bytes.length) : r' = r := by
  have hsees : s.dir.disk.handle loc.fileId <+: s.contents loc.fileId := by
    rw [handle_of_mem (hok.linked _ h.readable)]
    unfold Store.contents LogWriter.contents
    split
    · next heq =>
        rw [heq]
        exact List.prefix_append _ _
    · exact List.prefix_refl _
  refine (hlocated.mono hsees).unique h.located ?_
  rw [← r'.toNat_length_bytes, ← hlen, h.len, r.toNat_length_bytes]

/-- A view taken of a store shows the map the store stands for. -/
theorem view_shows {s : Store} (hok : s.Ok) {m : Contents}
    (h : s.Indexes m) : s.view.1.Shows s.view.2.dir m := by
  have hadvanced := advanced_flushed hok
  have hindexes : s.flushed.Indexes m :=
    h.carried (hadvanced.carries hok) rfl
  refine ⟨ascending_inKeyOrder s.keydir, ?_, ?_⟩
  · intro k hk
    cases hlookup : s.keydir.lookup k with
    | none => exact absurd ((h.live k).mp hlookup) hk
    | some loc =>
        exact List.mem_map.mpr ⟨(k, loc), mem_inKeyOrder.mpr hlookup, rfl⟩
  · intro entry hentry
    have hlookup := mem_inKeyOrder.mp hentry
    rcases hindexes.held entry.1 entry.2 hlookup with
      ⟨r, hkey, hvalue, hholds⟩
    refine ⟨r, hkey, hvalue, ?_,
      hholds.reads (hadvanced.ok hok) (contents_flushed hok _)⟩
    rw [hvalue]
    intro hnone
    rw [(h.live entry.1).mpr hnone] at hlookup
    cases hlookup

end Store

/-!
# A file in its slot
-/

/-- A file written off to the side has taken its place among the others. -/
structure Dir.Placed (dir : Dir) (slot : FileId) (bytes : Bytes) (dir' : Dir) :
    Prop where
  placed : exists file : File, file.bytes = bytes ∧
    dir'.disk.data.lookup slot = some file
  lookup : forall id, id ≠ slot ->
    dir'.disk.data.lookup id = dir.disk.data.lookup id
  unlinked : dir'.disk.unlinked = dir.disk.unlinked

theorem Dir.placed_renamePart (dir : Dir) (slot : FileId) (bytes : Bytes)
    (offset : Nat) (hints : List HintEntry) :
    dir.Placed slot bytes
      (Hint.write ((dir.writePart slot bytes).renamePart slot) slot offset
        hints) := by
  have hpart : (dir.writePart slot bytes).disk.parts.lookup slot =
      some bytes := by
    simp [Dir.writePart, Dir.move]
  unfold Dir.renamePart
  rw [hpart]
  refine ⟨⟨_, ?_, AList.lookup_insert _⟩, ?_, rfl⟩
  · simp [File.syncData, File.writeAll]
  · intro id hne
    exact AList.lookup_insert_ne hne

theorem Dir.Placed.handle {dir dir' : Dir} {slot : FileId} {bytes : Bytes}
    (h : dir.Placed slot bytes dir') {id : FileId} (hne : id ≠ slot) :
    dir'.disk.handle id = dir.disk.handle id :=
  handle_congr (h.lookup id hne) (congrFun h.unlinked id)

theorem Dir.Placed.handle_slot {dir dir' : Dir} {slot : FileId} {bytes : Bytes}
    (h : dir.Placed slot bytes dir') : dir'.disk.handle slot = bytes := by
  rcases h.placed with ⟨file, hbytes, hlookup⟩
  rw [Disk.handle, hlookup]
  exact hbytes

theorem Dir.Placed.linked {dir dir' : Dir} {slot : FileId} {bytes : Bytes}
    (h : dir.Placed slot bytes dir') : slot ∈ dir'.disk.data := by
  rcases h.placed with ⟨file, _, hlookup⟩
  rw [← AList.lookup_isSome, hlookup]
  rfl

namespace Store

/-- An id kept free below the active file, for a file that comes after some
others. -/
structure Reserved (s : Store) (slot : FileId) (oldIds : List FileId) : Prop where
  below : slot < s.writer.fileId
  unread : slot ∉ s.readers
  old : forall id, id ∈ oldIds -> id < slot

theorem Reserved.later {s s' : Store} {slot : FileId} {oldIds : List FileId}
    (h : s.Reserved slot oldIds) (hlater : s.Later s') :
    s'.Reserved slot oldIds where
  below := Nat.lt_of_lt_of_le h.below hlater.newer
  unread := by
    rw [hlater.readers slot (Nat.le_of_lt h.below)]
    exact h.unread
  old := h.old

theorem Reserved.active_notMem {s : Store} {slot : FileId}
    {oldIds : List FileId} (h : s.Reserved slot oldIds) :
    s.writer.fileId ∉ oldIds :=
  fun hmem => Nat.lt_asymm (h.old _ hmem) h.below

theorem Reserved.notMem {s : Store} {slot : FileId} {oldIds : List FileId}
    (h : s.Reserved slot oldIds) : slot ∉ oldIds :=
  fun hmem => Nat.lt_irrefl _ (h.old _ hmem)

theorem reserved_sealInto {s : Store} (hok : s.Ok) :
    (s.sealInto (s.writer.fileId + 2)).Reserved (s.writer.fileId + 1)
      s.readers where
  below := Nat.lt_succ_self _
  unread hmem := by
    rcases List.mem_insert_iff.mp hmem with heq | hold
    · exact absurd heq (Nat.ne_of_lt (Nat.lt_succ_self _))
    · exact Nat.not_succ_le_self _ (hok.newest _ (hok.linked _ hold))
  old id hid := Nat.lt_succ_of_le (hok.newest id (hok.linked id hid))

theorem contents_placed {s : Store} {slot : FileId} {bytes : Bytes} {dir : Dir}
    (h : s.dir.Placed slot bytes dir) {id : FileId} (hne : id ≠ slot) :
    Store.contents { s with dir := dir } id = s.contents id := by
  have hcontents : dir.disk.contents id = s.dir.disk.contents id := by
    rw [Disk.contents, Disk.contents, h.lookup id hne]
  unfold Store.contents LogWriter.contents
  split
  · next heq =>
      show dir.disk.contents s.writer.fileId ++ _ = _
      rw [← heq, hcontents]
  · exact hcontents

theorem Ok.placed {s : Store} (hok : s.Ok) {slot : FileId}
    {oldIds : List FileId} {bytes : Bytes} {dir : Dir}
    (hslot : s.Reserved slot oldIds) (h : s.dir.Placed slot bytes dir) :
    Ok { s with dir := dir } := by
  have hne : s.writer.fileId ≠ slot := Nat.ne_of_gt hslot.below
  have hactive := h.lookup _ hne
  refine ⟨⟨?_, ?_, hok.writer.offset⟩, hok.active, ?_, ?_⟩
  · rw [← AList.lookup_isSome, hactive, AList.lookup_isSome]
    exact hok.writer.linked
  · show (dir.disk.contents s.writer.fileId).length = _
    rw [Disk.contents, hactive]
    exact hok.writer.written
  · intro id hid
    have hneq : id ≠ slot := fun heq => hslot.unread (heq ▸ hid)
    rw [← AList.lookup_isSome, h.lookup id hneq, AList.lookup_isSome]
    exact hok.linked id hid
  · intro id hid
    by_cases heq : id = slot
    · rw [heq]
      exact Nat.le_of_lt hslot.below
    · rw [← AList.lookup_isSome, h.lookup id heq, AList.lookup_isSome] at hid
      exact hok.newest id hid

theorem Indexes.placed {s : Store} {m : Contents} (h : s.Indexes m)
    {slot : FileId} {oldIds : List FileId} {bytes : Bytes} {dir : Dir}
    (hslot : s.Reserved slot oldIds) (hplaced : s.dir.Placed slot bytes dir) :
    Indexes { s with dir := dir } m := by
  refine h.carried ?_ rfl
  intro loc r hholds
  have hne : loc.fileId ≠ slot :=
    fun heq => hslot.unread (heq ▸ hholds.readable)
  refine ⟨?_, hholds.len, hholds.readable, hholds.whole⟩
  rw [contents_placed hplaced hne]
  exact hholds.located

end Store

/-!
# A compaction, from start to finish
-/

/-- A compaction under way: its view can be read, and every key that still lies
in a file the merge replaces lies where the view says. -/
structure CompactionJob.Ok (job : CompactionJob) (s : Store) : Prop where
  slot : s.Reserved job.mergedId job.oldIds
  shows : exists m, job.view.Shows s.dir m
  within : forall id, id ∈ job.view.readers ->
    id <= s.writer.fileId ∧ id ≠ job.mergedId
  covered : forall k loc, s.keydir.lookup k = some loc ->
    loc.fileId ∈ job.oldIds -> (k, loc) ∈ job.view.entries

theorem CompactionJob.Ok.later {job : CompactionJob} {s s' : Store}
    (h : job.Ok s) (hlater : s.Later s') : job.Ok s' where
  slot := h.slot.later hlater
  shows := by
    rcases h.shows with ⟨m, hshows⟩
    exact ⟨m, hshows.kept (fun id hid => hlater.handles id (h.within id hid).1)⟩
  within id hid :=
    ⟨Nat.le_trans (h.within id hid).1 hlater.newer, (h.within id hid).2⟩
  covered k loc hlookup hold := by
    rcases hlater.keydir k loc hlookup with hsame | hnew
    · exact h.covered k loc hsame hold
    · have hlt := Nat.lt_trans (h.slot.old _ hold) h.slot.below
      exact absurd hnew (Nat.not_le_of_lt hlt)

/-- Records copied so far, and where each came from. -/
structure Copies.Of (c : Copies) (dir : Dir) (readers : List FileId)
    (mergedId : FileId) (entries : List (Bytes × Location)) (rs : List Rec) :
    Prop where
  file : c.file = Rec.join rs
  offset : c.offset = c.file.length
  sources : c.moved.map (fun move => (move.1, move.2.1)) = entries
  copies : forall move, move ∈ c.moved -> exists r : Rec,
    Reads dir readers move.2.1 r ∧ move.2.2.fileId = mergedId ∧
      move.2.2.len = UInt32.ofNat r.bytes.length ∧
      Located c.file move.2.2.offset r

theorem Copies.Of.copyRecord {c : Copies} {dir : Dir} {readers : List FileId}
    {mergedId : FileId} {entries : List (Bytes × Location)} {rs : List Rec}
    (h : c.Of dir readers mergedId entries rs) {entry : Bytes × Location}
    {r : Rec} (hreads : Reads dir readers entry.2 r) :
    exists c', copyRecord readers dir mergedId c entry = Except.ok c' ∧
      c'.Of dir readers mergedId (entries ++ [entry]) (rs ++ [r]) := by
  unfold Minicask.copyRecord
  simp only [hreads.readRecord, Except.bind, decodeValue_bytes]
  refine ⟨_, rfl, ?_, ?_, ?_, ?_⟩
  · simp [h.file]
  · rw [hreads.len, r.toNat_length_bytes, List.length_append, h.offset]
  · simp [h.sources]
  · intro move hmove
    rcases List.mem_append.mp hmove with hold | hnew
    · rcases h.copies move hold with ⟨r', hreads', hid, hlen, hlocated⟩
      exact ⟨r', hreads', hid, hlen, hlocated.append _⟩
    · rw [List.mem_singleton.mp hnew]
      exact ⟨r, hreads, rfl, hreads.len, c.file, [], by simp, h.offset.symm⟩

theorem Copies.Of.loop {dir : Dir} {readers : List FileId} {mergedId : FileId}
    {l : List (Bytes × Location)} {rs' : List Rec}
    (hl : Recorded dir readers l rs') {c : Copies}
    {entries : List (Bytes × Location)} {rs : List Rec}
    (h : c.Of dir readers mergedId entries rs) :
    exists c', l.foldlM (Minicask.copyRecord readers dir mergedId) c =
        Except.ok c' ∧
      c'.Of dir readers mergedId (entries ++ l) (rs ++ rs') := by
  induction hl generalizing c entries rs with
  | nil => exact ⟨c, rfl, by simpa using h⟩
  | cons hhead _ ih =>
      rcases h.copyRecord hhead.2 with ⟨c', hcopy, hof⟩
      rcases ih hof with ⟨c'', hloop, hof'⟩
      refine ⟨c'', ?_, by simpa using hof'⟩
      rw [List.foldlM_cons, hcopy]
      exact hloop

/-- A merge that is written and waits to be installed. -/
structure MergedFile.Ok (merged : MergedFile) (s : Store) : Prop where
  slot : s.Reserved merged.id merged.oldIds
  linked : merged.id ∈ s.dir.disk.data
  nodup : (merged.moved.map Prod.fst).Nodup
  within : forall move, move ∈ merged.moved ->
    move.2.1.fileId <= s.writer.fileId
  copies : forall move, move ∈ merged.moved -> exists r : Rec,
    move.2.1.len = UInt32.ofNat r.bytes.length ∧
      Located (s.dir.disk.handle move.2.1.fileId) move.2.1.offset r ∧
      move.2.2.fileId = merged.id ∧
      move.2.2.len = UInt32.ofNat r.bytes.length ∧
      Located (s.dir.disk.handle merged.id) move.2.2.offset r
  covered : forall k loc, s.keydir.lookup k = some loc ->
    loc.fileId ∈ merged.oldIds -> exists new, (k, loc, new) ∈ merged.moved

theorem MergedFile.Ok.later {merged : MergedFile} {s s' : Store}
    (h : merged.Ok s) (hlater : s.Later s') : merged.Ok s' where
  slot := h.slot.later hlater
  linked := by
    rw [← AList.lookup_isSome, hlater.files _ h.slot.below,
      AList.lookup_isSome]
    exact h.linked
  nodup := h.nodup
  within move hmove := Nat.le_trans (h.within move hmove) hlater.newer
  copies move hmove := by
    rcases h.copies move hmove with ⟨r, hlen, hold, hid, hlen', hnew⟩
    exact ⟨r, hlen, hold.mono (hlater.handles _ (h.within move hmove)), hid,
      hlen', hnew.mono (hlater.handles _ (Nat.le_of_lt h.slot.below))⟩
  covered k loc hlookup hold := by
    rcases hlater.keydir k loc hlookup with hsame | hnew
    · exact h.covered k loc hsame hold
    · have hlt := Nat.lt_trans (h.slot.old _ hold) h.slot.below
      exact absurd hnew (Nat.not_le_of_lt hlt)

namespace Store

/-- The flags are no part of what the store holds, and neither is what lies beside
the data files. -/
theorem Ok.flagged {s s' : Store} (h : s.Ok)
    (hdata : s'.dir.disk.data = s.dir.disk.data)
    (hwriter : s'.writer = s.writer) (hreaders : s'.readers = s.readers) :
    s'.Ok := by
  refine ⟨⟨?_, ?_, ?_⟩, ?_, ?_, ?_⟩
  · rw [hdata, hwriter]
    exact h.writer.linked
  · rw [Disk.contents, hdata, hwriter]
    exact h.writer.written
  · rw [hwriter]
    exact h.writer.offset
  · rw [hwriter, hreaders]
    exact h.active
  · rw [hdata, hreaders]
    exact h.linked
  · rw [hdata, hwriter]
    exact h.newest

theorem Indexes.flagged {s s' : Store} {m : Contents} (h : s.Indexes m)
    (hdata : s'.dir.disk.data = s.dir.disk.data)
    (hwriter : s'.writer = s.writer) (hreaders : s'.readers = s.readers)
    (hkeydir : s'.keydir = s.keydir) : s'.Indexes m := by
  refine h.carried ?_ hkeydir
  intro loc r hholds
  refine ⟨?_, hholds.len, hreaders ▸ hholds.readable, hwriter ▸ hholds.whole⟩
  unfold Store.contents LogWriter.contents Disk.contents
  rw [hdata, hwriter]
  exact hholds.located

theorem beginCompaction_spec {s : Store} (hok : s.Ok) {m : Contents}
    (hindexes : s.Indexes m) (hcompacting : s.compacting = false)
    (hrestoring : s.restoring = false) :
    exists job s', s.beginCompaction = Except.ok (job, s') ∧ s'.Ok ∧
      s'.Indexes m ∧ s.Kept s' ∧ s'.compacting = true ∧
      s'.restoring = false ∧ s.writer.fileId < job.mergedId ∧ job.Ok s' := by
  have hnext : s.writer.fileId < s.writer.fileId + 2 :=
    Nat.lt_trans (Nat.lt_succ_self _) (Nat.lt_succ_self _)
  have hsealed := ok_sealInto hok hnext
  have hindexes' : (s.sealInto (s.writer.fileId + 2)).Indexes m :=
    hindexes.carried (carries_sealInto hok hnext) rfl
  have hlater := (later_sealInto hok hnext).trans (later_flushed hsealed)
  have hflushed := advanced_flushed hsealed
  have hslot := (reserved_sealInto hok).later (later_flushed hsealed)
  have hok' := hflushed.ok hsealed
  refine ⟨{ view := (s.sealInto (s.writer.fileId + 2)).view.1
            mergedId := s.writer.fileId + 1
            oldIds := s.readers
            oldBytes := (s.sealInto (s.writer.fileId + 2)).diskBytes },
    { (s.sealInto (s.writer.fileId + 2)).flushed with compacting := true },
    ?_, hok'.flagged rfl rfl rfl,
    (hindexes'.carried (hflushed.carries hsealed) rfl).flagged rfl rfl rfl rfl,
    ⟨hlater.newer, hlater.handles⟩, rfl, hrestoring, Nat.lt_succ_self _,
    ⟨⟨hslot.below, hslot.unread, hslot.old⟩,
      ⟨m, view_shows hsealed hindexes'⟩, ?_, ?_⟩⟩
  · unfold beginCompaction
    rw [if_neg (by simp [hcompacting, hrestoring])]
    rfl
  · intro id hid
    refine ⟨hok'.newest id (hok'.linked id hid), ?_⟩
    rintro rfl
    exact hslot.unread hid
  · intro k loc hlookup _
    exact mem_inKeyOrder.mpr hlookup

end Store

/-- A merge runs to its end and fills the slot. -/
theorem CompactionJob.Ok.run {job : CompactionJob} {s : Store}
    (h : job.Ok s) :
    exists merged dir bytes, job.run s.dir = Except.ok (merged, dir) ∧
      s.dir.Placed job.mergedId bytes dir ∧ merged.id = job.mergedId ∧
      merged.Ok { s with dir := dir } := by
  rcases h.shows with ⟨m, hshows⟩
  rcases hshows.records with ⟨rs, hrecorded, _⟩
  have hstart : ({} : Copies).Of (s.dir.writePart job.mergedId [])
      job.view.readers job.mergedId [] [] :=
    ⟨rfl, rfl, rfl, fun _ hmove => absurd hmove List.not_mem_nil⟩
  have hpart : Recorded (s.dir.writePart job.mergedId []) job.view.readers
      job.view.entries rs := by
    refine hrecorded.imp ?_
    intro entry r hentry
    exact ⟨hentry.1, hentry.2.kept (fun _ _ => List.prefix_refl _)⟩
  rcases hstart.loop hpart with ⟨c, hloop, hof⟩
  rw [List.nil_append] at hof
  have hplaced := Dir.placed_renamePart (s.dir.writePart job.mergedId [])
    job.mergedId c.file c.offset c.hints
  have hplaced' : s.dir.Placed job.mergedId c.file _ :=
    ⟨hplaced.placed, hplaced.lookup, hplaced.unlinked⟩
  have hrun : job.run s.dir = Except.ok
      ({ id := job.mergedId
         bytes := c.offset
         oldIds := job.oldIds
         oldBytes := job.oldBytes
         moved := c.moved },
        Hint.write (((s.dir.writePart job.mergedId []).writePart job.mergedId
          c.file).renamePart job.mergedId) job.mergedId c.offset c.hints) := by
    unfold CompactionJob.run
    simp only [hloop, Except.bind]
  refine ⟨_, _, c.file, hrun, hplaced', rfl, ?_⟩
  · refine ⟨⟨h.slot.below, h.slot.unread, h.slot.old⟩, hplaced'.linked, ?_, ?_,
      ?_, ?_⟩
    · have hkeys : c.moved.map Prod.fst = job.view.entries.map Prod.fst := by
        rw [← hof.sources, List.map_map]
        rfl
      show (c.moved.map Prod.fst).Nodup
      rw [hkeys]
      exact hshows.ascending.nodup
    · intro move hmove
      rcases hof.copies move hmove with ⟨_, hreads, _⟩
      exact (h.within _ hreads.readable).1
    · intro move hmove
      rcases hof.copies move hmove with ⟨r, hreads, hid, hlen, hlocated⟩
      refine ⟨r, hreads.len, ?_, hid, hlen, ?_⟩
      · show Located (Disk.handle _ _) _ _
        rw [hplaced'.handle (h.within _ hreads.readable).2]
        exact hreads.located
      · show Located (Disk.handle _ _) _ _
        rw [hplaced'.handle_slot]
        exact hlocated
    · intro k loc hlookup hold
      have hmem := h.covered k loc hlookup hold
      rw [← hof.sources] at hmem
      rcases List.mem_map.mp hmem with ⟨⟨k', old, new⟩, hmove, heq⟩
      cases heq
      exact ⟨new, hmove⟩

/-!
# Installing a merge
-/

theorem lookup_repoint_of_ne {keydir : Keydir}
    {move : Bytes × Location × Location} {k : Bytes}
    (h : move.1 = k -> keydir.lookup k ≠ some move.2.1) :
    (repoint keydir move).lookup k = keydir.lookup k := by
  unfold repoint
  split
  · next hold =>
      have hne : k ≠ move.1 := by
        intro heq
        subst heq
        exact h rfl hold
      exact AList.lookup_insert_ne hne
  · rfl

theorem lookup_repoints_of_ne {moved : List (Bytes × Location × Location)}
    {keydir : Keydir} {k : Bytes}
    (h : forall move, move ∈ moved -> move.1 = k ->
      keydir.lookup k ≠ some move.2.1) :
    (moved.foldl repoint keydir).lookup k = keydir.lookup k := by
  induction moved generalizing keydir with
  | nil => rfl
  | cons move moved ih =>
      have hhead := lookup_repoint_of_ne (h move List.mem_cons_self)
      rw [List.foldl_cons, ih, hhead]
      intro move' hmove' heq
      rw [hhead]
      exact h move' (List.mem_cons_of_mem move hmove') heq

theorem lookup_repoints_of_mem {moved : List (Bytes × Location × Location)}
    (hnodup : (moved.map Prod.fst).Nodup) {keydir : Keydir} {k : Bytes}
    {old new : Location} (hmem : (k, old, new) ∈ moved)
    (hold : keydir.lookup k = some old) :
    (moved.foldl repoint keydir).lookup k = some new := by
  induction moved generalizing keydir with
  | nil => cases hmem
  | cons move moved ih =>
      rw [List.map_cons, List.nodup_cons] at hnodup
      rw [List.foldl_cons]
      rcases List.mem_cons.mp hmem with heq | hin
      · subst heq
        have hhead : repoint keydir (k, old, new) = keydir.insert k new := by
          unfold repoint
          rw [if_pos hold]
        rw [hhead, lookup_repoints_of_ne, AList.lookup_insert]
        intro move' hmove' heq
        exact absurd (List.mem_map.mpr ⟨move', hmove', heq⟩) hnodup.1
      · apply ih hnodup.2 hin
        rw [lookup_repoint_of_ne]
        · exact hold
        · intro heq
          exact absurd (List.mem_map.mpr ⟨_, hin, heq.symm⟩) hnodup.1

theorem lookup_repoints_eq_none {moved : List (Bytes × Location × Location)}
    {keydir : Keydir} {k : Bytes} :
    (moved.foldl repoint keydir).lookup k = none ↔ keydir.lookup k = none := by
  induction moved generalizing keydir with
  | nil => exact Iff.rfl
  | cons move moved ih =>
      rw [List.foldl_cons, ih]
      unfold repoint
      split
      · next hold =>
          by_cases heq : k = move.1
          · subst heq
            simp [hold]
          · rw [AList.lookup_insert_ne heq]
      · exact Iff.rfl

namespace Store

theorem removeFiles_lookup (dir : Dir) {ids : List FileId} {id : FileId}
    (h : id ∉ ids) :
    (removeFiles dir ids).disk.data.lookup id = dir.disk.data.lookup id := by
  rw [((removeFiles_spec ids dir).2 id).1, if_neg h]

/-- Some files went, none of them the active one. -/
structure Trimmed (s : Store) (ids : List FileId) (s' : Store) : Prop where
  dir : s'.dir = removeFiles s.dir ids
  writer : s'.writer = s.writer

theorem Trimmed.contents {s s' : Store} {ids : List FileId}
    (h : s.Trimmed ids s') {id : FileId} (hid : id ∉ ids) :
    s'.contents id = s.contents id := by
  have hcontents : s'.dir.disk.contents id = s.dir.disk.contents id := by
    rw [Disk.contents, Disk.contents, h.dir, removeFiles_lookup s.dir hid]
  unfold Store.contents LogWriter.contents
  rw [h.writer]
  split
  · next heq => rw [← heq, hcontents]
  · exact hcontents

theorem Trimmed.kept {s s' : Store} {ids : List FileId}
    (h : s.Trimmed ids s') : s.Kept s' := by
  refine ⟨Nat.le_of_eq (by rw [h.writer]), ?_⟩
  intro id _
  rewrite [h.dir, handle_removeFiles]
  exact List.prefix_refl _

theorem Trimmed.ok {s s' : Store} {ids : List FileId} (h : s.Trimmed ids s')
    (hok : s.Ok) (hactive : s.writer.fileId ∉ ids)
    (hreaders : s.writer.fileId ∈ s'.readers)
    (hlinked : forall id, id ∈ s'.readers ->
      id ∉ ids ∧ id ∈ s.dir.disk.data) : s'.Ok := by
  have hlookup := removeFiles_lookup s.dir hactive
  refine ⟨⟨?_, ?_, ?_⟩, ?_, ?_, ?_⟩
  · rw [h.writer, h.dir, ← AList.lookup_isSome, hlookup, AList.lookup_isSome]
    exact hok.writer.linked
  · rw [h.writer, h.dir, Disk.contents, hlookup]
    exact hok.writer.written
  · rw [h.writer]
    exact hok.writer.offset
  · rw [h.writer]
    exact hreaders
  · intro id hid
    rcases hlinked id hid with ⟨hstays, hmem⟩
    rw [h.dir, ← AList.lookup_isSome, removeFiles_lookup s.dir hstays,
      AList.lookup_isSome]
    exact hmem
  · intro id hid
    rw [h.writer]
    apply hok.newest
    rw [h.dir, ← AList.lookup_isSome, ((removeFiles_spec ids s.dir).2 id).1]
      at hid
    split at hid
    · cases hid
    · exact AList.lookup_isSome.mp hid

/-- Installing a merge changes no answer. -/
theorem finishCompaction_spec {s : Store} (hok : s.Ok) {m : Contents}
    (hindexes : s.Indexes m) {merged : MergedFile} (h : merged.Ok s) :
    (s.finishCompaction merged).Ok ∧ (s.finishCompaction merged).Indexes m ∧
      s.Kept (s.finishCompaction merged) := by
  have htrimmed : s.Trimmed merged.oldIds (s.finishCompaction merged) :=
    ⟨rfl, rfl⟩
  have hactive := h.slot.active_notMem
  have hslot := h.slot.notMem
  have hreaders : forall id, id ∈ (s.finishCompaction merged).readers ↔
      (id = merged.id ∨ id ∈ s.readers) ∧ id ∉ merged.oldIds := by
    intro id
    simp [finishCompaction, List.mem_filter, List.mem_insert_iff]
  have hstays : forall loc r, s.Holds loc r -> loc.fileId ∉ merged.oldIds ->
      (s.finishCompaction merged).Holds loc r := by
    intro loc r hholds hnot
    refine ⟨?_, hholds.len, ?_, hholds.whole⟩
    · rw [htrimmed.contents hnot]
      exact hholds.located
    · exact (hreaders _).mpr ⟨Or.inr hholds.readable, hnot⟩
  refine ⟨?_, ⟨?_, ?_⟩, htrimmed.kept⟩
  · apply htrimmed.ok hok hactive
    · exact (hreaders _).mpr ⟨Or.inr hok.active, hactive⟩
    · intro id hid
      rcases (hreaders id).mp hid with ⟨heq | hold, hnot⟩
      · rw [heq]
        exact ⟨hslot, h.linked⟩
      · exact ⟨hnot, hok.linked id hold⟩
  · intro k
    exact lookup_repoints_eq_none.trans (hindexes.live k)
  · intro k loc hlookup
    change (merged.moved.foldl repoint s.keydir).lookup k = some loc at hlookup
    cases hold : s.keydir.lookup k with
    | none =>
        rw [lookup_repoints_eq_none.mpr hold] at hlookup
        cases hlookup
    | some old =>
        rcases hindexes.held k old hold with ⟨r, hkey, hvalue, hholds⟩
        by_cases hmoved : exists new, (k, old, new) ∈ merged.moved
        · rcases hmoved with ⟨new, hmove⟩
          have hnew : loc = new := by
            rw [lookup_repoints_of_mem h.nodup hmove hold,
              Option.some.injEq] at hlookup
            exact hlookup.symm
          subst hnew
          rcases h.copies _ hmove with ⟨r', hlen, hfrom, hid, hlen', hto⟩
          have hsame : r' = r := hholds.unique hok hfrom hlen
          subst hsame
          refine ⟨r', hkey, hvalue, ⟨?_, hlen', ?_, ?_⟩⟩
          · rw [hid, htrimmed.contents hslot, contents_of_ne s
              (Nat.ne_of_lt h.slot.below), ← handle_of_mem h.linked]
            exact hto
          · exact (hreaders _).mpr ⟨Or.inl hid, hid ▸ hslot⟩
          · intro heq
            exact absurd (hid.symm.trans heq) (Nat.ne_of_lt h.slot.below)
        · have hsame : loc = old := by
            rw [lookup_repoints_of_ne, hold, Option.some.injEq] at hlookup
            · exact hlookup.symm
            · rintro ⟨k', old', new'⟩ hmove rfl heq
              rw [hold, Option.some.injEq] at heq
              exact hmoved ⟨new', heq ▸ hmove⟩
          subst hsame
          refine ⟨r, hkey, hvalue, hstays loc r hholds ?_⟩
          intro hmem
          exact hmoved (h.covered k loc hold hmem)

end Store

end Minicask
