import Minicask.Store.Handles
import Minicask.Store.Opening

/-!
# Compacting a store

A merge copies the record of every live key into one new file.  The keys are all
different, so the order of the copies does not matter: replaying them gives the
map the index stood for.
-/

namespace Minicask

open Replay

theorem mem_inFileOrder {keydir : Keydir} {p : Bytes × Location} :
    p ∈ inFileOrder keydir ↔ keydir.lookup p.1 = some p.2 := by
  rw [inFileOrder, List.mem_insertionSort, List.mem_map]
  constructor
  · rintro ⟨e, he, rfl⟩
    exact AList.mem_lookup_iff.mpr he
  · intro hlookup
    exact ⟨⟨p.1, p.2⟩, AList.mem_lookup_iff.mp hlookup, rfl⟩

theorem nodup_inFileOrder (keydir : Keydir) :
    ((inFileOrder keydir).map Prod.fst).Nodup := by
  have hperm : ((inFileOrder keydir).map Prod.fst).Perm keydir.keys := by
    refine ((List.perm_insertionSort _ _).map Prod.fst).trans ?_
    rw [List.map_map]
    exact List.Perm.refl _
  exact hperm.nodup_iff.mpr keydir.keys_nodup

theorem Store.copied_of_live {s : Store} {m : Contents} (hindexes : s.Indexes m)
    {rs : List Rec} (hkeys : rs.map Rec.key = (inFileOrder s.keydir).map Prod.fst) :
    forall k, m k ≠ none -> exists r, r ∈ rs ∧ r.key = k := by
  intro k hk
  cases hlookup : s.keydir.lookup k with
  | none => exact absurd ((hindexes.live k).mp hlookup) hk
  | some loc =>
      have hmem : k ∈ rs.map Rec.key := by
        rw [hkeys]
        exact List.mem_map_of_mem
          (mem_inFileOrder.mpr (show _ = some (k, loc).2 from hlookup))
      exact List.mem_map.mp hmem

theorem Points.extend {chart : Chart} {keydir : Keydir} {m : Contents}
    (h : Points chart keydir m) (id : FileId) (rs : List Rec) :
    Points (chart.extend id rs) keydir m := by
  refine ⟨h.live, ?_⟩
  intro k loc hlookup
  rcases h.held k loc hlookup with
    ⟨r, before, after, hchart, hoffset, hlen, hkey, hvalue⟩
  by_cases heq : loc.fileId = id
  · refine ⟨r, before, after ++ rs, ?_, hoffset, hlen, hkey, hvalue⟩
    rw [heq, Chart.extend_self, ← heq, hchart]
    simp
  · refine ⟨r, before, after, ?_, hoffset, hlen, hkey, hvalue⟩
    rw [chart.extend_of_ne rs heq]
    exact hchart

def Chart.only (id : FileId) (rs : List Rec) : Chart :=
  Function.update (fun _ => []) id rs

@[simp] theorem Chart.only_self (id : FileId) (rs : List Rec) :
    Chart.only id rs id = rs := by
  simp [only]

theorem Chart.only_of_ne {id other : FileId} (rs : List Rec)
    (h : other ≠ id) : Chart.only id rs other = [] := by
  simp [only, h]

theorem Chart.extend_only (id : FileId) (rs more : List Rec) :
    (Chart.only id rs).extend id more = Chart.only id (rs ++ more) := by
  simp [extend, only]

theorem logged_only (id : FileId) (rs : List Rec) :
    logged (Chart.only id rs) id = rs := by
  have hbelow : (List.range id).flatMap (Chart.only id rs) = [] := by
    rw [List.flatMap_eq_nil_iff]
    intro other hother
    exact Chart.only_of_ne rs (Nat.ne_of_lt (List.mem_range.mp hother))
  rw [logged_eq, hbelow, Chart.only_self, List.nil_append]

/-!
# The copies
-/

/-- How far a merge into a file has got: the records copied so far are the file,
and the index and the hints are theirs. -/
structure Merged (dir : Dir) (id : FileId) (m : Merge) (rs : List Rec) :
    Prop where
  ok : m.writer.Ok m.dir
  fileId : m.writer.fileId = id
  contents : m.writer.contents m.dir = Rec.join rs
  frame : Dir.SameBut id dir m.dir
  hints : Hint.Describes 0 m.hints rs
  points : Points (Chart.only id rs) m.keydir
    (replay empty (rs.map Rec.write))

theorem length_readRecord {readers : List FileId} {dir : Dir} {loc : Location}
    {bytes : Bytes} (h : readRecord readers dir loc = Except.ok bytes) :
    bytes.length = loc.len.toNat := by
  unfold readRecord at h
  split at h
  · unfold Dir.readAt at h
    dsimp only at h
    split at h
    · rename_i hle
      cases h
      rw [length_slice (Nat.le_add_right _ _) hle, Nat.add_sub_cancel_left]
    · cases h
  · cases h

/-- A record that a merge can copy. -/
structure Copyable (readers : List FileId) (dir : Dir) (id : FileId)
    (loc : Location) (r : Rec) : Prop where
  located : Located (dir.disk.contents loc.fileId) loc.offset r
  len : loc.len = UInt32.ofNat r.bytes.length
  readable : loc.fileId ∈ readers
  linked : loc.fileId ∈ dir.disk.data
  elsewhere : loc.fileId ≠ id
  live : r.value ≠ none

theorem Merged.copy {readers : List FileId} {dir : Dir} {id : FileId}
    {m : Merge} {rs : List Rec} (h : Merged dir id m rs) {loc : Location}
    {r : Rec} (hcopy : Copyable readers dir id loc r)
    (rest : List (Bytes × Location)) :
    exists m', mergeLoop readers ((r.key, loc) :: rest) m =
        mergeLoop readers rest m' ∧
      Merged dir id m' (rs ++ [r]) ∧
      m'.writer = (m.writer.append m.dir r.bytes Reach.buffer).2.1 ∧
      m'.dir = (m.writer.append m.dir r.bytes Reach.buffer).2.2 := by
  have hlinked : loc.fileId ∈ m.dir.disk.data := by
    rw [← AList.lookup_isSome, h.frame.lookup _ hcopy.elsewhere,
      AList.lookup_isSome]
    exact hcopy.linked
  have hread : readRecord readers m.dir loc = Except.ok r.bytes := by
    apply Store.readRecord_of_located _ hcopy.len hcopy.readable
    rw [Store.handle_of_mem hlinked, h.frame.contents hcopy.elsewhere]
    exact hcopy.located
  rcases LogWriter.appended_append h.ok r.bytes Reach.buffer with
    ⟨hlanded, happended⟩
  have hoffset : m.writer.offset = (Rec.join rs).length := by
    rw [← h.contents, h.ok.length_contents]
  rcases happend : m.writer.append m.dir r.bytes Reach.buffer with
    ⟨⟨offset, len⟩, writer, dir'⟩
  rw [happend] at hlanded happended
  cases hlanded
  rw [mergeLoop, hread]
  dsimp only
  rw [happend]
  refine ⟨_, rfl, ⟨happended.ok, happended.fileId.trans h.fileId, ?_,
    h.frame.trans (h.fileId ▸ happended.frame), ?_, ?_⟩, rfl, rfl⟩
  · rw [happended.contents, h.contents]
    simp
  · apply h.hints.append
    refine Hint.Describes.cons rfl ?_ rfl ?_ (Hint.Describes.nil _)
    · rw [Nat.zero_add]
      exact hoffset
    · cases hvalue : r.value with
      | none => exact absurd hvalue hcopy.live
      | some value => rfl
  · have hchart : (Chart.only id rs).extend id [r] id = rs ++ r :: [] := by
      rw [Chart.extend_only, Chart.only_self]
    rw [List.map_append, replay_append, ← Chart.extend_only]
    exact (h.points.extend id [r]).insert hchart hcopy.live
      (happended.fileId.trans h.fileId) hoffset rfl

/-- A whole run of copies.  What every copy keeps of the writer and the directory,
the run keeps. -/
theorem Merged.loop_keeps {readers : List FileId} {dir : Dir} {id : FileId}
    {contents : Contents} {Q : LogWriter -> Dir -> List Rec -> Prop}
    (hQ : forall w d rs r, w.Ok d -> w.fileId = id -> Q w d rs ->
      r.value = contents r.key ->
      Q (w.append d r.bytes Reach.buffer).2.1
        (w.append d r.bytes Reach.buffer).2.2 (rs ++ [r]))
    (l : List (Bytes × Location)) {m : Merge} {rs : List Rec}
    (h : Merged dir id m rs) (hm : Q m.writer m.dir rs)
    (hl : forall p, p ∈ l -> exists r : Rec, r.key = p.1 ∧
      r.value = contents p.1 ∧ Copyable readers dir id p.2 r) :
    exists m' copied, mergeLoop readers l m = Except.ok m' ∧
      Merged dir id m' (rs ++ copied) ∧ Q m'.writer m'.dir (rs ++ copied) ∧
      copied.map Rec.key = l.map Prod.fst ∧
      forall r, r ∈ copied -> r.value = contents r.key ∧ r.value ≠ none := by
  induction l generalizing m rs with
  | nil =>
      exact ⟨m, [], rfl, by rwa [List.append_nil], by rwa [List.append_nil], rfl,
        fun _ hr => absurd hr List.not_mem_nil⟩
  | cons p l ih =>
      rcases hl p List.mem_cons_self with ⟨r, hkey, hvalue, hcopy⟩
      rcases h.copy hcopy l with ⟨m', hloop, hmerged, hwriter, hdir⟩
      rw [← hkey] at hvalue
      have hm' := hQ m.writer m.dir rs r h.ok h.fileId hm hvalue
      rw [← hwriter, ← hdir] at hm'
      rcases ih hmerged hm' (fun q hq => hl q (List.mem_cons_of_mem p hq)) with
        ⟨m'', copied, hloop', hmerged', hm'', hkeys, hvalues⟩
      refine ⟨m'', r :: copied, ?_, ?_, ?_, ?_, ?_⟩
      · rw [← hloop', ← hloop, hkey]
      · rwa [List.append_assoc] at hmerged'
      · rwa [List.append_assoc] at hm''
      · rw [List.map_cons, List.map_cons, hkeys, hkey]
      · intro r' hr'
        rcases List.mem_cons.mp hr' with heq | hin
        · rw [heq]
          exact ⟨hvalue, hcopy.live⟩
        · exact hvalues r' hin

theorem Merged.loop {readers : List FileId} {dir : Dir} {id : FileId}
    {contents : Contents} (l : List (Bytes × Location)) {m : Merge}
    {rs : List Rec} (h : Merged dir id m rs)
    (hl : forall p, p ∈ l -> exists r : Rec, r.key = p.1 ∧
      r.value = contents p.1 ∧ Copyable readers dir id p.2 r) :
    exists m' copied, mergeLoop readers l m = Except.ok m' ∧
      Merged dir id m' (rs ++ copied) ∧
      copied.map Rec.key = l.map Prod.fst ∧
      forall r, r ∈ copied -> r.value = contents r.key := by
  rcases Merged.loop_keeps (Q := fun _ _ _ => True) (fun _ _ _ _ _ _ _ _ => trivial)
    l h trivial hl with ⟨m', copied, hloop, hmerged, _, hkeys, hvalues⟩
  exact ⟨m', copied, hloop, hmerged, hkeys, fun r hr => (hvalues r hr).1⟩

/-- Copies of all the live records replay to the same map. -/
theorem replay_copies {rs : List Rec} {m : Contents}
    (hnodup : (rs.map Rec.key).Nodup)
    (hvalues : forall r, r ∈ rs -> r.value = m r.key)
    (hkeys : forall k, m k ≠ none -> exists r, r ∈ rs ∧ r.key = k) :
    replay empty (rs.map Rec.write) = m := by
  funext k
  have hnodup' : ((rs.map Rec.write).map Write.key).Nodup := by
    rw [List.map_map]
    exact hnodup
  by_cases hlive : exists r, r ∈ rs ∧ r.key = k
  · rcases hlive with ⟨r, hr, rfl⟩
    exact (replay_of_nodup hnodup' (List.mem_map_of_mem hr) empty).trans
      (hvalues r hr)
  · rw [replay_of_forall_ne]
    · by_contra hne
      exact hlive (hkeys k (Ne.symm hne))
    · intro w hw heq
      rcases List.mem_map.mp hw with ⟨r, hr, rfl⟩
      exact hlive ⟨r, hr, heq⟩

/-!
# Deleting what the merge replaced
-/

theorem removeFiles_spec (ids : List FileId) (dir : Dir) :
    (removeFiles dir ids).disk.appliedIndex = dir.disk.appliedIndex ∧
      forall id,
        (removeFiles dir ids).disk.data.lookup id =
          (if id ∈ ids then none else dir.disk.data.lookup id) ∧
        (removeFiles dir ids).disk.hints.lookup id =
          (if id ∈ ids then none else dir.disk.hints.lookup id) := by
  induction ids generalizing dir with
  | nil =>
      refine ⟨rfl, fun id => ?_⟩
      simp [removeFiles]
  | cons head ids ih =>
      rcases ih ((dir.removeHint head).removeData head) with
        ⟨happlied, hlookup⟩
      have happlied' : ((dir.removeHint head).removeData
          head).disk.appliedIndex = dir.disk.appliedIndex := by
        unfold Dir.removeData Dir.removeHint
        split <;> split <;> rfl
      refine ⟨happlied.trans happlied', fun id => ?_⟩
      have hid := hlookup id
      rw [Dir.lookup_removeData, Dir.data_removeHint, Dir.hints_removeData,
        Dir.lookup_removeHint] at hid
      show (removeFiles ((dir.removeHint head).removeData head)
        ids).disk.data.lookup id = _ ∧
        (removeFiles ((dir.removeHint head).removeData head)
          ids).disk.hints.lookup id = _
      rw [hid.1, hid.2]
      by_cases hhead : id = head
      · simp [hhead]
      · simp [hhead]

theorem le_foldl_max (ids : List FileId) (start : FileId) :
    start <= ids.foldl max start ∧
      forall id, id ∈ ids -> id <= ids.foldl max start := by
  induction ids generalizing start with
  | nil => exact ⟨Nat.le_refl start, fun _ h => absurd h List.not_mem_nil⟩
  | cons head ids ih =>
      rcases ih (max start head) with ⟨hstart, hids⟩
      refine ⟨Nat.le_trans (Nat.le_max_left _ _) hstart, ?_⟩
      intro id hid
      rcases List.mem_cons.mp hid with heq | hin
      · rw [heq]
        exact Nat.le_trans (Nat.le_max_right _ _) hstart
      · exact hids id hin

theorem foldl_max_le {ids : List FileId} {start bound : FileId}
    (hstart : start <= bound) (h : forall id, id ∈ ids -> id <= bound) :
    ids.foldl max start <= bound := by
  induction ids generalizing start with
  | nil => exact hstart
  | cons head ids ih =>
      apply ih
      · exact Nat.max_le.mpr ⟨hstart, h head List.mem_cons_self⟩
      · intro id hid
        exact h id (List.mem_cons_of_mem head hid)

theorem maxId_readers {s : Store} (hok : s.Ok) :
    maxId s.readers = s.writer.fileId := by
  apply Nat.le_antisymm
  · exact foldl_max_le (Nat.zero_le _)
      (fun id hid => hok.newest id (hok.linked id hid))
  · exact (le_foldl_max s.readers 0).2 _ hok.active

/-!
# The whole compaction
-/

namespace Store

def flushed (s : Store) : Store :=
  { s with
    writer := (s.writer.flush s.dir).1
    dir := (s.writer.flush s.dir).2 }

theorem advanced_flushed {s : Store} (hok : s.Ok) :
    s.Advanced [] s.flushed :=
  ⟨(LogWriter.appended_flush hok.writer).1, rfl⟩

def Durable (s : Store) : Prop :=
  s.dir.disk.synced s.writer.fileId = s.writer.offset

theorem Durable.pending {s : Store} (h : s.Durable) (hok : s.Ok) :
    s.writer.pending = [] := by
  have hle : s.dir.disk.synced s.writer.fileId <= s.writer.written :=
    Nat.le_trans ((s.dir.disk.data.lookup s.writer.fileId).getD {}).synced_le
      (Nat.le_of_eq hok.writer.written)
  have hsynced : s.dir.disk.synced s.writer.fileId = s.writer.offset := h
  rw [hsynced, hok.writer.offset] at hle
  exact List.length_eq_zero_iff.mp (by omega)

theorem contents_flushed {s : Store} (hok : s.Ok) (id : FileId) :
    s.flushed.contents id = s.flushed.dir.disk.contents id := by
  have hpending : s.flushed.writer.pending = [] :=
    (LogWriter.appended_flush hok.writer).2
  unfold Store.contents
  split
  · next heq => rw [heq, LogWriter.contents, hpending, List.append_nil]
  · rfl

theorem copyable {s : Store} (hok : s.Ok) {m : Contents} (h : s.Indexes m)
    {nextId : FileId} (hnext : s.writer.fileId < nextId)
    {p : Bytes × Location} (hp : p ∈ inFileOrder s.keydir) :
    exists r : Rec, r.key = p.1 ∧ r.value = m p.1 ∧
      Copyable s.readers (s.flushed.dir.create nextId) nextId p.2 r := by
  have hadvanced := advanced_flushed hok
  have hokFlushed := hadvanced.ok hok
  have hindexes := h.carried (hadvanced.carries hok) rfl
  rw [mem_inFileOrder] at hp
  rcases hindexes.held p.1 p.2 hp with ⟨r, hkey, hvalue, hholds⟩
  have hlinked := hokFlushed.linked _ hholds.readable
  have hne : p.2.fileId ≠ nextId := by
    have hle := hokFlushed.newest _ hlinked
    rw [hadvanced.appended.fileId] at hle
    exact Nat.ne_of_lt (Nat.lt_of_le_of_lt hle hnext)
  have hlookup : (s.flushed.dir.create nextId).disk.data.lookup p.2.fileId =
      s.flushed.dir.disk.data.lookup p.2.fileId := by
    rw [Dir.lookup_create, if_neg hne]
  refine ⟨r, hkey, hvalue, ⟨?_, hholds.len, hholds.readable, ?_, hne, ?_⟩⟩
  · rw [Disk.contents, hlookup]
    have hlocated := hholds.located
    rwa [contents_flushed hok] at hlocated
  · rw [← AList.lookup_isSome, hlookup, AList.lookup_isSome]
    exact hlinked
  · rw [hvalue]
    intro hnone
    rw [(h.live p.1).mpr hnone] at hp
    cases hp

theorem merged_start {s : Store} (hok : s.Ok) {nextId : FileId}
    (hnext : s.writer.fileId < nextId) :
    Merged (s.flushed.dir.create nextId) nextId
      { writer := (LogWriter.openFile s.flushed.dir nextId).1
        dir := (LogWriter.openFile s.flushed.dir nextId).2
        keydir := ∅
        hints := []
        bytes := 0 } [] := by
  have hadvanced := advanced_flushed hok
  have hfresh : nextId ∉ s.flushed.dir.disk.data := by
    intro hmem
    have hle := (hadvanced.ok hok).newest nextId hmem
    rw [hadvanced.appended.fileId] at hle
    exact Nat.not_le_of_lt hnext hle
  refine ⟨LogWriter.ok_openFile, rfl, ?_, Dir.SameBut.refl _ _,
    Hint.Describes.nil 0, Points.empty _⟩
  show (s.flushed.dir.create nextId).disk.contents nextId ++ [] = _
  rw [Disk.contents, Dir.lookup_create, if_pos rfl,
    AList.lookup_eq_none.mpr hfresh]
  rfl

theorem compacted {s : Store} (hok : s.Ok) {mg : Merge} {rs : List Rec}
    (h : Merged (s.flushed.dir.create (s.writer.fileId + 1))
      (s.writer.fileId + 1) mg rs) (live disk : Nat) {s' : Store}
    (hs' : s' = { s with
      dir := removeFiles (Hint.write (mg.writer.sync mg.dir).2
        (s.writer.fileId + 1) (mg.writer.sync mg.dir).1.offset mg.hints)
        s.readers
      readers := [s.writer.fileId + 1]
      keydir := mg.keydir
      activeHints := mg.hints
      writer := (mg.writer.sync mg.dir).1
      liveBytes := live
      diskBytes := disk }) :
    s'.Ok ∧ s'.Indexes (replay empty (rs.map Rec.write)) ∧ s.Kept s' ∧
      s'.writer.fileId = s.writer.fileId + 1 ∧ s'.Durable ∧
      s'.dir.disk.appliedIndex = s.dir.disk.appliedIndex ∧
      forall chart, Charted s chart ->
        Charted s' (Chart.only (s.writer.fileId + 1) rs) := by
  have hflushed := advanced_flushed hok
  rcases LogWriter.appended_sync h.ok with ⟨hsync, hpending⟩
  have hid : (mg.writer.sync mg.dir).1.fileId = s.writer.fileId + 1 :=
    hsync.fileId.trans h.fileId
  have hframe : Dir.SameBut (s.writer.fileId + 1)
      (s.flushed.dir.create (s.writer.fileId + 1))
      (mg.writer.sync mg.dir).2 :=
    h.frame.trans (h.fileId ▸ hsync.frame)
  have hunread : s.writer.fileId + 1 ∉ s.readers := by
    intro hmem
    exact Nat.not_succ_le_self _ (hok.newest _ (hok.linked _ hmem))
  rcases removeFiles_spec s.readers (Hint.write (mg.writer.sync mg.dir).2
    (s.writer.fileId + 1) (mg.writer.sync mg.dir).1.offset mg.hints) with
    ⟨happlied, hlookup⟩
  have hdata : forall id, s'.dir.disk.data.lookup id =
      if id ∈ s.readers then none
      else (mg.writer.sync mg.dir).2.disk.data.lookup id := by
    intro id
    rw [hs']
    exact (hlookup id).1
  have hhints : forall id, s'.dir.disk.hints.lookup id =
      if id ∈ s.readers then none
      else ((mg.writer.sync mg.dir).2.disk.hints.insert (s.writer.fileId + 1)
        (Hint.encode (mg.writer.sync mg.dir).1.offset mg.hints)).lookup id := by
    intro id
    rw [hs']
    exact (hlookup id).2
  have hmerged : s'.dir.disk.data.lookup (s.writer.fileId + 1) =
      (mg.writer.sync mg.dir).2.disk.data.lookup (s.writer.fileId + 1) := by
    rw [hdata, if_neg hunread]
  have hlinked : s.writer.fileId + 1 ∈ s'.dir.disk.data := by
    rw [← AList.lookup_isSome, hmerged, AList.lookup_isSome, ← hid]
    exact hsync.ok.linked
  have hcontents : s'.dir.disk.contents (s.writer.fileId + 1) =
      Rec.join rs := by
    rw [Disk.contents, hmerged]
    show (mg.writer.sync mg.dir).2.disk.contents _ = _
    have := hsync.contents
    rw [LogWriter.contents, hpending, List.append_nil, h.contents, hid,
      List.append_nil] at this
    exact this
  have hwriter : s'.writer = (mg.writer.sync mg.dir).1 := by rw [hs']
  have hoffset : (mg.writer.sync mg.dir).1.offset = (Rec.join rs).length := by
    rw [← hsync.ok.length_contents, hsync.contents, h.contents,
      List.append_nil]
  have hsynced : s'.dir.disk.synced (s.writer.fileId + 1) =
      (Rec.join rs).length := by
    rw [Disk.synced, hmerged]
    show (mg.writer.sync mg.dir).2.disk.synced _ = _
    have := LogWriter.synced_sync h.ok
    rw [h.fileId, ← h.ok.length_contents, h.contents] at this
    exact this
  have hold : forall id, id ∈ s'.dir.disk.data -> id ≠ s.writer.fileId + 1 ->
      id ∈ s.dir.disk.data ∧ id ∉ s.readers := by
    intro id hmem hne
    rw [← AList.lookup_isSome, hdata] at hmem
    split at hmem
    · cases hmem
    · next hnot =>
        refine ⟨?_, hnot⟩
        rw [hframe.lookup id hne, Dir.lookup_create, if_neg hne,
          AList.lookup_isSome] at hmem
        exact (hflushed.appended.frame.mem_iff hok.writer.linked id).mp hmem
  have hokWriter : s'.writer.Ok s'.dir := by
    refine ⟨?_, ?_, ?_⟩
    · rw [hwriter, hid]
      exact hlinked
    · rw [hwriter, hid, hcontents, ← hoffset, hsync.ok.offset, hpending]
      rfl
    · rw [hwriter]
      exact hsync.ok.offset
  have hwhole : s'.writer.contents s'.dir = Rec.join rs := by
    rw [LogWriter.contents, hwriter, hid, hpending, hcontents, List.append_nil]
  have hreaders : s'.readers = [s.writer.fileId + 1] := by rw [hs']
  have hactive : s'.writer.fileId = s.writer.fileId + 1 := hwriter ▸ hid
  have hkept : s.Kept s' := by
    refine ⟨by rw [hactive]; exact Nat.le_succ _, ?_⟩
    intro id hle
    have hne : id ≠ s.writer.fileId + 1 :=
      Nat.ne_of_lt (Nat.lt_succ_of_le hle)
    have hsame : s'.dir.disk.handle id = s.flushed.dir.disk.handle id := by
      rw [hs']
      refine (handle_removeFiles _ s.readers id).trans
        (handle_congr ?_ ?_)
      · show (mg.writer.sync mg.dir).2.disk.data.lookup id = _
        rw [hframe.lookup id hne, Dir.lookup_create, if_neg hne]
      · show (mg.writer.sync mg.dir).2.disk.unlinked id = _
        rw [hframe.unlinked]
        unfold Dir.create
        split <;> rfl
    rw [hsame]
    exact (hflushed.kept hok).handles id hle
  refine ⟨⟨hokWriter, ?_, ?_, ?_⟩, ?_, hkept, hactive, ?_, ?_, ?_⟩
  · rw [hwriter, hid, hreaders]
    exact List.mem_cons_self
  · intro id hmem
    rw [hreaders, List.mem_singleton] at hmem
    rw [hmem]
    exact hlinked
  · intro id hmem
    rw [hwriter, hid]
    by_cases heq : id = s.writer.fileId + 1
    · exact Nat.le_of_eq heq
    · exact Nat.le_succ_of_le (hok.newest id (hold id hmem heq).1)
  · have hpoints : Points (Chart.only (s.writer.fileId + 1) rs) s'.keydir
        (replay empty (rs.map Rec.write)) := by
      rw [hs']
      exact h.points
    apply hpoints.indexes
    · intro id hne
      have heq : id = s.writer.fileId + 1 := by
        by_contra hother
        exact hne (Chart.only_of_ne rs hother)
      rw [heq, Chart.only_self, hreaders]
      refine ⟨?_, List.mem_cons_self⟩
      rw [← hid, ← hwriter, contents_active]
      exact hwhole
    · rw [hwriter, hid, Chart.only_self, ← hoffset, hsync.ok.offset, hpending]
      rfl
  · rw [Durable, hactive, hsynced, hwriter, hoffset]
  · rw [hs']
    refine happlied.trans ?_
    show (mg.writer.sync mg.dir).2.disk.appliedIndex = _
    rw [hframe.appliedIndex]
    refine Eq.trans ?_ hflushed.appended.frame.appliedIndex
    unfold Dir.create
    split <;> rfl
  · intro chart hcharted
    have hnew : forall id, id ∈ s'.dir.disk.data ->
        id = s.writer.fileId + 1 := by
      intro id hmem
      by_contra hne
      exact (hold id hmem hne).2 (hcharted.known id (hold id hmem hne).1)
    have hhint : forall id bytes, s'.dir.disk.hints.lookup id = some bytes ->
        id = s.writer.fileId + 1 ∧
          bytes = Hint.encode (Rec.join rs).length mg.hints := by
      intro id bytes hlook
      rw [hhints] at hlook
      split at hlook
      · cases hlook
      · next hnot =>
          by_cases heq : id = s.writer.fileId + 1
          · rw [heq, AList.lookup_insert, Option.some.injEq, hoffset] at hlook
            exact ⟨heq, hlook.symm⟩
          · rw [AList.lookup_insert_ne heq, hframe.hints, Dir.hints_create,
              hflushed.appended.frame.hints] at hlook
            have hmem : id ∈ s.dir.disk.hints :=
              AList.lookup_isSome.mp (by rw [hlook]; rfl)
            exact absurd (hcharted.known id (hcharted.hinted id hmem)) hnot
    refine ⟨?_, ?_, ?_, ?_, ?_, ?_, ?_, ?_, ?_⟩
    · intro id hnot
      apply Chart.only_of_ne
      intro heq
      rw [heq] at hnot
      exact hnot hlinked
    · intro id hmem
      rw [hnew id hmem, hreaders]
      exact List.mem_cons_self
    · intro id hmem
      rcases Option.isSome_iff_exists.mp (AList.lookup_isSome.mpr hmem) with
        ⟨bytes, hbytes⟩
      rw [(hhint id bytes hbytes).1]
      exact hlinked
    · intro id hmem hne
      rw [hactive] at hne
      exact absurd (hnew id hmem) hne
    · rw [hactive, Chart.only_self]
      exact hwhole
    · rw [hactive, Chart.only_self]
      exact ⟨rs, List.prefix_refl _, hcontents⟩
    · rw [hactive, Chart.only_self]
      exact ⟨rs, List.prefix_refl _, hsynced⟩
    · intro id bytes hbytes
      rcases hhint id bytes hbytes with ⟨heq, hencode⟩
      rw [heq, Chart.only_self]
      exact ⟨rs, mg.hints, List.prefix_refl _, hencode, h.hints,
        Nat.le_of_eq hsynced.symm⟩
    · rw [hactive, Chart.only_self, hs']
      exact h.hints

theorem compact_eq {s : Store} (hok : s.Ok) (hcompacting : s.compacting = false)
    (hrestoring : s.restoring = false) {mg : Merge}
    (hloop : mergeLoop s.readers (inFileOrder s.keydir)
      { writer := (LogWriter.openFile s.flushed.dir (s.writer.fileId + 1)).1
        dir := (LogWriter.openFile s.flushed.dir (s.writer.fileId + 1)).2
        keydir := ∅
        hints := []
        bytes := 0 } = Except.ok mg) :
    s.compact = Except.ok
      { s with
        dir := removeFiles (Hint.write (mg.writer.sync mg.dir).2
          (s.writer.fileId + 1) (mg.writer.sync mg.dir).1.offset mg.hints)
          s.readers
        readers := [s.writer.fileId + 1]
        keydir := mg.keydir
        activeHints := mg.hints
        writer := (mg.writer.sync mg.dir).1
        liveBytes := mg.bytes
        diskBytes := mg.bytes } := by
  unfold compact
  rw [if_neg (by simp [hcompacting, hrestoring])]
  simp only [maxId_readers hok]
  unfold flushed at hloop
  rw [hloop]

/-- A compaction keeps the map, in the index and in the files. -/
theorem compact_spec {s : Store} (hok : s.Ok) {m : Contents}
    (hindexes : s.Indexes m) (hcompacting : s.compacting = false)
    (hrestoring : s.restoring = false) :
    exists s' rs, s.compact = Except.ok s' ∧ s'.Ok ∧ s'.Indexes m ∧
      s.Kept s' ∧ s'.writer.fileId = s.writer.fileId + 1 ∧
      s'.Durable ∧
      s'.compacting = false ∧ s'.restoring = false ∧
      s'.dir.disk.appliedIndex = s.dir.disk.appliedIndex ∧
      recorded (Chart.only s'.writer.fileId rs) s'.writer.fileId = m ∧
      forall chart, Charted s chart ->
        Charted s' (Chart.only s'.writer.fileId rs) := by
  have hnext : s.writer.fileId < s.writer.fileId + 1 := Nat.lt_succ_self _
  rcases (merged_start hok hnext).loop (inFileOrder s.keydir)
    (fun p hp => copyable hok hindexes hnext hp) with
    ⟨mg, rs, hloop, hmerged, hkeys, hvalues⟩
  rw [List.nil_append] at hmerged
  have hreplay : replay empty (rs.map Rec.write) = m := by
    apply replay_copies
    · rw [hkeys]
      exact nodup_inFileOrder s.keydir
    · exact hvalues
    · exact copied_of_live hindexes hkeys
  rcases compacted hok hmerged mg.bytes mg.bytes rfl with
    ⟨hok', hindexes', hkept, hid, hdurable, happlied, hcharted⟩
  rw [hreplay] at hindexes'
  refine ⟨_, rs, ?_, hok', hindexes', hkept, hid, hdurable, hcompacting,
    hrestoring, happlied, ?_, ?_⟩
  · exact compact_eq hok hcompacting hrestoring hloop
  · rw [hid, recorded, logged_only]
    exact hreplay
  · intro chart h
    rw [hid]
    exact hcharted chart h

end Store

end Minicask
