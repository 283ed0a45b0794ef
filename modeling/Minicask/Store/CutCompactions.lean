import Minicask.Store.KilledCompactions

/-!
# A power cut while a store compacts

Once the merged file is there, the file that was active is no longer the newest,
and opening takes a torn end of it for damage.  So a cut leaves a store that opens
exactly when nothing of the active file was waiting to be synced.
-/

namespace Minicask

open Replay

/-- What a power cut can leave when every file may lose what was never synced of
it, and any hint may go. -/
structure Disk.CutAll (disk disk' : Disk) : Prop where
  linked : forall id, id ∈ disk'.data ↔ id ∈ disk.data
  kept : forall id, exists n, disk.synced id <= n ∧
    disk'.contents id = (disk.contents id).take n
  settled : disk'.Settled
  hints : forall id bytes, disk'.hints.lookup id = some bytes ->
    disk.hints.lookup id = some bytes

theorem File.eq_of_bytes {file file' : File} (hbytes : file.bytes = file'.bytes)
    (hsynced : file.synced = file'.synced) : file = file' := by
  cases file
  cases file'
  cases hbytes
  cases hsynced
  rfl

theorem Disk.CutAll.lookup {disk disk' : Disk} (h : disk.CutAll disk')
    {id : FileId} (hsynced : disk.synced id = (disk.contents id).length) :
    disk'.data.lookup id = disk.data.lookup id := by
  rcases h.kept id with ⟨n, hn, hbytes⟩
  rw [hsynced] at hn
  rw [List.take_of_length_le hn] at hbytes
  have hsettled := h.settled id
  rw [hbytes, ← hsynced] at hsettled
  cases hlookup : disk.data.lookup id with
  | none =>
      rw [AList.lookup_eq_none, h.linked, ← AList.lookup_eq_none]
      exact hlookup
  | some file =>
      have hin : id ∈ disk'.data := by
        rw [h.linked, ← AList.lookup_isSome, hlookup]
        rfl
      rcases Option.isSome_iff_exists.mp (AList.lookup_isSome.mpr hin) with
        ⟨file', hlookup'⟩
      rw [Disk.contents, Disk.contents, hlookup, hlookup'] at hbytes
      rw [Disk.synced, Disk.synced, hlookup, hlookup'] at hsettled
      rw [hlookup', Option.some.injEq]
      exact File.eq_of_bytes hbytes hsettled

theorem Disk.Firm.cutAll {disk disk' : Disk} {top : FileId} {chart : Chart}
    (h : disk.Firm top chart) (hcut : disk.CutAll disk') :
    Disk.Cut top disk disk' where
  others _ hne := hcut.lookup (h.sealed _ hne)
  linked := (hcut.linked top).mpr h.linked
  kept := hcut.kept top
  settled := hcut.settled top
  hints := hcut.hints

/-!
# Runs
-/

/-- Calls on a store, with compactions in the background and in the foreground,
restarts, kills and power cuts, in any order: what it held when something was last
lost, and the calls made on it since. -/
inductive CompactingRun : Store -> Compacting -> Contents -> List Call -> Prop
    where
  | start {opts : Options} {s : Store}
      (hopen : Store.openWith {} opts = Except.ok s) :
      CompactingRun s Compacting.idle empty []
  | call {s : Store} {work : Compacting} {base : Contents}
      {calls : List Call} (hrun : CompactingRun s work base calls) {c : Call}
      (hplain : c.Plain) (hshort : c.Short) :
      CompactingRun (s.call c).1 work base (calls ++ [c])
  | compact {s s' : Store} {base : Contents} {calls : List Call}
      (hrun : CompactingRun s Compacting.idle base calls)
      (hcompact : s.compact = Except.ok s') :
      CompactingRun s' Compacting.idle base calls
  | beginCompaction {s s' : Store} {base : Contents} {calls : List Call}
      (hrun : CompactingRun s Compacting.idle base calls)
      {job : CompactionJob}
      (hbegin : s.beginCompaction = Except.ok (job, s')) :
      CompactingRun s' (Compacting.started job) base calls
  | runCompaction {s : Store} {base : Contents} {calls : List Call}
      {job : CompactionJob}
      (hrun : CompactingRun s (Compacting.started job) base calls)
      {merged : MergedFile} {dir : Dir}
      (hjob : job.run s.dir = Except.ok (merged, dir)) :
      CompactingRun { s with dir := dir } (Compacting.finished merged) base
        calls
  | finishCompaction {s : Store} {base : Contents} {calls : List Call}
      {merged : MergedFile}
      (hrun : CompactingRun s (Compacting.finished merged) base calls) :
      CompactingRun (s.finishCompaction merged) Compacting.idle base calls
  | abandonCompaction {s : Store} {base : Contents} {calls : List Call}
      {job : CompactionJob}
      (hrun : CompactingRun s (Compacting.started job) base calls) :
      CompactingRun s.abandonCompaction Compacting.idle base calls
  | reopen {s s' : Store} {work : Compacting} {base : Contents}
      {calls : List Call} (hrun : CompactingRun s work base calls) {dir : Dir}
      (hleaves : s.Leaves dir) {opts : Options}
      (hopen : Store.openWith dir opts = Except.ok s') :
      CompactingRun s' Compacting.idle base calls
  | kill {s s' : Store} {work : Compacting} {base base' : Contents}
      {calls : List Call} (hrun : CompactingRun s work base calls)
      {opts : Options}
      (hopen : Store.openWith { disk := s.dir.disk } opts = Except.ok s')
      (hget : forall k, s'.get k = Except.ok (base' k)) :
      CompactingRun s' Compacting.idle base' []
  | cut {s s' : Store} {work : Compacting} {base base' : Contents}
      {calls : List Call} (hrun : CompactingRun s work base calls)
      {disk : Disk} (hcut : s.dir.disk.CutAll disk) {opts : Options}
      (hopen : Store.openWith { disk := disk } opts = Except.ok s')
      (hget : forall k, s'.get k = Except.ok (base' k)) :
      CompactingRun s' Compacting.idle base' []

theorem Opened.backs {dir : Dir} {chart : Chart} {s : Store} {m : Contents}
    (h : Opened dir chart s) (hget : forall k, s.get k = Except.ok (m k)) :
    Backs s Compacting.idle m chart := by
  have hm : recorded chart s.writer.fileId = m := by
    funext k
    have hk := Store.get_eq h.ok h.indexes k
    rw [hget k, Except.ok.injEq] at hk
    exact hk.symm
  exact ⟨h.ok, hm ▸ h.indexes, h.restoring, h.charted.allRead, hm,
    h.compacting, fun id hid _ => h.charted.known id hid⟩

theorem Charted.openable_killed {s : Store} {chart : Chart} (hok : s.Ok)
    (h : Charted s chart) :
    exists chart', Openable s.dir.disk chart' [] := by
  rcases h.firm hok with ⟨flushed, hflushed, hfile, hfirm⟩
  have hlast := getLast_of_newest hfirm.linked hfirm.newest
  refine ⟨_, hfirm.absent, ?_, Or.inl rfl, ?_, ?_, ?_⟩
  · intro id hin
    rw [ite_self, List.append_nil]
    exact hfirm.files id hin
  · intro id _ hnot
    rw [hlast, ne_eq, Option.some.injEq] at hnot
    exact hfirm.sealed id (Ne.symm hnot)
  · intro id hsome _
    rw [hlast, Option.some.injEq] at hsome
    subst hsome
    rcases h.synced with ⟨rs, hrs, hsynced⟩
    refine ⟨rs, ?_, hsynced⟩
    have hle := s.dir.disk.synced_le s.writer.fileId
    rw [hsynced, hfile] at hle
    rw [Function.update_self]
    exact prefix_of_join_le hrs hflushed hle
  · intro id bytes _ hlookup
    exact hfirm.hints id bytes hlookup

theorem CompactingRun.backs {s : Store} {work : Compacting}
    {base : Contents} {calls : List Call}
    (h : CompactingRun s work base calls) :
    exists chart, Backs s work (appliedTo base calls) chart := by
  induction h with
  | start hopen => exact (BackgroundRun.start hopen).backs
  | call _ hplain hshort ih =>
      rcases ih with ⟨chart, hbacks⟩
      rw [appliedTo_snoc]
      exact hbacks.call hplain hshort
  | compact _ hcompact ih =>
      rcases ih with ⟨chart, hbacks⟩
      exact hbacks.compact hcompact
  | beginCompaction _ hbegin ih =>
      rcases ih with ⟨chart, hbacks⟩
      exact ⟨chart, hbacks.beginCompaction hbegin⟩
  | runCompaction _ hjob ih =>
      rcases ih with ⟨chart, hbacks⟩
      exact hbacks.runCompaction hjob
  | finishCompaction _ ih =>
      rcases ih with ⟨chart, hbacks⟩
      exact ⟨_, hbacks.finishCompaction⟩
  | abandonCompaction _ ih =>
      rcases ih with ⟨chart, hbacks⟩
      exact ⟨chart, hbacks.abandonCompaction⟩
  | reopen _ hleaves hopen ih =>
      rcases ih with ⟨chart, hbacks⟩
      rcases hbacks.reopen hleaves _ with ⟨s', hopen', hbacks'⟩
      rw [hopen, Except.ok.injEq] at hopen'
      subst hopen'
      exact ⟨chart, hbacks'⟩
  | @kill s s' _ _ base' _ _ opts hopen hget ih =>
      rcases ih with ⟨chart, hbacks⟩
      rcases hbacks.charted.openable_killed hbacks.ok.allRead with
        ⟨chart', hopenable⟩
      have hfiles : Openable ({ disk := s.dir.disk } : Dir).disk chart' [] :=
        hopenable
      rcases openWith_opened hfiles opts with ⟨s'', hopen', hopened, _⟩
      rw [hopen, Except.ok.injEq] at hopen'
      subst hopen'
      exact ⟨chart', hopened.backs hget⟩
  | @cut s s' _ _ base' _ _ disk hcut opts hopen hget ih =>
      rcases ih with ⟨chart, hbacks⟩
      rcases hbacks.charted.firm hbacks.ok.allRead with ⟨_, _, _, hfirm⟩
      rcases hfirm.cut (hfirm.cutAll hcut) with ⟨kept, tail, _, _, hopenable, _⟩
      have hfiles : Openable ({ disk := disk } : Dir).disk _ tail := hopenable
      rcases openWith_opened hfiles opts with ⟨s'', hopen', hopened, _⟩
      rw [hopen, Except.ok.injEq] at hopen'
      subst hopen'
      exact ⟨_, hopened.backs hget⟩

/-!
# The merge, as far as its sync
-/

/-- The states of the files in `compact`, from the call on, up to and with the sync
of the merge. -/
def Store.mergeSteps (s : Store) : List Disk :=
  let (_, dir) := s.writer.flush { disk := s.dir.disk }
  let mergedId := maxId s.readers + 1
  let (writer, dir) := LogWriter.openFile dir mergedId
  match mergeLoop s.readers (inFileOrder s.keydir)
      { writer := writer
        dir := dir
        keydir := ∅
        hints := []
        bytes := 0 } with
  | Except.error _ => dir.states
  | Except.ok m => (m.writer.sync m.dir).2.states

theorem LogWriter.moves_flush (w : LogWriter) (dir : Dir) :
    dir.Moves (w.flush dir).2 := by
  unfold flush
  split
  · exact Or.inl rfl
  · exact Dir.moves_modify dir w.fileId _

theorem LogWriter.moves_append (w : LogWriter) (dir : Dir) (bytes : Bytes) :
    dir.Moves (w.append dir bytes Reach.buffer).2.2 := by
  unfold append
  rw [if_neg (fun h => h.1 rfl)]
  dsimp only
  split
  · exact Or.inl rfl
  · exact LogWriter.moves_flush _ dir

/-- The files but one, and every hint, are as they were. -/
def Disk.Beside (base : Disk) (id : FileId) (disk : Disk) : Prop :=
  (forall other, other ≠ id ->
    disk.data.lookup other = base.data.lookup other) ∧
  disk.hints = base.hints

theorem Dir.Through.beside {base : Disk} {id : FileId} {dir dir' : Dir}
    (h : dir.Through (base.Beside id)) (hmoves : dir.Moves dir')
    (hframe : Dir.SameBut id dir dir') : dir'.Through (base.Beside id) := by
  refine h.step hmoves ⟨?_, ?_⟩
  · intro other hne
    rw [hframe.lookup other hne, h.1.1 other hne]
  · rw [hframe.hints, h.1.2]

theorem mergeSteps_eq {s : Store} (hok : s.Ok) {mg : Merge}
    (hloop : mergeLoop s.readers (inFileOrder s.keydir)
      { writer := (LogWriter.openFile (Store.flushed
          { s with dir := { disk := s.dir.disk } }).dir
          (s.writer.fileId + 1)).1
        dir := (LogWriter.openFile (Store.flushed
          { s with dir := { disk := s.dir.disk } }).dir
          (s.writer.fileId + 1)).2
        keydir := ∅
        hints := []
        bytes := 0 } = Except.ok mg) :
    s.mergeSteps = (mg.writer.sync mg.dir).2.states := by
  unfold Store.mergeSteps
  simp only [maxId_readers hok]
  unfold Store.flushed at hloop
  dsimp only at hloop ⊢
  rw [hloop]

theorem mergeSteps_through {s : Store} {m : Contents} {chart : Chart}
    (h : Backs s Compacting.idle m chart) (hpending : s.writer.pending = []) :
    forall disk, disk ∈ s.mergeSteps ->
      Copying chart (s.writer.fileId + 1) m disk ∧
        s.dir.disk.Beside (s.writer.fileId + 1) disk := by
  have hnext : s.writer.fileId < s.writer.fileId + 1 := Nat.lt_succ_self _
  rcases reordered h.ok h.indexes (fun _ => Iff.rfl) with ⟨hok, hindexes⟩
  have hcharted : Charted { s with dir := { disk := s.dir.disk } } chart :=
    h.charted.congr rfl rfl rfl rfl (fun id hid => h.work.2 id hid (by simp))
  have hstart := merging_start (m := m) hok hcharted hpending rfl
  have hflushed := flushed_eq
    (s := { s with dir := { disk := s.dir.disk } }) hpending
  have hmerge := Store.merged_start hok hnext
  have hcopyable := fun p (hp : p ∈ inFileOrder s.keydir) =>
    Store.copyable hok hindexes hnext hp
  rw [hflushed] at hmerge hcopyable
  have hbeside : (Dir.create { disk := s.dir.disk }
      (s.writer.fileId + 1)).Through
        (s.dir.disk.Beside (s.writer.fileId + 1)) := by
    have hinitial : Dir.Through (s.dir.disk.Beside (s.writer.fileId + 1))
        { disk := s.dir.disk } :=
      ⟨⟨fun _ _ => rfl, rfl⟩, fun _ hin => absurd hin List.not_mem_nil⟩
    refine hinitial.step (Dir.moves_create _ _) ⟨?_, ?_⟩
    · intro other hne
      rw [Dir.lookup_create, if_neg hne]
    · rw [Dir.hints_create]
  rcases hmerge.loop_keeps
    (Q := fun w d rs => Merging chart (s.writer.fileId + 1) m w d rs ∧
      d.Through (s.dir.disk.Beside (s.writer.fileId + 1)))
    (fun w d rs r hw hid hq hvalue => ⟨hq.1.append hid hvalue,
      hq.2.beside (w.moves_append d r.bytes)
        (hid ▸ (LogWriter.appended_append hw r.bytes Reach.buffer).2.frame)⟩)
    (inFileOrder s.keydir) ⟨hstart, hbeside⟩ hcopyable with
    ⟨mg, rs, hloop, hmerged, ⟨hmerging, hthrough⟩, _, _⟩
  rw [List.nil_append] at hmerged hmerging
  have hcopying := (hmerging.sync hmerged.fileId).1
  have hsync : (mg.writer.sync mg.dir).2.Through
      (s.dir.disk.Beside (s.writer.fileId + 1)) := by
    have hflush := hthrough.beside (mg.writer.moves_flush mg.dir)
      (hmerged.fileId ▸ (LogWriter.appended_flush hmerged.ok).1.frame)
    have hid : (mg.writer.flush mg.dir).1.fileId = s.writer.fileId + 1 :=
      (LogWriter.appended_flush hmerged.ok).1.fileId.trans hmerged.fileId
    exact hflush.beside (Dir.moves_modify _ _ _)
      (hid ▸ Dir.syncData_sameBut _ _)
  rw [mergeSteps_eq h.ok (by rw [hflushed]; exact hloop)]
  intro disk hdisk
  exact ⟨Dir.through_iff.mp hcopying disk hdisk,
    Dir.through_iff.mp hsync disk hdisk⟩

/-!
# A torn file that is not the newest
-/

/-- A file ends inside a record, and its hint describes no more than is there. -/
def Disk.TornAt (disk : Disk) (id : FileId) : Prop :=
  exists kept tail, disk.contents id = Rec.join kept ++ tail ∧ Torn tail ∧
    tail ≠ [] ∧ forall bytes, disk.hints.lookup id = some bytes ->
      exists hinted es, hinted <+: kept ∧
        bytes = Hint.encode (Rec.join hinted).length es ∧
        Hint.Describes 0 es hinted

theorem Disk.TornAt.congr {disk disk' : Disk} {id : FileId}
    (h : disk.TornAt id) (hdata : disk'.data.lookup id = disk.data.lookup id)
    (hhints : disk'.hints.lookup id = disk.hints.lookup id) :
    disk'.TornAt id := by
  rcases h with ⟨kept, tail, hfile, htorn, hsome, hhinted⟩
  refine ⟨kept, tail, ?_, htorn, hsome, ?_⟩
  · rw [Disk.contents, hdata]
    exact hfile
  · rw [hhints]
    exact hhinted

theorem readEntries_torn {dir : Dir} {id : FileId} (h : dir.disk.TornAt id)
    (opts : Options) :
    exists e, readEntries dir opts id false = Except.error e := by
  rcases h with ⟨kept, tail, hfile, htorn, hsome, hhinted⟩
  have hlength : (dir.disk.contents id).length =
      (Rec.join kept).length + tail.length := by
    rw [hfile, List.length_append]
  have hpos := List.length_pos_iff.mpr hsome
  rcases load_start (by omega) hhinted opts with
    ⟨es, hinted, rest, hload, hkept, _⟩
  have hparts : (Rec.join kept).length =
      (Rec.join hinted).length + (Rec.join rest).length := by
    rw [hkept, Rec.join_append, List.length_append]
  have hrest := length_le_join rest
  have hdrop : (dir.disk.contents id).drop (Rec.join hinted).length =
      Rec.join rest ++ tail := by
    rw [hfile, hkept, Rec.join_append, List.append_assoc, List.drop_left]
  have hturns : rest.length < (dir.disk.contents id).length + 1 := by omega
  rcases scanLoop_join htorn rest (Rec.join hinted).length hturns with
    ⟨found, torn, hscan, _, _, hdirty⟩
  rcases hdirty hsome with ⟨detail, htail⟩
  unfold readEntries
  dsimp only
  rw [hload]
  dsimp only
  rw [if_pos (by omega), Scanner.openAt, hdrop, hscan, htail]
  exact ⟨_, rfl⟩

theorem readEntries_frame {dir dir' : Dir} {opts : Options} {id : FileId}
    {isNewest : Bool} {es : List HintEntry}
    (h : readEntries dir opts id isNewest = Except.ok (es, dir'))
    {other : FileId} (hne : other ≠ id) :
    dir'.disk.data.lookup other = dir.disk.data.lookup other ∧
      dir'.disk.hints.lookup other = dir.disk.hints.lookup other := by
  rcases readEntries_cases h with hsame | ⟨len, hcut⟩ | hhinted
  · rw [hsame]
    exact ⟨rfl, rfl⟩
  · rw [hcut]
    constructor
    · rw [Dir.syncData, Dir.lookup_modify, if_neg hne, Dir.setLen,
        Dir.lookup_modify, if_neg hne]
    · rw [Dir.syncData, Dir.hints_modify, Dir.setLen, Dir.hints_modify]
  · rw [hhinted]
    constructor
    · rw [Hint.write, Dir.data_writeHint, Dir.syncData, Dir.lookup_modify,
        if_neg hne]
    · rw [Hint.write, Dir.hints_writeHint, AList.lookup_insert_ne hne,
        Dir.syncData, Dir.hints_modify]

theorem openLoop_torn {opts : Options} {newest : Option FileId}
    {id : FileId} (hnewest : newest ≠ some id) (ids : List FileId)
    {o : Opening} (hin : id ∈ ids) (h : o.dir.disk.TornAt id) :
    exists e, openLoop opts newest ids o = Except.error e := by
  induction ids generalizing o with
  | nil => cases hin
  | cons first ids ih =>
      rw [openLoop]
      dsimp only
      by_cases heq : id = first
      · subst heq
        rcases readEntries_torn h opts with ⟨e, herror⟩
        rw [beq_eq_false_iff_ne.mpr hnewest, herror]
        exact ⟨e, rfl⟩
      · cases hread : readEntries o.dir opts first (newest == some first) with
        | error e => exact ⟨e, rfl⟩
        | ok read =>
            rcases readEntries_frame hread heq with ⟨hdata, hhints⟩
            refine ih ((List.mem_cons.mp hin).resolve_left heq) ?_
            rw [index_withDir]
            split
            · exact h.congr hdata hhints
            · exact h.congr hdata hhints

theorem openWith_torn {disk : Disk} {id top : FileId}
    (htop : disk.listDataFiles.getLast? = some top) (hne : id ≠ top)
    (hin : id ∈ disk.data) (h : disk.TornAt id) (opts : Options) :
    exists e, Store.openWith { disk := disk } opts = Except.error e := by
  rcases removeLeftovers_eq { disk := disk } disk.listDataFiles with
    ⟨hdata, _, hhints⟩
  have hlisted : id ∈ disk.listDataFiles := mem_listDataFiles.mpr hin
  have hnewest : disk.listDataFiles.getLast? ≠ some id := by
    rw [htop, ne_eq, Option.some.injEq]
    exact Ne.symm hne
  have hat : Disk.TornAt (Opening.dir
      { dir := removeLeftovers { disk := disk } disk.listDataFiles }).disk id :=
    h.congr (by rw [hdata]) (by rw [hhints, if_pos hlisted])
  rcases openLoop_torn hnewest disk.listDataFiles hlisted hat with
    ⟨e, hloop⟩
  unfold Store.openWith
  dsimp only
  rw [hloop]
  exact ⟨e, rfl⟩

/-!
# What is left of a merge
-/

/-- What a cut leaves opens, to what some of the calls made, the first `n` of them
at least. -/
def Disk.Recovers (disk : Disk) (opts : Options) (base : Contents)
    (calls : List Call) (n : Nat) : Prop :=
  exists s m, Store.openWith { disk := disk } opts = Except.ok s ∧ n <= m ∧
    m <= calls.length ∧
    (forall k, s.get k = Except.ok (appliedTo base (calls.take m) k)) ∧
    forall k, k ∈ s.keys ↔ (appliedTo base (calls.take m) k).isSome

theorem Openable.recovers {disk : Disk} {chart : Chart} {tail : Bytes}
    (h : Openable disk chart tail) {top : FileId}
    (hlast : disk.listDataFiles.getLast? = some top) {base : Contents}
    {calls : List Call} (hm : recorded chart top = appliedTo base calls)
    (opts : Options) {n : Nat} (hn : n <= calls.length) :
    disk.Recovers opts base calls n := by
  have hfiles : Openable ({ disk := disk } : Dir).disk chart tail := h
  rcases openWith_opened hfiles opts with ⟨s, hopen, hopened, hid⟩
  have hindexes := hopened.indexes
  rw [hid, hlast, Option.getD_some, hm] at hindexes
  refine ⟨s, calls.length, hopen, hn, Nat.le_refl _, ?_, ?_⟩
  · rw [List.take_length]
    exact Store.get_eq hopened.ok hindexes
  · rw [List.take_length]
    exact Store.mem_keys_iff hindexes

theorem firm_of_copies {s : Store} {m : Contents} {chart : Chart}
    (h : Backs s Compacting.idle m chart) (hsettled : s.dir.disk.Settled)
    {disk : Disk} (hbeside : s.dir.disk.Beside (s.writer.fileId + 1) disk)
    {copied : List Rec}
    (hwhole : disk.Whole (Function.update chart (s.writer.fileId + 1) copied))
    {top : FileId} (hlinked : top ∈ disk.data)
    (hnewest : forall id, id ∈ disk.data -> id <= top) :
    disk.Firm top (Function.update chart (s.writer.fileId + 1) copied) := by
  refine ⟨hlinked, hnewest, hwhole.absent, hwhole.files, ?_, ?_⟩
  · intro id hne
    by_cases heq : id = s.writer.fileId + 1
    · have hnot : id ∉ disk.data := by
        intro hin
        have hlt : s.writer.fileId + 1 < top :=
          Nat.lt_of_le_of_ne (heq ▸ hnewest id hin) (heq ▸ hne)
        have htop : top ∈ s.dir.disk.data := by
          rw [← AList.lookup_isSome, ← hbeside.1 top (Nat.ne_of_gt hlt),
            AList.lookup_isSome]
          exact hlinked
        exact Nat.not_succ_le_self _
          (Nat.le_trans (Nat.le_of_lt hlt) (h.ok.newest top htop))
      rw [Disk.synced, Disk.contents, AList.lookup_eq_none.mpr hnot]
      rfl
    · rw [Disk.synced, Disk.contents, hbeside.1 id heq]
      exact hsettled id
  · intro id bytes hlookup
    rw [hbeside.2] at hlookup
    have hne : id ≠ s.writer.fileId + 1 := by
      intro heq
      have hin : id ∈ s.dir.disk.data := h.charted.hinted id
        (AList.lookup_isSome.mp (by
          show (s.dir.disk.hints.lookup id).isSome
          rw [hlookup]
          rfl))
      exact Nat.not_succ_le_self _ (heq ▸ h.ok.newest id hin)
    rw [Function.update_of_ne hne]
    rcases h.charted.hints id bytes hlookup with
      ⟨hinted, es, hstarts, hbytes, hes, hle⟩
    refine ⟨hinted, es, hstarts, hbytes, hes, ?_⟩
    rw [Disk.synced, hbeside.1 id hne]
    exact hle

/-- With everything synced, a cut takes at most some of the copies. -/
theorem merge_recovers {s : Store} {base : Contents} {calls : List Call}
    {chart : Chart}
    (h : Backs s Compacting.idle (appliedTo base calls) chart)
    (hsynced : s.dir.disk.synced s.writer.fileId = s.writer.offset)
    {disk disk' : Disk} (hdisk : disk ∈ s.mergeSteps)
    (hcut : disk.CutAll disk') (opts : Options) {n : Nat}
    (hn : n <= calls.length) : disk'.Recovers opts base calls n := by
  have hlength : s.dir.disk.synced s.writer.fileId =
      (s.dir.disk.contents s.writer.fileId).length := by
    have hle := s.dir.disk.synced_le s.writer.fileId
    have hoffset := h.ok.writer.offset
    have hwritten := h.ok.writer.written
    omega
  have hpending : s.writer.pending = [] := by
    have hoffset := h.ok.writer.offset
    have hwritten := h.ok.writer.written
    exact List.eq_nil_of_length_eq_zero (by omega)
  have hsettled : s.dir.disk.Settled := h.charted.settled hlength
  rcases mergeSteps_through h hpending disk hdisk with
    ⟨⟨hbelow, copied, hcopied, hwhole⟩, hbeside⟩
  by_cases hmerged : s.writer.fileId + 1 ∈ disk.data
  · have hfirm := firm_of_copies h hsettled hbeside hwhole hmerged hbelow
    rcases hfirm.cut (hfirm.cutAll hcut) with
      ⟨kept, tail, hkept, _, hopenable, hlast⟩
    rw [Function.update_self] at hkept
    rw [Function.update_idem] at hopenable
    exact hopenable.recovers hlast
      (h.recorded_copies (fun r hr => hcopied r (hkept.subset hr))) opts hn
  · have hnothing : copied = [] := by
      have habsent := hwhole.absent _ hmerged
      rw [Function.update_self] at habsent
      exact habsent
    have hsame : Function.update chart (s.writer.fileId + 1) copied = chart := by
      rw [hnothing, ← h.charted.empty_of_gt h.ok.allRead
        (Nat.lt_succ_self s.writer.fileId)]
      exact Function.update_eq_self ..
    have hne : s.writer.fileId ≠ s.writer.fileId + 1 :=
      Nat.ne_of_lt (Nat.lt_succ_self _)
    have hmem : forall id, id ∈ disk.data -> id ∈ s.dir.disk.data := by
      intro id hin
      rw [← AList.lookup_isSome, ← hbeside.1 id (fun heq =>
        hmerged (heq ▸ hin)), AList.lookup_isSome]
      exact hin
    have hlinked : s.writer.fileId ∈ disk.data := by
      rw [← AList.lookup_isSome, hbeside.1 _ hne, AList.lookup_isSome]
      exact h.ok.writer.linked
    have hfirm := firm_of_copies h hsettled hbeside hwhole hlinked
      (fun id hin => h.ok.newest id (hmem id hin))
    rw [hsame] at hfirm
    rcases hfirm.cut (hfirm.cutAll hcut) with
      ⟨kept, tail, hkept, hall, hopenable, hlast⟩
    have hjoin := h.charted.join_length h.ok.allRead
    have hthere : chart s.writer.fileId <+: kept := by
      apply hall _ (List.prefix_refl _)
      rw [Disk.synced, hbeside.1 _ hne]
      show _ <= s.dir.disk.synced s.writer.fileId
      rw [hsynced]
      exact Nat.le_of_eq hjoin
    rw [hkept.eq_of_length_le hthere.length_le,
      Function.update_eq_self] at hopenable
    exact hopenable.recovers hlast h.whole opts hn

theorem exists_cutAll {disk : Disk} {id : FileId} (hin : id ∈ disk.data)
    {n : Nat} (hn : disk.synced id <= n)
    (hothers : forall other, other ≠ id ->
      disk.synced other = (disk.contents other).length) :
    exists disk', disk.CutAll disk' ∧
      disk'.contents id = (disk.contents id).take n ∧
      disk'.hints = disk.hints := by
  have hlookup : forall other, ((Dir.setLen { disk := disk } id n).syncData
      id).disk.data.lookup other =
        if other = id then
          (disk.data.lookup id).map (fun file => (file.setLen n).syncData)
        else disk.data.lookup other := by
    intro other
    rw [Dir.syncData, Dir.lookup_modify, Dir.setLen, Dir.lookup_modify,
      Dir.lookup_modify]
    by_cases heq : other = id
    · rw [if_pos heq, if_pos rfl, if_pos heq, Option.map_map]
      rfl
    · rw [if_neg heq, if_neg heq, if_neg heq]
  rcases Option.isSome_iff_exists.mp (AList.lookup_isSome.mpr hin) with
    ⟨file, hfile⟩
  have hself : ((Dir.setLen { disk := disk } id n).syncData
      id).disk.contents id = (disk.contents id).take n := by
    rw [Disk.contents, Disk.contents, hlookup, if_pos rfl, hfile]
    rfl
  have hother : forall other, other ≠ id ->
      ((Dir.setLen { disk := disk } id n).syncData id).disk.contents other =
        disk.contents other ∧
      ((Dir.setLen { disk := disk } id n).syncData id).disk.synced other =
        disk.synced other := by
    intro other hne
    rw [Disk.contents, Disk.synced, hlookup, if_neg hne]
    exact ⟨rfl, rfl⟩
  have hhints : ((Dir.setLen { disk := disk } id n).syncData id).disk.hints =
      disk.hints := by
    rw [Dir.syncData, Dir.hints_modify, Dir.setLen, Dir.hints_modify]
  refine ⟨_, ⟨?_, ?_, ?_, ?_⟩, hself, hhints⟩
  · intro other
    rw [← AList.lookup_isSome, hlookup]
    split
    · next heq =>
        rw [Option.isSome_map, AList.lookup_isSome, heq]
    · exact AList.lookup_isSome
  · intro other
    by_cases heq : other = id
    · exact ⟨n, heq ▸ hn, heq ▸ hself⟩
    · refine ⟨(disk.contents other).length, Nat.le_of_eq (hothers other heq),
        ?_⟩
      rw [(hother other heq).1, List.take_length]
  · intro other
    by_cases heq : other = id
    · rw [heq]
      exact synced_all _ id
    · rw [(hother other heq).1, (hother other heq).2]
      exact hothers other heq
  · intro other bytes hsome
    rw [hhints] at hsome
    exact hsome

theorem join_short {rs kept : List Rec} {tail : Bytes}
    (hpos : 0 < (Rec.join rs).length)
    (htake : (Rec.join rs).take ((Rec.join rs).length - 1) =
      Rec.join kept ++ tail) (hkept : kept <+: rs) : tail ≠ [] := by
  intro hnil
  rcases hkept with ⟨more, hmore⟩
  have hlength := congrArg List.length htake
  rw [List.length_take, hnil, List.append_nil, ← hmore, Rec.join_append,
    List.length_append] at hlength
  rw [← hmore, Rec.join_append, List.length_append] at hpos
  cases more with
  | nil =>
      have hempty : (Rec.join []).length = 0 := rfl
      omega
  | cons r more =>
      have hrecord := r.length_bytes
      rw [Rec.join_cons, List.length_append] at hlength hpos
      unfold headerLen at hrecord
      omega

theorem LogWriter.synced_flush (w : LogWriter) (dir : Dir) (id : FileId) :
    (w.flush dir).2.disk.synced id = dir.disk.synced id := by
  unfold flush
  split
  · rfl
  · by_cases heq : id = w.fileId
    · rw [heq]
      exact Dir.synced_writeAll dir w.fileId w.pending
    · rw [Disk.synced, (Dir.writeAll_sameBut dir w.fileId
        w.pending).lookup id heq]
      rfl

theorem created_mem_mergeSteps {s : Store} {m : Contents} {chart : Chart}
    (h : Backs s Compacting.idle m chart) :
    ((s.writer.flush { disk := s.dir.disk }).2.create
      (s.writer.fileId + 1)).disk ∈ s.mergeSteps := by
  have hnext : s.writer.fileId < s.writer.fileId + 1 := Nat.lt_succ_self _
  rcases reordered h.ok h.indexes (fun _ => Iff.rfl) with ⟨hok, hindexes⟩
  rcases (Store.merged_start hok hnext).loop_keeps
    (Q := fun _ d _ => ((s.writer.flush { disk := s.dir.disk }).2.create
      (s.writer.fileId + 1)).disk ∈ d.states)
    (fun w d _ r _ _ hq _ => (w.moves_append d r.bytes).states hq)
    (inFileOrder s.keydir) List.mem_cons_self
    (fun p hp => Store.copyable hok hindexes hnext hp) with
    ⟨mg, rs, hloop, _, hstate, _, _⟩
  rw [mergeSteps_eq h.ok hloop]
  exact (Dir.moves_modify _ _ _).states
    ((mg.writer.moves_flush mg.dir).states hstate)

/-- Something unsynced in the active file, and a cut that leaves part of it beside
the merged file. -/
theorem merge_torn {s : Store} {m : Contents} {chart : Chart}
    (h : Backs s Compacting.idle m chart)
    (hsynced : s.dir.disk.synced s.writer.fileId ≠ s.writer.offset) :
    exists disk disk', disk ∈ s.mergeSteps ∧ disk.CutAll disk' ∧
      forall opts, exists e,
        Store.openWith { disk := disk' } opts = Except.error e := by
  have hwriter : s.writer.Ok { disk := s.dir.disk } :=
    ⟨h.ok.writer.linked, h.ok.writer.written, h.ok.writer.offset⟩
  rcases LogWriter.appended_flush hwriter with ⟨hflush, hpending⟩
  have hne : s.writer.fileId ≠ s.writer.fileId + 1 :=
    Nat.ne_of_lt (Nat.lt_succ_self _)
  have hfresh : s.writer.fileId + 1 ∉ s.dir.disk.data := fun hin =>
    Nat.not_succ_le_self _ (h.ok.newest _ hin)
  have hmem := hflush.frame.mem_iff hwriter.linked
  have hlookup := Dir.lookup_create (s.writer.flush { disk := s.dir.disk }).2
    (s.writer.fileId + 1)
  have hdisk := created_mem_mergeSteps h
  generalize hcreated : ((s.writer.flush { disk := s.dir.disk }).2.create
    (s.writer.fileId + 1)).disk = created at hdisk hlookup
  have hhints : created.hints = s.dir.disk.hints := by
    rw [← hcreated, Dir.hints_create, hflush.frame.hints]
  have hlinked : s.writer.fileId ∈ created.data := by
    rw [← AList.lookup_isSome, hlookup, if_neg hne, AList.lookup_isSome, hmem]
    exact hwriter.linked
  have hcontents : created.contents s.writer.fileId =
      Rec.join (chart s.writer.fileId) := by
    have hwhole := hflush.contents
    rw [LogWriter.contents, hpending, List.append_nil, List.append_nil,
      hflush.fileId] at hwhole
    rw [Disk.contents, hlookup, if_neg hne]
    exact hwhole.trans h.charted.contents
  have hactive : created.synced s.writer.fileId =
      s.dir.disk.synced s.writer.fileId := by
    rw [Disk.synced, hlookup, if_neg hne]
    exact s.writer.synced_flush _ _
  have hlength := h.charted.join_length h.ok.allRead
  have hlt : s.dir.disk.synced s.writer.fileId < s.writer.offset := by
    have hle := s.dir.disk.synced_le s.writer.fileId
    have hoffset := h.ok.writer.offset
    have hwritten := h.ok.writer.written
    omega
  have hshort : created.synced s.writer.fileId <=
      (Rec.join (chart s.writer.fileId)).length - 1 := by
    rw [hactive]
    exact Nat.le_sub_one_of_lt (Nat.lt_of_lt_of_eq hlt hlength.symm)
  have hothers : forall id, id ≠ s.writer.fileId ->
      created.synced id = (created.contents id).length := by
    intro id hid
    rw [Disk.synced, Disk.contents, hlookup]
    by_cases heq : id = s.writer.fileId + 1
    · have hnone : (s.writer.flush
          { disk := s.dir.disk }).2.disk.data.lookup (s.writer.fileId + 1) =
            none :=
        AList.lookup_eq_none.mpr (fun hin => hfresh ((hmem _).mp hin))
      rw [if_pos heq, hnone]
      rfl
    · rw [if_neg heq, hflush.frame.lookup id hid]
      exact h.charted.synced_of_ne hid
  rcases exists_cutAll hlinked hshort hothers with
    ⟨disk', hcut, hkeeps, hhints'⟩
  refine ⟨created, disk', hdisk, hcut, ?_⟩
  rcases join_cut (chart s.writer.fileId)
    ((Rec.join (chart s.writer.fileId)).length - 1) with
    ⟨kept, tail, htake, hkept, htorn, hmost⟩
  have htail := join_short (Nat.lt_of_lt_of_eq
    (Nat.lt_of_le_of_lt (Nat.zero_le _) hlt) hlength.symm) htake hkept
  have hat : disk'.TornAt s.writer.fileId := by
    refine ⟨kept, tail, ?_, htorn, htail, ?_⟩
    · rw [hkeeps, hcontents, htake]
    · intro bytes hbytes
      rw [hhints', hhints] at hbytes
      rcases h.charted.hints _ bytes hbytes with
        ⟨hinted, es, hstarts, hencode, hes, hle⟩
      refine ⟨hinted, es, hmost hinted hstarts (Nat.le_trans hle ?_), hencode,
        hes⟩
      rw [hactive] at hshort
      exact hshort
  have hnewest : disk'.listDataFiles.getLast? =
      some (s.writer.fileId + 1) := by
    apply getLast_of_newest
    · rw [hcut.linked, ← AList.lookup_isSome, hlookup, if_pos rfl]
      rfl
    · intro id hin
      by_cases heq : id = s.writer.fileId + 1
      · exact Nat.le_of_eq heq
      · rw [hcut.linked, ← AList.lookup_isSome, hlookup, if_neg heq,
          AList.lookup_isSome, hmem] at hin
        exact Nat.le_succ_of_le (h.ok.newest id hin)
  exact openWith_torn hnewest hne ((hcut.linked _).mpr hlinked) hat

theorem mem_compactSteps {s : Store} {m : Contents} {chart : Chart}
    (h : Backs s Compacting.idle m chart) {disk : Disk}
    (hdisk : disk ∈ s.mergeSteps) : disk ∈ s.compactSteps s.readers := by
  have hnext : s.writer.fileId < s.writer.fileId + 1 := Nat.lt_succ_self _
  rcases reordered h.ok h.indexes (fun _ => Iff.rfl) with ⟨hok, hindexes⟩
  rcases (Store.merged_start hok hnext).loop (inFileOrder s.keydir)
    (fun p hp => Store.copyable hok hindexes hnext hp) with
    ⟨mg, rs, hloop, _, _, _⟩
  rw [mergeSteps_eq h.ok hloop] at hdisk
  rw [Store.compactSteps, Store.compact_eq hok h.work.1 h.restoring hloop]
  exact states_removeFiles (List.mem_cons_of_mem _ hdisk)

/-!
# Cut at any point of the merge
-/

/-- However many of the calls were synced, every power cut at every point of
`compact` up to the merge's sync leaves a store that opens with them, exactly when
all that was appended before the call was synced. -/
theorem cut_compaction_iff {s : Store} {base : Contents} {calls : List Call}
    (h : CompactingRun s Compacting.idle base calls) (opts : Options) {n : Nat}
    (hn : n <= calls.length) :
    (forall disk, disk ∈ s.mergeSteps -> forall disk', disk.CutAll disk' ->
      disk'.Recovers opts base calls n) ↔
      s.dir.disk.synced s.writer.fileId = s.writer.offset := by
  rcases h.backs with ⟨chart, hbacks⟩
  constructor
  · intro hrecovers
    by_contra hsynced
    rcases merge_torn hbacks hsynced with
      ⟨disk, disk', hdisk, hcut, herror⟩
    rcases hrecovers disk hdisk disk' hcut with ⟨s', _, hopen, _⟩
    rcases herror opts with ⟨e, herror⟩
    rw [herror] at hopen
    cases hopen
  · intro hsynced disk hdisk disk' hcut
    exact merge_recovers hbacks hsynced hdisk hcut opts hn

def onePutCall : List Call :=
  [Call.put [97] [1] 5 6]

theorem compactingRun_onePutCall (opts : Options) :
    CompactingRun ((newStore opts).after onePutCall) Compacting.idle empty
      onePutCall :=
  (CompactingRun.start (openWith_nothing opts)).call
    (c := Call.put [97] [1] 5 6) trivial (by decide)

/-- A put that was synced. -/
theorem cut_compaction_iff_synced :
    (newStore {}).opts.sync = SyncPolicy.everyWrite ∧
      forall disk, disk ∈ ((newStore {}).after onePutCall).mergeSteps ->
        forall disk', disk.CutAll disk' ->
          disk'.Recovers {} empty onePutCall 1 :=
  ⟨rfl, (cut_compaction_iff (compactingRun_onePutCall {}) {}
    (Nat.le_refl 1)).mpr rfl⟩

/-- A put that only reached the kernel, cut after the merged file was created,
leaves a directory that does not open. -/
theorem cut_compaction_does_not_open :
    exists s disk disk',
      CompactingRun s Compacting.idle empty onePutCall ∧
      s.opts.sync = SyncPolicy.osCache ∧ disk ∈ s.mergeSteps ∧
      disk.CutAll disk' ∧
      forall opts, exists e,
        Store.openWith { disk := disk' } opts = Except.error e := by
  have hrun := compactingRun_onePutCall { sync := SyncPolicy.osCache }
  rcases hrun.backs with ⟨chart, hbacks⟩
  rcases merge_torn hbacks (by decide +kernel) with
    ⟨disk, disk', hdisk, hcut, herror⟩
  exact ⟨_, disk, disk', hrun, rfl, hdisk, hcut, herror⟩

end Minicask
