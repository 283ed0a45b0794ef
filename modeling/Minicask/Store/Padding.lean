import Minicask.Store.BackedHistories
import Minicask.Store.CutCompactions
import Minicask.Store.KilledCompactions

/-!
# Empty files that nothing reads

A directory may have data files with nothing in them that no store has a handle
on.  A store does the same with them as without: it never reads them, and a new
file that takes the id of one is as good as any.
-/

namespace Minicask

/-- The same data files and hints, and perhaps some empty files besides. -/
structure Dir.Padded (dir padded : Dir) : Prop where
  data : forall id,
    padded.disk.data.lookup id = dir.disk.data.lookup id ∨
      (dir.disk.data.lookup id = none ∧
        padded.disk.data.lookup id = some File.empty)
  hints : forall id, padded.disk.hints.lookup id = dir.disk.hints.lookup id

namespace Dir.Padded

variable {dir padded : Dir}

theorem refl (dir : Dir) : dir.Padded dir :=
  ⟨fun _ => Or.inl rfl, fun _ => rfl⟩

theorem congr (h : dir.Padded padded) {dir' padded' : Dir}
    (hdata : dir'.disk.data = dir.disk.data)
    (hhints : dir'.disk.hints = dir.disk.hints)
    (hdata' : padded'.disk.data = padded.disk.data)
    (hhints' : padded'.disk.hints = padded.disk.hints) :
    dir'.Padded padded' := by
  refine ⟨fun id => ?_, fun id => ?_⟩
  · rw [hdata, hdata']
    exact h.data id
  · rw [hhints, hhints']
    exact h.hints id

theorem lookup (h : dir.Padded padded) {id : FileId}
    (hid : id ∈ dir.disk.data) :
    padded.disk.data.lookup id = dir.disk.data.lookup id := by
  rcases h.data id with hsame | ⟨hnone, _⟩
  · exact hsame
  · exact absurd hid (AList.lookup_eq_none.mp hnone)

theorem mem (h : dir.Padded padded) {id : FileId}
    (hid : id ∈ dir.disk.data) : id ∈ padded.disk.data := by
  rw [← AList.lookup_isSome, h.lookup hid, AList.lookup_isSome]
  exact hid

theorem getD (h : dir.Padded padded) (id : FileId) :
    (padded.disk.data.lookup id).getD {} =
      (dir.disk.data.lookup id).getD {} := by
  rcases h.data id with hsame | ⟨hnone, hempty⟩
  · rw [hsame]
  · rw [hnone, hempty]
    rfl

theorem contents (h : dir.Padded padded) (id : FileId) :
    padded.disk.contents id = dir.disk.contents id :=
  congrArg File.bytes (h.getD id)

theorem synced (h : dir.Padded padded) (id : FileId) :
    padded.disk.synced id = dir.disk.synced id :=
  congrArg File.synced (h.getD id)

theorem readRecord (h : dir.Padded padded) {readers : List FileId}
    (hlinked : forall id, id ∈ readers -> id ∈ dir.disk.data)
    (loc : Location) :
    readRecord readers padded loc = readRecord readers dir loc := by
  unfold Minicask.readRecord
  split
  · next hread =>
      unfold Dir.readAt Disk.handle
      rw [h.lookup (hlinked _ hread)]
      cases hfile : dir.disk.data.lookup loc.fileId with
      | none =>
          exact absurd (hlinked _ hread) (AList.lookup_eq_none.mp hfile)
      | some file => rfl
  · rfl

/-!
# What is done to the files
-/

theorem modify (h : dir.Padded padded) {id : FileId}
    (hid : id ∈ dir.disk.data) (change : File -> File) :
    (dir.modify id change).Padded (padded.modify id change) := by
  refine ⟨fun other => ?_, fun other => ?_⟩
  · rw [lookup_modify, lookup_modify]
    by_cases heq : other = id
    · rw [if_pos heq, if_pos heq, h.lookup hid]
      exact Or.inl rfl
    · rw [if_neg heq, if_neg heq]
      exact h.data other
  · rw [hints_modify, hints_modify]
    exact h.hints other

theorem create (h : dir.Padded padded) (id : FileId) :
    (dir.create id).Padded (padded.create id) := by
  refine ⟨fun other => ?_, fun other => ?_⟩
  · rw [lookup_create, lookup_create]
    by_cases heq : other = id
    · rw [if_pos heq, if_pos heq, h.getD id]
      exact Or.inl rfl
    · rw [if_neg heq, if_neg heq]
      exact h.data other
  · rw [hints_create, hints_create]
    exact h.hints other

theorem writeHint (h : dir.Padded padded) (id : FileId) (bytes : Bytes) :
    (dir.writeHint id bytes).Padded (padded.writeHint id bytes) := by
  refine ⟨h.data, fun other => ?_⟩
  rw [hints_writeHint, hints_writeHint]
  by_cases heq : other = id
  · rw [heq, AList.lookup_insert, AList.lookup_insert]
  · rw [AList.lookup_insert_ne heq, AList.lookup_insert_ne heq]
    exact h.hints other

theorem removeFiles (h : dir.Padded padded) (ids : List FileId) :
    (removeFiles dir ids).Padded (removeFiles padded ids) := by
  rcases removeFiles_spec ids dir with ⟨_, hgone⟩
  rcases removeFiles_spec ids padded with ⟨_, hgone'⟩
  refine ⟨fun id => ?_, fun id => ?_⟩
  · rw [(hgone id).1, (hgone' id).1]
    by_cases hid : id ∈ ids
    · rw [if_pos hid, if_pos hid]
      exact Or.inl rfl
    · rw [if_neg hid, if_neg hid]
      exact h.data id
  · rw [(hgone id).2, (hgone' id).2, h.hints id]

theorem placed (h : dir.Padded padded) (slot : FileId) (bytes : Bytes)
    (offset : Nat) (hints : List HintEntry) :
    (Hint.write ((dir.writePart slot bytes).renamePart slot) slot offset
      hints).Padded
        (Hint.write ((padded.writePart slot bytes).renamePart slot) slot offset
          hints) := by
  refine ⟨fun id => ?_, fun id => ?_⟩
  · rw [Dir.lookup_placed, Dir.lookup_placed]
    by_cases heq : id = slot
    · rw [if_pos heq, if_pos heq]
      exact Or.inl rfl
    · rw [if_neg heq, if_neg heq]
      exact h.data id
  · rw [Dir.hints_placed, Dir.hints_placed]
    by_cases heq : id = slot
    · rw [heq, AList.lookup_insert, AList.lookup_insert]
    · rw [AList.lookup_insert_ne heq, AList.lookup_insert_ne heq]
      exact h.hints id

/-!
# What a writer does
-/

variable {w : LogWriter}

theorem writeAll (h : dir.Padded padded) (hw : w.Ok dir) (bytes : Bytes) :
    (dir.writeAll w.fileId bytes).Padded (padded.writeAll w.fileId bytes) :=
  h.modify hw.linked _

theorem syncData (h : dir.Padded padded) (hw : w.Ok dir) :
    (dir.syncData w.fileId).Padded (padded.syncData w.fileId) :=
  h.modify hw.linked _

theorem openFile (h : dir.Padded padded) (id : FileId) :
    (LogWriter.openFile padded id).1 = (LogWriter.openFile dir id).1 ∧
      (LogWriter.openFile dir id).2.Padded (LogWriter.openFile padded id).2 := by
  have hcreated := h.create id
  refine ⟨?_, hcreated⟩
  unfold LogWriter.openFile
  dsimp only
  rw [hcreated.contents id]

theorem flush (h : dir.Padded padded) (hw : w.Ok dir) :
    (w.flush padded).1 = (w.flush dir).1 ∧
      (w.flush dir).2.Padded (w.flush padded).2 := by
  unfold LogWriter.flush
  split
  · exact ⟨rfl, h⟩
  · exact ⟨rfl, h.writeAll hw _⟩

theorem sync (h : dir.Padded padded) (hw : w.Ok dir) :
    (w.sync padded).1 = (w.sync dir).1 ∧
      (w.sync dir).2.Padded (w.sync padded).2 := by
  rcases h.flush hw with ⟨hsame, hflushed⟩
  have hok := (LogWriter.appended_flush hw).1.ok
  unfold LogWriter.sync
  dsimp only
  rw [hsame]
  exact ⟨rfl, hflushed.modify hok.linked _⟩

theorem append (h : dir.Padded padded) (hw : w.Ok dir) (bytes : Bytes)
    (reach : Reach) :
    (w.append padded bytes reach).1 = (w.append dir bytes reach).1 ∧
      (w.append padded bytes reach).2.1 = (w.append dir bytes reach).2.1 ∧
      (w.append dir bytes reach).2.2.Padded
        (w.append padded bytes reach).2.2 := by
  unfold LogWriter.append
  dsimp only
  split
  · have hwritten := h.writeAll hw bytes
    have hlinked := (Dir.writeAll_sameBut dir w.fileId bytes).linked hw.linked
    split
    · exact ⟨rfl, rfl, hwritten.modify hlinked _⟩
    · exact ⟨rfl, rfl, hwritten⟩
  · have hbuffered : ({ w with
        pending := w.pending ++ bytes
        offset := w.offset + bytes.length } : LogWriter).Ok dir := by
      refine ⟨hw.linked, hw.written, ?_⟩
      show w.offset + bytes.length = w.written + (w.pending ++ bytes).length
      rw [List.length_append, hw.offset, Nat.add_assoc]
    cases reach with
    | buffer =>
        dsimp only
        split
        · exact ⟨rfl, rfl, h⟩
        · exact ⟨rfl, h.flush hbuffered⟩
    | kernel => exact ⟨rfl, h.flush hbuffered⟩
    | disk => exact ⟨rfl, h.sync hbuffered⟩

/-!
# What a merge does
-/

theorem mergeLoop {readers : List FileId} {entries : List (Bytes × Location)}
    {mg mg' : Merge} {dir : Dir} (h : mg.dir.Padded dir)
    (hok : mg.writer.Ok mg.dir)
    (hlinked : forall id, id ∈ readers -> id ∈ mg.dir.disk.data)
    (hloop : Minicask.mergeLoop readers entries mg = Except.ok mg') :
    exists dir', Minicask.mergeLoop readers entries { mg with dir := dir } =
        Except.ok { mg' with dir := dir' } ∧
      mg'.dir.Padded dir' ∧ mg'.writer.Ok mg'.dir := by
  induction entries generalizing mg dir with
  | nil =>
      cases hloop
      exact ⟨dir, rfl, h, hok⟩
  | cons entry entries ih =>
      rcases entry with ⟨key, loc⟩
      unfold Minicask.mergeLoop at hloop ⊢
      dsimp only at hloop ⊢
      rw [h.readRecord hlinked loc]
      cases hread : Minicask.readRecord readers mg.dir loc with
      | error e =>
          rw [hread] at hloop
          cases hloop
      | ok bytes =>
          rw [hread] at hloop
          dsimp only at hloop ⊢
          have happended :=
            (LogWriter.appended_append hok bytes Reach.buffer).2
          rcases h.append hok bytes Reach.buffer with ⟨hlanded, hw, hdir⟩
          rcases hbefore : mg.writer.append mg.dir bytes Reach.buffer with
            ⟨⟨offset, len⟩, w, dir₁⟩
          rcases hafter : mg.writer.append dir bytes Reach.buffer with
            ⟨⟨offset', len'⟩, w', dir₂⟩
          rw [hbefore] at hloop happended hlanded hw hdir
          rw [hafter] at hlanded hw hdir
          cases hlanded
          cases hw
          exact ih hdir happended.ok (fun id hid =>
            (happended.frame.mem_iff hok.linked id).mpr (hlinked id hid)) hloop

/-- A merge reads what its view shows, none of it in the files besides. -/
theorem run (h : dir.Padded padded) {job : CompactionJob}
    (hlinked : forall id, id ∈ job.view.readers -> id ∈ dir.disk.data)
    {merged : MergedFile} {done : Dir}
    (hrun : job.run dir = Except.ok (merged, done)) :
    exists done', job.run padded = Except.ok (merged, done') ∧
      done.Padded done' := by
  have hpart : (dir.writePart job.mergedId []).Padded
      (padded.writePart job.mergedId []) := h.congr rfl rfl rfl rfl
  have hcopy : copyRecord job.view.readers (padded.writePart job.mergedId [])
      job.mergedId = copyRecord job.view.readers
        (dir.writePart job.mergedId []) job.mergedId := by
    funext c entry
    unfold copyRecord
    dsimp only
    rw [hpart.readRecord hlinked]
  unfold CompactionJob.run at hrun ⊢
  dsimp only at hrun ⊢
  rw [hcopy]
  cases hloop : job.view.entries.foldlM (copyRecord job.view.readers
      (dir.writePart job.mergedId []) job.mergedId) {} with
  | error e =>
      rw [hloop] at hrun
      cases hrun
  | ok c =>
      rw [hloop] at hrun
      cases hrun
      exact ⟨_, rfl, hpart.placed job.mergedId c.file c.offset c.hints⟩

end Dir.Padded

/-- A store whose directory has such files, and one whose directory has not. -/
structure Store.Padded (s padded : Store) : Prop where
  same : padded = { s with dir := padded.dir }
  dir : s.dir.Padded padded.dir

namespace Store.Padded

variable {s padded : Store}

/-!
# Calls
-/

theorem get (h : s.Padded padded) (hok : s.Ok) (key : Bytes) :
    padded.get key = s.get key := by
  rw [h.same]
  unfold Store.get readValue
  dsimp only
  split
  · rfl
  · next loc _ => rw [h.dir.readRecord hok.linked loc]

theorem keys (h : s.Padded padded) : padded.keys = s.keys := by
  rw [h.same]
  rfl

theorem sync (h : s.Padded padded) (hok : s.Ok) :
    s.sync.Padded padded.sync := by
  rw [h.same]
  rcases h.dir.sync hok.writer with ⟨hwriter, hdir⟩
  refine ⟨?_, hdir⟩
  unfold Store.sync
  dsimp only
  rw [hwriter]

theorem flushed (h : s.Padded padded) (hok : s.Ok) :
    s.flushed.Padded padded.flushed := by
  rw [h.same]
  rcases h.dir.flush hok.writer with ⟨hwriter, hdir⟩
  refine ⟨?_, hdir⟩
  unfold Store.flushed
  dsimp only
  rw [hwriter]

theorem sealInto (h : s.Padded padded) (hok : s.Ok) (nextId : FileId) :
    (s.sealInto nextId).Padded (padded.sealInto nextId) := by
  rw [h.same]
  rcases h.dir.sync hok.writer with ⟨hwriter, hdir⟩
  have hhinted := hdir.writeHint (s.writer.sync s.dir).1.fileId
    (Hint.encode (s.writer.sync s.dir).1.offset s.activeHints)
  rcases hhinted.openFile nextId with ⟨hopened, hdir'⟩
  unfold Store.sealInto Hint.write
  dsimp only
  rw [hwriter]
  refine ⟨?_, hdir'⟩
  dsimp only
  rw [hopened]

theorem rollIfNeeded (h : s.Padded padded) (hok : s.Ok) (incoming : Nat) :
    (s.rollIfNeeded incoming).Padded (padded.rollIfNeeded incoming) := by
  have hsealed := h.sealInto hok (s.writer.fileId + 1)
  have hwriter : padded.writer = s.writer := by rw [h.same]
  have hopts : padded.opts = s.opts := by rw [h.same]
  unfold Store.rollIfNeeded
  rw [hwriter, hopts]
  split
  · exact h
  · exact hsealed

theorem append (h : s.Padded padded) (hok : s.Ok) (bytes : Bytes)
    (reach : Reach) :
    exists landed w dir dir',
      s.writer.append s.dir bytes reach = (landed, w, dir) ∧
      padded.writer.append padded.dir bytes reach = (landed, w, dir') ∧
      dir.Padded dir' := by
  have hwriter : padded.writer = s.writer := by rw [h.same]
  rcases h.dir.append hok.writer bytes reach with ⟨hlanded, hw, hdir⟩
  refine ⟨_, _, _, _, rfl, ?_, hdir⟩
  rw [hwriter]
  exact Prod.ext hlanded (Prod.ext hw rfl)

theorem putWith (h : s.Padded padded) (hok : s.Ok) (key value : Bytes)
    (reach : Reach) (now later : UInt64) :
    (exists e, s.putWith key value reach now later = Except.error e ∧
      padded.putWith key value reach now later = Except.error e) ∨
    exists s' padded', s.putWith key value reach now later = Except.ok s' ∧
      padded.putWith key value reach now later = Except.ok padded' ∧
      s'.Padded padded' := by
  have hrestoring : padded.restoring = s.restoring := by rw [h.same]
  unfold Store.putWith
  rw [hrestoring]
  split
  · exact Or.inl ⟨_, rfl, rfl⟩
  · cases hencode : encode key (some value) now with
    | error e => exact Or.inl ⟨e, rfl, rfl⟩
    | ok bytes =>
        have hrolled := h.rollIfNeeded hok bytes.length
        have hokRolled := (Store.rolled hok bytes.length).1
        rcases hrolled.append hokRolled bytes reach with
          ⟨landed, w, dir, dir', happend, happend', hdir⟩
        right
        dsimp only
        rw [happend, happend']
        refine ⟨_, _, rfl, rfl, ?_, hdir⟩
        rw [hrolled.same]
        rfl

theorem deleteWith (h : s.Padded padded) (hok : s.Ok) (key : Bytes)
    (reach : Reach) (now later : UInt64) :
    (exists e, s.deleteWith key reach now later = Except.error e ∧
      padded.deleteWith key reach now later = Except.error e) ∨
    exists s' padded' was,
      s.deleteWith key reach now later = Except.ok (s', was) ∧
      padded.deleteWith key reach now later = Except.ok (padded', was) ∧
      s'.Padded padded' := by
  have hrestoring : padded.restoring = s.restoring := by rw [h.same]
  have hkeydir : padded.containsKey key = s.containsKey key := by rw [h.same]; rfl
  unfold Store.deleteWith
  rw [hrestoring, hkeydir]
  split
  · exact Or.inl ⟨_, rfl, rfl⟩
  · split
    · exact Or.inr ⟨s, padded, _, rfl, rfl, h⟩
    · cases hencode : encode key none now with
      | error e => exact Or.inl ⟨e, rfl, rfl⟩
      | ok bytes =>
          have hrolled := h.rollIfNeeded hok bytes.length
          have hokRolled := (Store.rolled hok bytes.length).1
          rcases hrolled.append hokRolled bytes reach with
            ⟨landed, w, dir, dir', happend, happend', hdir⟩
          right
          dsimp only
          rw [happend, happend']
          refine ⟨_, _, _, rfl, rfl, ?_, hdir⟩
          rw [hrolled.same]
          rfl

theorem call (h : s.Padded padded) (hok : s.Ok) {c : Call} (hplain : c.Plain) :
    (s.call c).1.Padded (padded.call c).1 ∧
      (padded.call c).2 = (s.call c).2 := by
  have hreach : padded.reach = s.reach := by
    rw [h.same]
    rfl
  cases c with
  | put key value now later =>
      simp only [Store.call, Store.put, hreach]
      rcases h.putWith hok key value s.reach now later with
        ⟨e, herror, herror'⟩ | ⟨s', padded', hput, hput', hpadded⟩
      · rw [herror, herror']
        exact ⟨h, rfl⟩
      · rw [hput, hput']
        exact ⟨hpadded, rfl⟩
  | putDeferred key value now later =>
      simp only [Store.call, Store.putDeferred]
      rcases h.putWith hok key value Reach.buffer now later with
        ⟨e, herror, herror'⟩ | ⟨s', padded', hput, hput', hpadded⟩
      · rw [herror, herror']
        exact ⟨h, rfl⟩
      · rw [hput, hput']
        exact ⟨hpadded, rfl⟩
  | delete key now later =>
      simp only [Store.call, Store.delete, hreach]
      rcases h.deleteWith hok key s.reach now later with
        ⟨e, herror, herror'⟩ | ⟨s', padded', was, hdelete, hdelete', hpadded⟩
      · rw [herror, herror']
        exact ⟨h, rfl⟩
      · rw [hdelete, hdelete']
        exact ⟨hpadded, rfl⟩
  | deleteDeferred key now later =>
      simp only [Store.call, Store.deleteDeferred]
      rcases h.deleteWith hok key Reach.buffer now later with
        ⟨e, herror, herror'⟩ | ⟨s', padded', was, hdelete, hdelete', hpadded⟩
      · rw [herror, herror']
        exact ⟨h, rfl⟩
      · rw [hdelete, hdelete']
        exact ⟨hpadded, rfl⟩
  | sync => exact ⟨h.sync hok, rfl⟩
  | compact => exact absurd hplain id
  | reopen opts => exact absurd hplain id

/-!
# Compactions
-/

theorem compact (h : s.Padded padded) (hok : s.Ok) {s' : Store}
    (hcompact : s.compact = Except.ok s') :
    exists padded', padded.compact = Except.ok padded' ∧ s'.Padded padded' := by
  have hflushed := (advanced_flushed hok).ok hok
  have hdir := (h.flushed hok).dir
  rcases hdir.openFile (maxId s.readers + 1) with ⟨hopened, hcreated⟩
  have hpadded := h.same
  rw [hpadded] at hdir hopened hcreated ⊢
  unfold Store.compact at hcompact ⊢
  dsimp only at hcompact ⊢
  split at hcompact
  · cases hcompact
  · next hfree =>
      rw [if_neg hfree]
      unfold Store.flushed at hopened hcreated
      dsimp only at hopened hcreated
      rw [hopened]
      cases hloop : Minicask.mergeLoop s.readers (inFileOrder s.keydir)
          { writer := (LogWriter.openFile (s.writer.flush s.dir).2
              (maxId s.readers + 1)).1
            dir := (LogWriter.openFile (s.writer.flush s.dir).2
              (maxId s.readers + 1)).2
            keydir := ∅
            hints := []
            bytes := 0 } with
      | error e =>
          rw [hloop] at hcompact
          cases hcompact
      | ok mg =>
          rw [hloop] at hcompact
          cases hcompact
          have hcreatedOk : forall id, id ∈ s.readers ->
              id ∈ (LogWriter.openFile (s.writer.flush s.dir).2
                (maxId s.readers + 1)).2.disk.data := by
            intro id hid
            show id ∈ (s.flushed.dir.create _).disk.data
            rw [← AList.lookup_isSome, Dir.lookup_create]
            split
            · rfl
            · rw [AList.lookup_isSome]
              exact hflushed.linked id hid
          rcases hcreated.mergeLoop LogWriter.ok_openFile hcreatedOk hloop with
            ⟨dir', hloop', hmerged, hmergedOk⟩
          rcases hmerged.sync hmergedOk with ⟨hsynced, hdir'⟩
          rw [hloop']
          refine ⟨_, rfl, ?_, ?_⟩
          · dsimp only
            rw [hsynced]
          · dsimp only
            rw [hsynced]
            exact (hdir'.writeHint _ _).removeFiles _

theorem beginCompaction (h : s.Padded padded) (hok : s.Ok)
    {job : CompactionJob} {s' : Store}
    (hbegin : s.beginCompaction = Except.ok (job, s')) :
    exists padded', padded.beginCompaction = Except.ok (job, padded') ∧
      s'.Padded padded' := by
  have hnext : s.writer.fileId < s.writer.fileId + 2 :=
    Nat.lt_trans (Nat.lt_succ_self _) (Nat.lt_succ_self _)
  have hsealed := h.sealInto hok (s.writer.fileId + 2)
  have hflushed := hsealed.flushed (Store.ok_sealInto hok hnext)
  have hwriter : padded.writer = s.writer := by rw [h.same]
  have hreaders : padded.readers = s.readers := by rw [h.same]
  have hflags : (padded.compacting || padded.restoring) =
      (s.compacting || s.restoring) := by
    rw [h.same]
  unfold Store.beginCompaction at hbegin ⊢
  rw [hflags]
  split at hbegin
  · cases hbegin
  · next hfree =>
      cases hbegin
      rw [if_neg hfree]
      have hview : (padded.sealInto (s.writer.fileId + 2)).view.1 =
          (s.sealInto (s.writer.fileId + 2)).view.1 := by
        rw [hsealed.same]
        rfl
      have hbytes : (padded.sealInto (s.writer.fileId + 2)).diskBytes =
          (s.sealInto (s.writer.fileId + 2)).diskBytes := by
        rw [hsealed.same]
      unfold Store.sealLeavingASlot
      dsimp only
      rw [hwriter, hreaders, hview, hbytes]
      refine ⟨{ (padded.sealInto (s.writer.fileId + 2)).flushed with
        compacting := true }, rfl, ?_, hflushed.dir⟩
      rw [hflushed.same]

theorem finishCompaction (h : s.Padded padded) (merged : MergedFile) :
    (s.finishCompaction merged).Padded (padded.finishCompaction merged) := by
  refine ⟨?_, h.dir.removeFiles merged.oldIds⟩
  rw [h.same]
  rfl

theorem abandonCompaction (h : s.Padded padded) :
    s.abandonCompaction.Padded padded.abandonCompaction := by
  refine ⟨?_, h.dir⟩
  rw [h.same]
  rfl

/-!
# Closing and opening
-/

theorem close (h : s.Padded padded) (hok : s.Ok) :
    s.close.Padded padded.close := by
  rw [h.same]
  exact (h.dir.flush hok.writer).2

end Store.Padded

theorem Dir.Padded.whole {dir padded : Dir} (h : dir.Padded padded)
    {chart : Chart} (hwhole : dir.disk.Whole chart) :
    padded.disk.Whole chart where
  absent id hnot := hwhole.absent id (fun hin => hnot (h.mem hin))
  files id _ := by
    rw [h.contents id]
    by_cases hin : id ∈ dir.disk.data
    · exact hwhole.files id hin
    · rw [hwhole.absent id hin, Disk.contents, AList.lookup_eq_none.mpr hin]
      rfl
  hints id bytes hlookup := by
    rw [h.hints id] at hlookup
    exact hwhole.hints id bytes hlookup

theorem Charted.allRead_flushed {s : Store} {chart : Chart} (hok : s.Ok)
    (h : Charted s.allRead chart) : Charted s.flushed.allRead chart := by
  have hadvanced : s.allRead.Advanced (Rec.join []) s.allRead.flushed :=
    Store.advanced_flushed hok.allRead
  have hcharted := h.advanced hok.allRead hadvanced (List.append_nil _).symm
    (Hint.Describes.nil _)
  rw [Chart.extend_nil] at hcharted
  exact hcharted.congr rfl rfl rfl rfl (fun _ hid => AList.mem_keys.mp hid)

/-- What a store with empty files besides leaves opens to the same map. -/
theorem Backs.reopen_padded {s padded : Store} {work : Compacting}
    {m : Contents} {chart : Chart} (h : Backs s work m chart)
    (hpadded : s.Padded padded) (opts : Options) :
    exists s' chart',
      Store.openWith { disk := padded.close.disk } opts = Except.ok s' ∧
      Backs s' Compacting.idle m chart' := by
  have hclosed := hpadded.close h.ok
  have hcharted := h.charted.allRead_flushed h.ok
  have hpending : s.flushed.writer.pending = [] :=
    (LogWriter.appended_flush h.ok.writer).2
  have hwhole : s.close.disk.Whole chart := hcharted.whole hpending
  have hsound : s.close.disk.SoundAs chart := hcharted.soundAs
  have hsound' : padded.close.disk.SoundAs chart :=
    hsound.congr hclosed.contents hclosed.synced
      (fun id bytes hlookup => (hclosed.hints id).symm.trans hlookup)
  have htop : forall id, id ∈ padded.close.disk.data ->
      id <= max s.writer.fileId (maxId padded.close.disk.data.keys) := by
    intro id hid
    exact Nat.le_trans
      ((le_foldl_max _ 0).2 id (AList.mem_keys.mp hid)) (Nat.le_max_right _ _)
  have hempty : forall id, s.writer.fileId < id -> chart id = [] :=
    fun id hgt => h.charted.empty_of_gt h.ok.allRead hgt
  have hm : recorded chart
      (max s.writer.fileId (maxId padded.close.disk.data.keys)) = m := by
    rw [recorded, logged_of_empty (Nat.le_max_left _ _) hempty]
    exact h.whole
  rcases (hclosed.whole hwhole).opens htop opts with ⟨s', hopen, hget, _⟩
  rcases (openWith_sound hsound'.dir opts).2 s' hopen with ⟨kept, hopened⟩
  rw [hm] at hget
  exact ⟨s', kept, hopen, hopened.backs hget⟩

end Minicask
