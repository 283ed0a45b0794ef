import Minicask.Store.FailedWrites
import Minicask.Store.Padding

/-!
# Compactions that fail

A merge may fail at any point: its file cannot be opened, a record cannot be read,
a write or the sync at the end fails.  Its writer is closed then, and hands over
what it still can.  A merge on the side leaves its part file, or a file in its slot
when only the sync of the directory failed.  Nothing takes such a file away, so
what was copied into it is found when the store is next opened.
-/

namespace Minicask

open Replay

def ioFailed : Error :=
  Error.io "input/output error"

/-- A turn of the merge in which something fails: the read of its record, or the
write of what is buffered, which lets some bytes in. -/
inductive LoopFault where
  | reading (turns : Nat)
  | appending (turns bytes : Nat)
deriving Repr, DecidableEq

/-- Where a merge fails: while the store's own buffer is flushed, when its file is
opened, in its loop, in the last flush, or in the sync after it.  When its writer is
closed, that write may fail as well, with some bytes let in. -/
inductive MergeFault where
  | flushing (bytes : Nat)
  | opening (created : Bool)
  | copying (fault : LoopFault) (dropped : Option Nat)
  | flushingCopies (bytes : Nat) (dropped : Option Nat)
  | syncing
deriving Repr, DecidableEq

/-- Where a merge on the side fails: before its part file is renamed, whatever is
left of that then, or in the sync of the directory after that. -/
inductive JobFault where
  | unfinished (left : Option Bytes)
  | renamed
deriving Repr, DecidableEq

namespace LoopFault

def next : LoopFault -> Option LoopFault
  | reading (turns + 1) => some (reading turns)
  | appending (turns + 1) bytes => some (appending turns bytes)
  | _ => none

def inRead : Option LoopFault -> Bool
  | some (reading 0) => true
  | _ => false

def inAppend : Option LoopFault -> Option Nat
  | some (appending 0 bytes) => some bytes
  | _ => none

end LoopFault

namespace MergeFault

def inFlush : Option MergeFault -> Option Nat
  | some (flushing bytes) => some bytes
  | _ => none

def inOpen : Option MergeFault -> Option Bool
  | some (opening created) => some created
  | _ => none

def inLoop : Option MergeFault -> Option LoopFault
  | some (copying fault _) => some fault
  | _ => none

def inLastFlush : Option MergeFault -> Option Nat
  | some (flushingCopies bytes _) => some bytes
  | _ => none

def inDrop : Option MergeFault -> Option Nat
  | some (copying _ dropped) => dropped
  | some (flushingCopies _ dropped) => dropped
  | _ => none

end MergeFault

/-!
# The code with a merge that fails
-/

/-- A writer that is dropped flushes, and whether that fails is not looked at. -/
def LogWriter.drop (w : LogWriter) (dir : Dir) (fault : Option Nat) : Dir :=
  match w.tryFlush dir fault with
  | Except.error (_, dir) => dir
  | Except.ok (_, dir) => dir

/-- `mergeLoop`, with an error that holds the writer and the files it leaves. -/
def tryMergeLoop (readers : List FileId) :
    Option LoopFault -> List (Bytes × Location) -> Merge ->
      Except (Error × LogWriter × Dir) Merge
  | _, [], m => Except.ok m
  | fault, (key, loc) :: rest, m =>
      if LoopFault.inRead fault then Except.error (ioFailed, m.writer, m.dir)
      else
        match readRecord readers m.dir loc with
        | Except.error e => Except.error (e, m.writer, m.dir)
        | Except.ok bytes =>
            match m.writer.tryAppend m.dir bytes Reach.buffer
                (LoopFault.inAppend fault) with
            | Except.error (writer, dir) =>
                Except.error (writeFailed, writer, dir)
            | Except.ok ((offset, len), writer, dir) =>
                tryMergeLoop readers (fault.bind LoopFault.next) rest
                  { writer := writer
                    dir := dir
                    keydir := m.keydir.insert key
                      { fileId := writer.fileId
                        offset := offset
                        len := len
                        tstamp := loc.tstamp }
                    hints := m.hints ++
                      [{ key := key
                         offset := offset
                         len := len
                         tstamp := loc.tstamp
                         tombstone := false }]
                    bytes := m.bytes + len.toNat }

namespace Store

def tryMerge (s : Store) (fault : Option MergeFault) :
    Store × Except Error Unit :=
  let mergedId := maxId s.readers + 1
  match MergeFault.inOpen fault with
  | some created =>
      ({ s with dir := if created then s.dir.create mergedId else s.dir },
        Except.error ioFailed)
  | none =>
      let (writer, dir) := LogWriter.openFile s.dir mergedId
      match tryMergeLoop s.readers (MergeFault.inLoop fault)
          (inFileOrder s.keydir)
          { writer := writer
            dir := dir
            keydir := ∅
            hints := []
            bytes := 0 } with
      | Except.error (e, writer, dir) =>
          ({ s with dir := writer.drop dir (MergeFault.inDrop fault) },
            Except.error e)
      | Except.ok m =>
          match m.writer.tryFlush m.dir (MergeFault.inLastFlush fault) with
          | Except.error (writer, dir) =>
              ({ s with dir := writer.drop dir (MergeFault.inDrop fault) },
                Except.error writeFailed)
          | Except.ok (writer, dir) =>
              if fault = some MergeFault.syncing then
                ({ s with dir := dir }, Except.error ioFailed)
              else
                let writer := { writer with synced := writer.offset }
                let dir := dir.syncData writer.fileId
                let dir := Hint.write dir mergedId writer.offset m.hints
                let dir := removeFiles dir s.readers
                ({ s with
                    dir := dir
                    readers := [mergedId]
                    keydir := m.keydir
                    activeHints := m.hints
                    writer := writer
                    liveBytes := m.bytes
                    diskBytes := m.bytes }, Except.ok ())

def tryCompact (s : Store) (fault : Option MergeFault) :
    Store × Except Error Unit :=
  if s.compacting || s.restoring then (s, Except.error compactionInProgress)
  else
    match s.writer.tryFlush s.dir (MergeFault.inFlush fault) with
    | Except.error (writer, dir) =>
        ({ s with writer := writer, dir := dir }, Except.error writeFailed)
    | Except.ok (writer, dir) =>
        { s with writer := writer, dir := dir }.tryMerge fault

end Store

def CompactionJob.tryRun (job : CompactionJob) (dir : Dir)
    (fault : Option JobFault) : Except Dir (MergedFile × Dir) :=
  match fault with
  | some (JobFault.unfinished left) =>
      Except.error
        (match left with
        | some bytes => dir.writePart job.mergedId bytes
        | none => dir)
  | fault =>
      let dir := dir.writePart job.mergedId []
      match job.view.entries.foldlM (copyRecord job.view.readers dir job.mergedId)
          {} with
      | Except.error _ => Except.error dir
      | Except.ok c =>
          let dir := dir.writePart job.mergedId c.file
          let dir := dir.renamePart job.mergedId
          if fault = some JobFault.renamed then Except.error dir
          else
            Except.ok
              ({ id := job.mergedId
                 bytes := c.offset
                 oldIds := job.oldIds
                 oldBytes := job.oldBytes
                 moved := c.moved },
                Hint.write dir job.mergedId c.offset c.hints)

/-!
# Merges that succeed
-/

theorem tryMergeLoop_ok {readers : List FileId} {fault : Option LoopFault}
    {entries : List (Bytes × Location)} {mg mg' : Merge}
    (h : tryMergeLoop readers fault entries mg = Except.ok mg') :
    mergeLoop readers entries mg = Except.ok mg' := by
  induction entries generalizing fault mg with
  | nil =>
      cases h
      rfl
  | cons entry entries ih =>
      rcases entry with ⟨key, loc⟩
      unfold tryMergeLoop at h
      unfold mergeLoop
      dsimp only at h ⊢
      split at h
      · cases h
      · cases hread : readRecord readers mg.dir loc with
        | error e =>
            rw [hread] at h
            cases h
        | ok bytes =>
            rw [hread] at h
            dsimp only at h ⊢
            cases happend : mg.writer.tryAppend mg.dir bytes Reach.buffer
                (LoopFault.inAppend fault) with
            | error left =>
                rw [happend] at h
                cases h
            | ok result =>
                rw [happend] at h
                rw [← LogWriter.tryAppend_ok happend]
                exact ih h

namespace Store

/-- A merge that succeeds did what it always does, whatever else might have
failed. -/
theorem tryCompact_ok {s : Store} {fault : Option MergeFault}
    (h : (s.tryCompact fault).2 = Except.ok ()) :
    s.compact = Except.ok (s.tryCompact fault).1 := by
  unfold tryCompact at h ⊢
  unfold compact
  split at h
  · cases h
  · next hfree =>
      rw [if_neg hfree, if_neg hfree]
      cases hflush : s.writer.tryFlush s.dir (MergeFault.inFlush fault) with
      | error left =>
          rw [hflush] at h
          cases h
      | ok flushed =>
          rcases flushed with ⟨writer, dir⟩
          rw [hflush] at h
          rw [← LogWriter.tryFlush_ok hflush]
          unfold tryMerge at h ⊢
          dsimp only at h ⊢
          cases hopen : MergeFault.inOpen fault with
          | some created =>
              rw [hopen] at h
              cases h
          | none =>
              rw [hopen] at h
              dsimp only at h ⊢
              generalize hloop : tryMergeLoop s.readers
                (MergeFault.inLoop fault) (inFileOrder s.keydir) _ = loop at h ⊢
              cases loop with
              | error left => cases h
              | ok mg =>
                  rw [tryMergeLoop_ok hloop]
                  dsimp only at h ⊢
                  cases hlast : mg.writer.tryFlush mg.dir
                      (MergeFault.inLastFlush fault) with
                  | error left =>
                      rw [hlast] at h
                      cases h
                  | ok taken =>
                      rw [hlast] at h
                      dsimp only at h ⊢
                      split at h
                      · cases h
                      · next hsync =>
                          rw [if_neg hsync]
                          unfold LogWriter.sync
                          rw [← LogWriter.tryFlush_ok hlast]

end Store

theorem CompactionJob.tryRun_ok {job : CompactionJob} {dir : Dir}
    {fault : Option JobFault} {done : MergedFile × Dir}
    (h : job.tryRun dir fault = Except.ok done) :
    job.run dir = Except.ok done := by
  unfold tryRun at h
  unfold run
  split at h
  · cases h
  · dsimp only at h ⊢
    cases hloop : job.view.entries.foldlM (copyRecord job.view.readers
        (dir.writePart job.mergedId []) job.mergedId) {} with
    | error e =>
        rw [hloop] at h
        cases h
    | ok c =>
        rw [hloop] at h
        dsimp only at h
        split at h
        · cases h
        · cases h
          rfl

/-!
# Merges that leave nothing

A merge that fails leaves its file empty if nothing was copied, or if the copies
were all still buffered and no write let any of them in.
-/

def copyBytes (entries : List (Bytes × Location)) : Nat :=
  (entries.map (fun entry => entry.2.len.toNat)).sum

/-- No byte of a copy is let in before the loop fails, when it fails, or when the
writer is dropped. -/
def LoopFault.Silent (entries : List (Bytes × Location))
    (dropped : Option Nat) : LoopFault -> Prop
  | reading turns =>
      copyBytes (entries.take turns) = 0 ∨
        copyBytes (entries.take turns) < maxPending ∧ dropped = some 0
  | appending turns bytes =>
      copyBytes (entries.take turns) < maxPending ∧ bytes = 0 ∧
        dropped = some 0

/-- Nothing is let into the merged file; and if it is the store's own buffer that is
not taken, none of that is. -/
def MergeFault.Silent (s : Store) : MergeFault -> Prop
  | flushing bytes => bytes = 0
  | opening _ => True
  | copying fault dropped => fault.Silent (inFileOrder s.keydir) dropped
  | flushingCopies bytes dropped =>
      copyBytes (inFileOrder s.keydir) < maxPending ∧ bytes = 0 ∧
        dropped = some 0
  | syncing => copyBytes (inFileOrder s.keydir) = 0

/-- The merge was not renamed into its slot, or has nothing in it. -/
def JobFault.Silent (job : CompactionJob) : JobFault -> Prop
  | unfinished _ => True
  | renamed => job.view.entries = []

theorem tryMergeLoop_none {readers : List FileId}
    {entries : List (Bytes × Location)} {mg mg' : Merge}
    (h : mergeLoop readers entries mg = Except.ok mg') :
    tryMergeLoop readers none entries mg = Except.ok mg' := by
  induction entries generalizing mg with
  | nil =>
      cases h
      rfl
  | cons entry entries ih =>
      rcases entry with ⟨key, loc⟩
      unfold mergeLoop at h
      unfold tryMergeLoop
      dsimp only at h ⊢
      rw [if_neg (show ¬ LoopFault.inRead none = true by decide)]
      cases hread : readRecord readers mg.dir loc with
      | error e =>
          rw [hread] at h
          cases h
      | ok bytes =>
          rw [hread] at h
          rcases LogWriter.tryAppend_none mg.writer mg.dir bytes Reach.buffer with
            ⟨result, happend⟩
          dsimp only at h ⊢
          rw [← LogWriter.tryAppend_ok happend] at h
          rw [show LoopFault.inAppend none = none from rfl, happend]
          exact ih h

theorem LogWriter.tryFlush_zero {w : LogWriter} {dir : Dir}
    (h : w.pending ≠ []) :
    w.tryFlush dir (some 0) =
      Except.error (w, dir.writeAll w.fileId []) := by
  unfold tryFlush
  rw [if_neg (fun hempty => h (List.isEmpty_iff.mp hempty)), Dir.tryWriteAll,
    if_pos (List.length_pos_iff.mpr h)]
  rfl

namespace Dir.Padded

variable {base dir : Dir}

theorem writeAll_nil (h : base.Padded dir) (id : FileId) :
    base.Padded (dir.writeAll id []) := by
  have hsame : forall other, (dir.writeAll id []).disk.data.lookup other =
      dir.disk.data.lookup other := by
    intro other
    rw [Dir.writeAll, lookup_modify]
    split
    · next heq =>
        rw [heq]
        cases dir.disk.data.lookup id with
        | none => rfl
        | some file =>
            exact congrArg some
              (File.eq_of_bytes (List.append_nil _) rfl)
    · rfl
  refine ⟨fun other => ?_, fun other => ?_⟩
  · rw [hsame other]
    exact h.data other
  · rw [Dir.writeAll, hints_modify]
    exact h.hints other

theorem create_beside (h : base.Padded dir) {id : FileId}
    (hnot : id ∉ base.disk.data) : base.Padded (dir.create id) := by
  have hnone := AList.lookup_eq_none.mpr hnot
  refine ⟨fun other => ?_, fun other => ?_⟩
  · rw [lookup_create]
    by_cases heq : other = id
    · rw [if_pos heq, heq, h.getD id, hnone]
      exact Or.inr ⟨rfl, rfl⟩
    · rw [if_neg heq]
      exact h.data other
  · rw [hints_create]
    exact h.hints other

theorem renamed (h : base.Padded dir) {slot : FileId}
    (hnot : slot ∉ base.disk.data) :
    base.Padded ((dir.writePart slot []).renamePart slot) := by
  have hlookup : forall id,
      ((dir.writePart slot []).renamePart slot).disk.data.lookup id =
        if id = slot then some (File.syncData (File.writeAll {} []))
        else dir.disk.data.lookup id :=
    dir.lookup_placed slot [] 0 []
  have hhints : ((dir.writePart slot []).renamePart slot).disk.hints =
      dir.disk.hints := by
    unfold Dir.renamePart
    split <;> rfl
  refine ⟨fun id => ?_, fun id => ?_⟩
  · rw [hlookup id]
    by_cases heq : id = slot
    · rw [if_pos heq, heq]
      exact Or.inr ⟨AList.lookup_eq_none.mpr hnot, rfl⟩
    · rw [if_neg heq]
      exact h.data id
  · rw [hhints]
    exact h.hints id

theorem drop (h : base.Padded dir) {w : LogWriter} {dropped : Option Nat}
    (hnothing : w.pending = [] ∨ dropped = some 0) :
    base.Padded (w.drop dir dropped) := by
  unfold LogWriter.drop
  by_cases hnil : w.pending = []
  · have hflush : w.tryFlush dir dropped = Except.ok (w, dir) :=
      if_pos (List.isEmpty_iff.mpr hnil)
    rw [hflush]
    exact h
  · rw [hnothing.resolve_left hnil, LogWriter.tryFlush_zero hnil]
    exact h.writeAll_nil w.fileId

end Dir.Padded

theorem mergeLoop_turn {readers : List FileId} {key : Bytes} {loc : Location}
    {rest : List (Bytes × Location)} {mg mg' : Merge}
    (hloop : mergeLoop readers ((key, loc) :: rest) mg = Except.ok mg')
    (hroom : mg.writer.pending.length + loc.len.toNat < maxPending) :
    exists next, mergeLoop readers rest next = Except.ok mg' ∧
      next.dir = mg.dir ∧
      next.writer.pending.length =
        mg.writer.pending.length + loc.len.toNat ∧
      forall fault, LoopFault.inRead (some fault) = false ->
        LoopFault.inAppend (some fault) = none ->
        tryMergeLoop readers (some fault) ((key, loc) :: rest) mg =
          tryMergeLoop readers fault.next rest next := by
  rw [mergeLoop] at hloop
  cases hrecord : readRecord readers mg.dir loc with
  | error e =>
      rw [hrecord] at hloop
      cases hloop
  | ok bytes =>
      have hlength := length_readRecord hrecord
      have hsmall : (mg.writer.pending ++ bytes).length < maxPending := by
        rw [List.length_append, hlength]
        exact hroom
      have hbuffered : mg.writer.append mg.dir bytes Reach.buffer =
          ((mg.writer.offset, UInt32.ofNat bytes.length),
            { mg.writer with
              pending := mg.writer.pending ++ bytes
              offset := mg.writer.offset + bytes.length }, mg.dir) := by
        unfold LogWriter.append
        rw [if_neg (fun h => h.1 rfl)]
        dsimp only
        rw [if_pos hsmall]
      rcases LogWriter.tryAppend_none mg.writer mg.dir bytes Reach.buffer with
        ⟨result, htried⟩
      have hresult := LogWriter.tryAppend_ok htried
      rw [hbuffered] at hresult
      subst hresult
      rw [hrecord] at hloop
      dsimp only at hloop
      rw [hbuffered] at hloop
      refine ⟨_, hloop, rfl, ?_, ?_⟩
      · rw [← hlength]
        exact List.length_append
      · intro fault hread happend
        rw [tryMergeLoop, hread, if_neg (by decide), hrecord, happend]
        dsimp only
        rw [htried]
        rfl

theorem copyBytes_cons (entry : Bytes × Location)
    (entries : List (Bytes × Location)) :
    copyBytes (entry :: entries) = entry.2.len.toNat + copyBytes entries := by
  rw [copyBytes, List.map_cons, List.sum_cons]
  rfl

theorem mergeLoop_buffered {readers : List FileId}
    {entries : List (Bytes × Location)} {mg mg' : Merge}
    (hloop : mergeLoop readers entries mg = Except.ok mg')
    (hroom : mg.writer.pending.length + copyBytes entries < maxPending) :
    mg'.dir = mg.dir ∧ mg'.writer.pending.length =
      mg.writer.pending.length + copyBytes entries := by
  induction entries generalizing mg with
  | nil =>
      cases hloop
      exact ⟨rfl, rfl⟩
  | cons entry entries ih =>
      rcases entry with ⟨key, loc⟩
      rw [copyBytes_cons] at hroom ⊢
      dsimp only at hroom ⊢
      rcases mergeLoop_turn hloop (by omega) with
        ⟨next, hnext, hdir, hlength, _⟩
      rcases ih hnext (by omega) with ⟨hdir', hlength'⟩
      exact ⟨hdir'.trans hdir, by omega⟩

theorem tryMergeLoop_reading {readers : List FileId}
    {entries : List (Bytes × Location)} {turns : Nat} {mg mg' : Merge}
    (hloop : mergeLoop readers entries mg = Except.ok mg')
    (hroom : mg.writer.pending.length + copyBytes (entries.take turns) <
      maxPending) {e : Error} {w : LogWriter} {dir : Dir}
    (h : tryMergeLoop readers (some (LoopFault.reading turns)) entries mg =
      Except.error (e, w, dir)) :
    dir = mg.dir ∧ w.pending.length =
      mg.writer.pending.length + copyBytes (entries.take turns) := by
  induction entries generalizing turns mg with
  | nil => cases h
  | cons entry entries ih =>
      rcases entry with ⟨key, loc⟩
      cases turns with
      | zero =>
          rw [tryMergeLoop, if_pos (by decide)] at h
          cases h
          exact ⟨rfl, rfl⟩
      | succ turns =>
          rw [List.take_succ_cons, copyBytes_cons] at hroom ⊢
          dsimp only at hroom ⊢
          rcases mergeLoop_turn hloop (by omega) with
            ⟨next, hnext, hdir, hlength, hsame⟩
          rw [hsame _ rfl rfl] at h
          rcases ih hnext (by omega) h with ⟨hdir', hlength'⟩
          exact ⟨hdir'.trans hdir, by omega⟩

theorem padded_tryAppend {base dir dir' : Dir}
    (h : base.Padded dir) {w w' : LogWriter} {bytes : Bytes}
    (herror : w.tryAppend dir bytes Reach.buffer (some 0) =
      Except.error (w', dir')) : base.Padded dir' := by
  unfold LogWriter.tryAppend at herror
  rw [if_neg (fun hdirect => hdirect.1 rfl)] at herror
  dsimp only at herror
  split at herror
  · cases herror
  · next hfull =>
      have hpending : w.pending ++ bytes ≠ [] := by
        intro hnil
        rw [hnil] at hfull
        exact hfull (by decide)
      have hflush := map_error herror
      rw [LogWriter.tryFlush_zero hpending] at hflush
      cases hflush
      exact h.writeAll_nil w.fileId

theorem tryMergeLoop_appending {base : Dir}
    {readers : List FileId} {entries : List (Bytes × Location)} {turns : Nat}
    {mg mg' : Merge} (hpadded : base.Padded mg.dir)
    (hloop : mergeLoop readers entries mg = Except.ok mg')
    (hroom : mg.writer.pending.length + copyBytes (entries.take turns) <
      maxPending) {e : Error} {w : LogWriter} {dir : Dir}
    (h : tryMergeLoop readers (some (LoopFault.appending turns 0)) entries mg =
      Except.error (e, w, dir)) : base.Padded dir := by
  induction entries generalizing turns mg with
  | nil => cases h
  | cons entry entries ih =>
      rcases entry with ⟨key, loc⟩
      cases turns with
      | zero =>
          rw [mergeLoop] at hloop
          rw [tryMergeLoop, if_neg (by decide)] at h
          cases hrecord : readRecord readers mg.dir loc with
          | error e =>
              rw [hrecord] at hloop
              cases hloop
          | ok bytes =>
              rw [hrecord] at hloop h
              dsimp only at hloop h
              cases happend : mg.writer.tryAppend mg.dir bytes Reach.buffer
                  (LoopFault.inAppend (some (LoopFault.appending 0 0))) with
              | error left =>
                  rw [happend] at h
                  cases h
                  exact padded_tryAppend hpadded happend
              | ok result =>
                  -- the buffer had room after all, and nothing fails later
                  rw [← LogWriter.tryAppend_ok happend] at hloop
                  rw [happend] at h
                  dsimp only at h
                  rw [show (some (LoopFault.appending 0 0)).bind LoopFault.next =
                    none from rfl, tryMergeLoop_none hloop] at h
                  cases h
      | succ turns =>
          rw [List.take_succ_cons, copyBytes_cons] at hroom
          dsimp only at hroom
          rcases mergeLoop_turn hloop (by omega) with
            ⟨next, hnext, hdir, hlength, hsame⟩
          rw [hsame _ rfl rfl] at h
          rw [← hdir] at hpadded
          exact ih hpadded hnext (by omega) h

/-- A loop that fails silently leaves no byte in the merged file. -/
theorem tryMergeLoop_silent {base : Dir} {readers : List FileId}
    {entries : List (Bytes × Location)} {mg mg' : Merge}
    (hpadded : base.Padded mg.dir) (hpending : mg.writer.pending = [])
    (hloop : mergeLoop readers entries mg = Except.ok mg')
    {fault : LoopFault} {dropped : Option Nat}
    (hsilent : fault.Silent entries dropped) {e : Error} {w : LogWriter}
    {dir : Dir}
    (h : tryMergeLoop readers (some fault) entries mg =
      Except.error (e, w, dir)) : base.Padded (w.drop dir dropped) := by
  have hnone : mg.writer.pending.length = 0 := by rw [hpending]; rfl
  cases fault with
  | reading turns =>
      have hroom : mg.writer.pending.length +
          copyBytes (entries.take turns) < maxPending := by
        rw [hnone, Nat.zero_add]
        rcases hsilent with hzero | ⟨hless, _⟩
        · rw [hzero]
          decide
        · exact hless
      rcases tryMergeLoop_reading hloop hroom h with ⟨hdir, hlength⟩
      rw [hnone, Nat.zero_add] at hlength
      rw [← hdir] at hpadded
      apply hpadded.drop
      rcases hsilent with hzero | ⟨_, hdropped⟩
      · exact Or.inl (List.length_eq_zero_iff.mp (hlength.trans hzero))
      · exact Or.inr hdropped
  | appending turns bytes =>
      rcases hsilent with ⟨hless, hzero, hdropped⟩
      subst hzero
      have hroom : mg.writer.pending.length +
          copyBytes (entries.take turns) < maxPending := by
        rw [hnone, Nat.zero_add]
        exact hless
      exact (tryMergeLoop_appending hpadded hloop hroom h).drop
        (Or.inr hdropped)

def Store.mergeStart (s : Store) : Merge where
  writer := (LogWriter.openFile s.dir (maxId s.readers + 1)).1
  dir := (LogWriter.openFile s.dir (maxId s.readers + 1)).2
  keydir := ∅
  hints := []
  bytes := 0

theorem Store.tryMerge_succeeds {s : Store} {mg : Merge}
    (fault : Option MergeFault) (hopen : MergeFault.inOpen fault = none)
    (hloop : tryMergeLoop s.readers (MergeFault.inLoop fault)
      (inFileOrder s.keydir) s.mergeStart = Except.ok mg)
    (hflush : MergeFault.inLastFlush fault = none)
    (hsync : fault ≠ some MergeFault.syncing) :
    (s.tryMerge fault).2 = Except.ok () := by
  unfold Store.mergeStart at hloop
  unfold Store.tryMerge
  dsimp only
  rw [hopen]
  dsimp only
  rw [hloop]
  dsimp only
  rcases LogWriter.tryFlush_none mg.writer mg.dir with ⟨result, hresult⟩
  rw [hflush, hresult]
  dsimp only
  rw [if_neg hsync]

/-- A merge that fails silently leaves the store as it was, and perhaps an empty
file beside the others. -/
theorem Store.Padded.tryMerge {bare s : Store} (h : bare.Padded s)
    (hfresh : maxId s.readers + 1 ∉ bare.dir.disk.data) {mg : Merge}
    (hloop : mergeLoop s.readers (inFileOrder s.keydir) s.mergeStart =
      Except.ok mg) {fault : Option MergeFault}
    (hsilent : forall f, fault = some f -> f.Silent s) {e : Error}
    (herror : (s.tryMerge fault).2 = Except.error e) :
    bare.Padded (s.tryMerge fault).1 := by
  have hleft : forall dir, bare.dir.Padded dir ->
      bare.Padded { s with dir := dir } := by
    intro dir hdir
    refine ⟨?_, hdir⟩
    rw [h.same]
  have hcreated : bare.dir.Padded s.mergeStart.dir :=
    h.dir.create_beside hfresh
  have hunfailing := tryMergeLoop_none hloop
  cases fault with
  | none =>
      rw [tryMerge_succeeds none rfl hunfailing rfl nofun] at herror
      cases herror
  | some fault =>
      have hfault := hsilent fault rfl
      cases fault with
      | flushing bytes =>
          rw [tryMerge_succeeds (some (MergeFault.flushing bytes)) rfl hunfailing
            rfl nofun] at herror
          cases herror
      | opening created =>
          cases created with
          | false => exact hleft s.dir h.dir
          | true => exact hleft _ hcreated
      | copying fault dropped =>
          cases htried : tryMergeLoop s.readers (some fault)
              (inFileOrder s.keydir) s.mergeStart with
          | ok mg' =>
              rw [tryMerge_succeeds (some (MergeFault.copying fault dropped)) rfl
                htried rfl nofun] at herror
              cases herror
          | error left =>
              rcases left with ⟨e', w, dir⟩
              have hdir := tryMergeLoop_silent hcreated rfl hloop hfault htried
              have hresult : s.tryMerge
                  (some (MergeFault.copying fault dropped)) =
                ({ s with dir := w.drop dir dropped }, Except.error e') := by
                unfold Store.mergeStart at htried
                unfold Store.tryMerge
                simp only [MergeFault.inOpen, MergeFault.inLoop,
                  MergeFault.inDrop, htried]
              rw [hresult]
              exact hleft _ hdir
      | flushingCopies bytes dropped =>
          rcases hfault with ⟨hless, hzero, hdropped⟩
          have hroom : s.mergeStart.writer.pending.length +
              copyBytes (inFileOrder s.keydir) < maxPending := by
            rw [show s.mergeStart.writer.pending.length = 0 from rfl,
              Nat.zero_add]
            exact hless
          rcases mergeLoop_buffered hloop hroom with ⟨hdir, _⟩
          rw [← hdir] at hcreated
          unfold Store.mergeStart at hunfailing
          unfold Store.tryMerge at herror ⊢
          simp only [MergeFault.inOpen, MergeFault.inLoop,
            MergeFault.inLastFlush, MergeFault.inDrop, hunfailing, hzero,
            hdropped] at herror ⊢
          by_cases hnil : mg.writer.pending = []
          · have hflush : mg.writer.tryFlush mg.dir (some 0) =
                Except.ok (mg.writer, mg.dir) :=
              if_pos (List.isEmpty_iff.mpr hnil)
            rw [hflush] at herror
            cases herror
          · rw [LogWriter.tryFlush_zero hnil]
            exact hleft _ ((hcreated.writeAll_nil _).drop (Or.inr rfl))
      | syncing =>
          have hzero : copyBytes (inFileOrder s.keydir) = 0 := hfault
          have hroom : s.mergeStart.writer.pending.length +
              copyBytes (inFileOrder s.keydir) < maxPending := by
            rw [hzero]
            exact show 0 + 0 < maxPending by decide
          rcases mergeLoop_buffered hloop hroom with ⟨hdir, hlength⟩
          rw [hzero] at hlength
          have hflush : mg.writer.tryFlush mg.dir none =
              Except.ok (mg.writer, mg.dir) :=
            if_pos (List.isEmpty_iff.mpr (List.length_eq_zero_iff.mp hlength))
          rw [← hdir] at hcreated
          unfold Store.mergeStart at hunfailing
          unfold Store.tryMerge
          simp only [MergeFault.inOpen, MergeFault.inLoop,
            MergeFault.inLastFlush, hunfailing, hflush]
          exact hleft _ hcreated

theorem grown_flushed {s : Store} (hok : s.Ok) : Grown s s.flushed where
  later := Store.later_flushed hok
  files id hid := Or.inl (((Store.advanced_flushed hok).appended.frame.mem_iff
    hok.writer.linked id).mp hid)
  readers _ hid := hid

theorem Backs.flushed {s : Store} {work : Compacting} {m : Contents}
    {chart : Chart} (h : Backs s work m chart) :
    Backs s.flushed work m chart := by
  have hadvanced := Store.advanced_flushed h.ok
  refine ⟨hadvanced.ok h.ok, h.indexes.carried (hadvanced.carries h.ok) rfl,
    h.restoring, h.charted.allRead_flushed h.ok, ?_,
    h.work.grown (grown_flushed h.ok) (fun _ _ => rfl)⟩
  rw [hadvanced.appended.fileId]
  exact h.whole

theorem Store.Padded.mergeLoop {bare s : Store} (h : bare.Padded s)
    (hok : bare.Ok) {m : Contents} (hindexes : bare.Indexes m) :
    exists mg, Minicask.mergeLoop s.flushed.readers
      (inFileOrder s.flushed.keydir) s.flushed.mergeStart = Except.ok mg := by
  have hnext : bare.writer.fileId < bare.writer.fileId + 1 :=
    Nat.lt_succ_self _
  have hstart := merged_start hok hnext
  rcases hstart.loop (inFileOrder bare.keydir)
    (fun p hp => copyable hok hindexes hnext hp) with ⟨mg, _, hloop, _⟩
  have hflushed := h.flushed hok
  rcases hflushed.dir.openFile (bare.writer.fileId + 1) with ⟨hwriter, hdir⟩
  have hlinked : forall id, id ∈ bare.readers ->
      id ∈ (bare.flushed.dir.create (bare.writer.fileId + 1)).disk.data := by
    intro id hid
    rw [← AList.lookup_isSome, Dir.lookup_create]
    split
    · rfl
    · rw [AList.lookup_isSome]
      exact ((advanced_flushed hok).ok hok).linked id hid
  rcases hdir.mergeLoop hstart.ok hlinked hloop with ⟨dir', hloop', _⟩
  have hreaders : s.flushed.readers = bare.readers := by
    rw [hflushed.same]
    rfl
  have hkeydir : s.flushed.keydir = bare.keydir := by
    rw [hflushed.same]
    rfl
  refine ⟨{ mg with dir := dir' }, ?_⟩
  unfold Store.mergeStart
  rw [hreaders, hkeydir, maxId_readers hok, hwriter]
  exact hloop'

theorem MergeFault.eq_of_inFlush {fault : Option MergeFault} {bytes : Nat}
    (h : MergeFault.inFlush fault = some bytes) :
    fault = some (MergeFault.flushing bytes) := by
  cases fault with
  | none => cases h
  | some f =>
      cases f with
      | flushing n =>
          cases h
          rfl
      | _ => cases h

/-- A compaction that does not fail, or fails silently. -/
theorem Store.Padded.tryCompact {bare s : Store} (h : bare.Padded s)
    {m : Contents} {chart : Chart}
    (hbacks : Backs bare Compacting.idle m chart) {fault : Option MergeFault}
    (hsilent : forall e, (s.tryCompact fault).2 = Except.error e ->
      forall f, fault = some f -> f.Silent s) :
    exists bare' chart', bare'.Padded (s.tryCompact fault).1 ∧
      Backs bare' Compacting.idle m chart' := by
  cases hresult : (s.tryCompact fault).2 with
  | ok done =>
      have hcompact := tryCompact_ok hresult
      rcases compact_spec hbacks.ok hbacks.indexes hbacks.work.1
        hbacks.restoring with ⟨bare', _, hbare, _⟩
      rcases h.compact hbacks.ok hbare with ⟨padded, hpadded, hsame⟩
      rw [hcompact, Except.ok.injEq] at hpadded
      subst hpadded
      rcases hbacks.compact hbare with ⟨chart', hbacks'⟩
      exact ⟨bare', chart', hsame, hbacks'⟩
  | error e =>
      have hfault := hsilent e hresult
      have hfree : ¬ (s.compacting || s.restoring) = true := by
        rw [h.same]
        simp [hbacks.work.1, hbacks.restoring]
      unfold Store.tryCompact at hresult ⊢
      rw [if_neg hfree] at hresult ⊢
      cases hflush : s.writer.tryFlush s.dir (MergeFault.inFlush fault) with
      | error left =>
          refine ⟨bare, chart, ?_, hbacks⟩
          have hpending : s.writer.pending ≠ [] := by
            intro hnil
            have htaken : s.writer.tryFlush s.dir (MergeFault.inFlush fault) =
                Except.ok (s.writer, s.dir) :=
              if_pos (List.isEmpty_iff.mpr hnil)
            rw [htaken] at hflush
            cases hflush
          have hzero : MergeFault.inFlush fault = some 0 := by
            rcases hbytes : MergeFault.inFlush fault with _ | bytes
            · rcases LogWriter.tryFlush_none s.writer s.dir with ⟨_, htaken⟩
              rw [hbytes, htaken] at hflush
              cases hflush
            · rw [hfault _ (MergeFault.eq_of_inFlush hbytes)]
          rw [hzero, LogWriter.tryFlush_zero hpending] at hflush
          cases hflush
          refine ⟨?_, h.dir.writeAll_nil _⟩
          rw [h.same]
      | ok flushed =>
          rw [hflush] at hresult
          have hsame := LogWriter.tryFlush_ok hflush
          subst hsame
          rcases h.mergeLoop hbacks.ok hbacks.indexes with ⟨mg, hloop⟩
          have hflushed := h.flushed hbacks.ok
          refine ⟨bare.flushed, chart, ?_, hbacks.flushed⟩
          refine hflushed.tryMerge ?_ hloop hfault hresult
          have hreaders : s.flushed.readers = bare.readers := by
            rw [hflushed.same]
            rfl
          rw [hreaders, maxId_readers hbacks.ok]
          intro hin
          have hadvanced := advanced_flushed hbacks.ok
          have hle := (hadvanced.ok hbacks.ok).newest _ hin
          rw [hadvanced.appended.fileId] at hle
          exact Nat.not_succ_le_self _ hle

/-- A merge on the side that fails silently leaves nothing that is read, but perhaps
an empty file in its slot. -/
theorem Store.Padded.tryRun {bare s : Store} (h : bare.Padded s)
    {job : CompactionJob} (hslot : job.mergedId ∉ bare.dir.disk.data)
    {fault : Option JobFault}
    (hsilent : forall f, fault = some f -> f.Silent job) {dir : Dir}
    (hfailed : job.tryRun s.dir fault = Except.error dir) :
    bare.Padded { s with dir := dir } := by
  refine ⟨by rw [h.same], ?_⟩
  unfold CompactionJob.tryRun at hfailed
  split at hfailed
  · next left =>
      cases hfailed
      cases left with
      | none => exact h.dir
      | some bytes => exact h.dir.congr rfl rfl rfl rfl
  · dsimp only at hfailed
    split at hfailed
    · cases hfailed
      exact h.dir.congr rfl rfl rfl rfl
    · next c hloop =>
        split at hfailed
        · next hrenamed =>
            have hnothing : job.view.entries = [] := hsilent _ hrenamed
            rw [hnothing] at hloop
            cases hloop
            cases hfailed
            have hpart : bare.dir.Padded (s.dir.writePart job.mergedId []) :=
              h.dir.congr rfl rfl rfl rfl
            exact hpart.renamed hslot
        · cases hfailed

theorem Store.readers_beginCompaction {s s' : Store} {job : CompactionJob}
    (h : s.beginCompaction = Except.ok (job, s')) :
    job.view.readers = s'.readers := by
  unfold beginCompaction at h
  split at h
  · cases h
  · cases h
    rfl

theorem Store.readers_call {s : Store} (hok : s.Ok) {m : Contents}
    (hindexes : s.Indexes m) (hwritable : s.restoring = false) {c : Call}
    (hplain : c.Plain) (hshort : c.Short) {id : FileId}
    (hid : id ∈ s.readers) : id ∈ (s.call c).1.readers := by
  cases called hok hindexes hwritable hplain hshort with
  | same hstore _ =>
      rw [hstore]
      exact hid
  | wrote hwrote _ _ => exact (hwrote.grown hok).readers id hid
  | synced hstore _ =>
      rw [hstore]
      exact hid

/-!
# Whole runs
-/

/-- A store on any directory, and what happens to it after that: calls, compactions
on its own thread and beside it that succeed or fail, each fault one that is
allowed, and restarts after a clean close. -/
inductive TroubledRun (allowed : Store -> MergeFault -> Prop)
    (allowedJob : CompactionJob -> JobFault -> Prop) :
    Store -> Compacting -> Prop where
  | start {s : Store} (h : History Fits (Life.up s Out.idle)) :
      TroubledRun allowed allowedJob s Compacting.idle
  | call {s : Store} {work : Compacting}
      (hrun : TroubledRun allowed allowedJob s work) {c : Call}
      (hplain : c.Plain) (hshort : c.Short) :
      TroubledRun allowed allowedJob (s.call c).1 work
  | compact {s : Store} {work : Compacting}
      (hrun : TroubledRun allowed allowedJob s work)
      {fault : Option MergeFault}
      (hfault : forall e, (s.tryCompact fault).2 = Except.error e ->
        forall f, fault = some f -> allowed s f) :
      TroubledRun allowed allowedJob (s.tryCompact fault).1 work
  | beginCompaction {s s' : Store}
      (hrun : TroubledRun allowed allowedJob s Compacting.idle)
      {job : CompactionJob}
      (hbegin : s.beginCompaction = Except.ok (job, s')) :
      TroubledRun allowed allowedJob s' (Compacting.started job)
  | runCompaction {s : Store} {job : CompactionJob}
      (hrun : TroubledRun allowed allowedJob s (Compacting.started job))
      {fault : Option JobFault} {merged : MergedFile} {dir : Dir}
      (hjob : job.tryRun s.dir fault = Except.ok (merged, dir)) :
      TroubledRun allowed allowedJob { s with dir := dir }
        (Compacting.finished merged)
  | runFails {s : Store} {job : CompactionJob}
      (hrun : TroubledRun allowed allowedJob s (Compacting.started job))
      {fault : Option JobFault}
      (hfault : forall f, fault = some f -> allowedJob job f) {dir : Dir}
      (hjob : job.tryRun s.dir fault = Except.error dir) :
      TroubledRun allowed allowedJob { s with dir := dir }
        (Compacting.started job)
  | finishCompaction {s : Store} {merged : MergedFile}
      (hrun : TroubledRun allowed allowedJob s (Compacting.finished merged)) :
      TroubledRun allowed allowedJob (s.finishCompaction merged)
        Compacting.idle
  | abandonCompaction {s : Store} {job : CompactionJob}
      (hrun : TroubledRun allowed allowedJob s (Compacting.started job)) :
      TroubledRun allowed allowedJob s.abandonCompaction Compacting.idle
  | reopen {s s' : Store} {work : Compacting}
      (hrun : TroubledRun allowed allowedJob s work) {opts : Options}
      (hopen : Store.openWith { disk := s.close.disk } opts = Except.ok s') :
      TroubledRun allowed allowedJob s' Compacting.idle

def Compacting.Reads (s : Store) : Compacting -> Prop
  | started job => forall id, id ∈ job.view.readers -> id ∈ s.readers
  | _ => True

/-- But for some empty files the directory is what a store wrote whose merges never
failed. -/
def Trusted (s : Store) (work : Compacting) : Prop :=
  exists bare m chart, bare.Padded s ∧ Backs bare work m chart ∧
    work.Reads bare

namespace Trusted

theorem of_backs {s : Store} {m : Contents} {chart : Chart}
    (h : Backs s Compacting.idle m chart) : Trusted s Compacting.idle :=
  ⟨s, m, chart, ⟨rfl, Dir.Padded.refl s.dir⟩, h, trivial⟩

theorem start {s : Store} (h : History Fits (Life.up s Out.idle)) :
    Trusted s Compacting.idle := by
  have halive : Alive s Out.idle := h.sound
  have hreplayed : Replayed s := h.backed
  rcases hreplayed.backs halive with ⟨m, chart, hbacks⟩
  exact of_backs hbacks

theorem call {s : Store} {work : Compacting} (h : Trusted s work) {c : Call}
    (hplain : c.Plain) (hshort : c.Short) : Trusted (s.call c).1 work := by
  rcases h with ⟨bare, m, chart, hpadded, hbacks, hreads⟩
  rcases hbacks.call hplain hshort with ⟨chart', hbacks'⟩
  refine ⟨_, _, chart', (hpadded.call hbacks.ok hplain).1, hbacks', ?_⟩
  cases work with
  | started job =>
      intro id hid
      exact Store.readers_call hbacks.ok hbacks.indexes hbacks.restoring hplain
        hshort (hreads id hid)
  | _ => trivial

theorem compacting {s : Store} {work : Compacting} (h : Trusted s work)
    (hbusy : work ≠ Compacting.idle) : s.compacting = true := by
  rcases h with ⟨bare, m, chart, hpadded, hbacks, _⟩
  rw [hpadded.same]
  cases work with
  | idle => exact absurd rfl hbusy
  | started job => exact hbacks.work.1
  | finished merged => exact hbacks.work.1

theorem compact {s : Store} {work : Compacting} (h : Trusted s work)
    {fault : Option MergeFault}
    (hsilent : forall e, (s.tryCompact fault).2 = Except.error e ->
      forall f, fault = some f -> f.Silent s) :
    Trusted (s.tryCompact fault).1 work := by
  by_cases hidle : work = Compacting.idle
  · subst hidle
    rcases h with ⟨bare, m, chart, hpadded, hbacks, _⟩
    rcases hpadded.tryCompact hbacks hsilent with
      ⟨bare', chart', hpadded', hbacks'⟩
    exact ⟨bare', m, chart', hpadded', hbacks', trivial⟩
  · have hrefused : (s.tryCompact fault).1 = s := by
      unfold Store.tryCompact
      rw [if_pos (by simp [h.compacting hidle])]
    rw [hrefused]
    exact h

theorem beginCompaction {s s' : Store} (h : Trusted s Compacting.idle)
    {job : CompactionJob} (hbegin : s.beginCompaction = Except.ok (job, s')) :
    Trusted s' (Compacting.started job) := by
  rcases h with ⟨bare, m, chart, hpadded, hbacks, _⟩
  rcases Store.beginCompaction_spec hbacks.ok hbacks.indexes hbacks.work.1
    hbacks.restoring with ⟨job', bare', hbare, _⟩
  rcases hpadded.beginCompaction hbacks.ok hbare with ⟨s'', hbegin', hpadded'⟩
  rw [hbegin, Except.ok.injEq, Prod.mk.injEq] at hbegin'
  rcases hbegin' with ⟨hjob, hs⟩
  subst hjob hs
  refine ⟨bare', m, chart, hpadded', hbacks.beginCompaction hbare, ?_⟩
  intro id hid
  rw [← Store.readers_beginCompaction hbare]
  exact hid

theorem runCompaction {s : Store} {job : CompactionJob}
    (h : Trusted s (Compacting.started job)) {fault : Option JobFault}
    {merged : MergedFile} {dir : Dir}
    (hjob : job.tryRun s.dir fault = Except.ok (merged, dir)) :
    Trusted { s with dir := dir } (Compacting.finished merged) := by
  rcases h with ⟨bare, m, chart, hpadded, hbacks, hreads⟩
  rcases hbacks.work.2.2.1.run with ⟨merged', dir', _, hrun, _⟩
  rcases hpadded.dir.run (fun id hid => hbacks.ok.linked id (hreads id hid))
    hrun with ⟨dir'', hrun', hdir⟩
  rw [CompactionJob.tryRun_ok hjob, Except.ok.injEq, Prod.mk.injEq] at hrun'
  rcases hrun' with ⟨hmerged, hdone⟩
  subst hmerged hdone
  rcases hbacks.runCompaction hrun with ⟨chart', hbacks'⟩
  refine ⟨_, m, chart', ⟨?_, hdir⟩, hbacks', trivial⟩
  rw [hpadded.same]

theorem runFails {s : Store} {job : CompactionJob}
    (h : Trusted s (Compacting.started job)) {fault : Option JobFault}
    (hsilent : forall f, fault = some f -> f.Silent job) {dir : Dir}
    (hjob : job.tryRun s.dir fault = Except.error dir) :
    Trusted { s with dir := dir } (Compacting.started job) := by
  rcases h with ⟨bare, m, chart, hpadded, hbacks, hreads⟩
  rcases hbacks.work with ⟨_, _, _, hslot, _⟩
  exact ⟨bare, m, chart, hpadded.tryRun hslot hsilent hjob, hbacks, hreads⟩

theorem finishCompaction {s : Store} {merged : MergedFile}
    (h : Trusted s (Compacting.finished merged)) :
    Trusted (s.finishCompaction merged) Compacting.idle := by
  rcases h with ⟨bare, m, chart, hpadded, hbacks, _⟩
  exact ⟨_, m, _, hpadded.finishCompaction merged, hbacks.finishCompaction,
    trivial⟩

theorem abandonCompaction {s : Store} {job : CompactionJob}
    (h : Trusted s (Compacting.started job)) :
    Trusted s.abandonCompaction Compacting.idle := by
  rcases h with ⟨bare, m, chart, hpadded, hbacks, _⟩
  exact ⟨_, m, chart, hpadded.abandonCompaction, hbacks.abandonCompaction,
    trivial⟩

theorem reopen {s s' : Store} {work : Compacting} (h : Trusted s work)
    {opts : Options}
    (hopen : Store.openWith { disk := s.close.disk } opts = Except.ok s') :
    Trusted s' Compacting.idle := by
  rcases h with ⟨bare, m, chart, hpadded, hbacks, _⟩
  rcases hbacks.reopen_padded hpadded opts with ⟨s'', chart', hopen', hbacks'⟩
  rw [hopen, Except.ok.injEq] at hopen'
  subst hopen'
  exact of_backs hbacks'

end Trusted

theorem TroubledRun.trusted {s : Store} {work : Compacting}
    (h : TroubledRun (fun s f => f.Silent s) (fun job f => f.Silent job) s
      work) : Trusted s work := by
  induction h with
  | start h => exact Trusted.start h
  | call _ hplain hshort ih => exact ih.call hplain hshort
  | compact _ hfault ih => exact ih.compact hfault
  | beginCompaction _ hbegin ih => exact ih.beginCompaction hbegin
  | runCompaction _ hjob ih => exact ih.runCompaction hjob
  | runFails _ hfault hjob ih => exact ih.runFails hfault hjob
  | finishCompaction _ ih => exact ih.finishCompaction
  | abandonCompaction _ ih => exact ih.abandonCompaction
  | reopen _ hopen ih => exact ih.reopen hopen

/-- As long as merges that fail leave nothing of their copies in a file that is
read, what a store reports is what opens on its files. -/
theorem silent_failures_trusted {s : Store} {work : Compacting}
    (h : TroubledRun (fun s f => f.Silent s) (fun job f => f.Silent job) s
      work) :
    exists m : Contents, (forall k, s.get k = Except.ok (m k)) ∧
      (forall k, k ∈ s.keys ↔ (m k).isSome) ∧
      forall opts, exists s',
        Store.openWith { disk := s.close.disk } opts = Except.ok s' ∧
        (forall k, s'.get k = Except.ok (m k)) ∧
        forall k, k ∈ s'.keys ↔ (m k).isSome := by
  rcases h.trusted with ⟨bare, m, chart, hpadded, hbacks, _⟩
  refine ⟨m, ?_, ?_, ?_⟩
  · intro k
    rw [hpadded.get hbacks.ok k]
    exact Store.get_eq hbacks.ok hbacks.indexes k
  · intro k
    rw [hpadded.keys]
    exact Store.mem_keys_iff hbacks.indexes k
  · intro opts
    rcases hbacks.reopen_padded hpadded opts with ⟨s', _, hopen, hbacks'⟩
    exact ⟨s', hopen, Store.get_eq hbacks'.ok hbacks'.indexes,
      Store.mem_keys_iff hbacks'.indexes⟩

def interrupted (fault : MergeFault) : Store :=
  (((newStore {}).call (Call.put [7] [1] 5 6)).1.tryCompact (some fault)).1

/-- A value put after a merge that failed as it opened its file is still there when
the store is opened again. -/
theorem silent_failures_trusted_put :
    exists s' : Store,
      Store.openWith { disk := ((interrupted (MergeFault.opening true)).call
        (Call.put [7] [2] 7 8)).1.close.disk } {} = Except.ok s' ∧
      s'.get [7] = ((interrupted (MergeFault.opening true)).call
        (Call.put [7] [2] 7 8)).1.get [7] := by
  have hrun : TroubledRun (fun s f => f.Silent s) (fun job f => f.Silent job)
      (newStore {}) Compacting.idle :=
    TroubledRun.start (History.opened History.new (openWith_nothing {}))
  have hput := hrun.call (c := Call.put [7] [1] 5 6) trivial (by decide)
  have hfailed : TroubledRun (fun s f => f.Silent s) (fun job f => f.Silent job)
      (interrupted (MergeFault.opening true)) Compacting.idle := by
    refine hput.compact ?_
    intro e herror f hf
    cases hf
    trivial
  have hlater := hfailed.call (c := Call.put [7] [2] 7 8) trivial (by decide)
  rcases silent_failures_trusted hlater with ⟨m, hget, _, hopens⟩
  rcases hopens {} with ⟨s', hopen, hreopened, _⟩
  refine ⟨s', hopen, ?_⟩
  rw [hreopened [7]]
  exact (hget [7]).symm

/-- The merge is written out and cannot be synced.  Its file stays, with an id above
that of the file the store goes on writing to, so the copy in it is replayed after
the value that was put later. -/
theorem failed_compaction_brings_back :
    exists s, TroubledRun (fun _ _ => True) (fun _ _ => True) s
        Compacting.idle ∧
      s.get [7] = Except.ok (some [2]) ∧
      (Store.openWith { disk := s.close.disk } {}).bind
        (fun s' => s'.get [7]) = Except.ok (some [1]) := by
  have hrun : TroubledRun (fun _ _ => True) (fun _ _ => True) (newStore {})
      Compacting.idle :=
    TroubledRun.start (History.opened History.new (openWith_nothing {}))
  have hput := hrun.call (c := Call.put [7] [1] 5 6) trivial (by decide)
  have hfailed : TroubledRun (fun _ _ => True) (fun _ _ => True)
      (interrupted MergeFault.syncing) Compacting.idle :=
    hput.compact (fun _ _ _ _ => trivial)
  have hlater := hfailed.call (c := Call.put [7] [2] 7 8) trivial (by decide)
  refine ⟨_, hlater, ?_, ?_⟩
  · decide +kernel
  · decide +kernel

end Minicask
