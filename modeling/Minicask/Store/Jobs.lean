import Minicask.Store.Compaction

/-!
# Work done without the store

The parts of `store.rs` that run on another thread: a frozen view of the store, a
merge of everything a view holds, and new contents written beside the old.  A job
touches the directory and nothing else of the store, so it takes the directory as
it is when the job runs.
-/

namespace Minicask

/-- A frozen copy of a store's index, and the files it points into. -/
structure StoreView where
  entries : List (Bytes × Location)
  readers : List FileId

def inKeyOrder (keydir : Keydir) : List (Bytes × Location) :=
  (keydir.entries.map (fun e => (e.1, e.2))).insertionSort
    (fun a b => a.1 <= b.1)

/-- The store as it stands right now, readable without the store.  The view reads
the files, so what is buffered is written out first. -/
def Store.view (s : Store) : StoreView × Store :=
  ({ entries := inKeyOrder s.keydir, readers := s.readers }, s.flushed)

def StoreView.forEach (view : StoreView) (dir : Dir)
    (f : acc -> Bytes -> Bytes -> Except Error acc) (start : acc) :
    Except Error acc :=
  view.entries.foldlM (fun found entry =>
    (readValue view.readers dir entry.2).bind (f found entry.1)) start

/-- Seal the active file as a rollover would and move writing two ids on.  The id
between is left for a file written off to the side; it comes back with the ids of
every file before it. -/
def Store.sealLeavingASlot (s : Store) : (List FileId × FileId) × Store :=
  ((s.readers, s.writer.fileId + 1), s.sealInto (s.writer.fileId + 2))

/-!
# Compacting in the background
-/

structure CompactionJob where
  view : StoreView
  mergedId : FileId
  oldIds : List FileId
  oldBytes : Nat

/-- The merged file, and for each key in it where its record was and where the
copy is. -/
structure MergedFile where
  id : FileId
  bytes : Nat
  oldIds : List FileId
  oldBytes : Nat
  moved : List (Bytes × Location × Location)

def Store.beginCompaction (s : Store) : Except Error (CompactionJob × Store) :=
  if s.compacting || s.restoring then Except.error compactionInProgress
  else
    let ((oldIds, mergedId), s) := s.sealLeavingASlot
    let oldBytes := s.diskBytes
    let (view, s) := s.view
    Except.ok
      ({ view := view
         mergedId := mergedId
         oldIds := oldIds
         oldBytes := oldBytes },
        { s with compacting := true })

/-- Copies under way: the file so far, and the notes taken of it. -/
structure Copies where
  file : Bytes := []
  offset : Nat := 0
  moved : List (Bytes × Location × Location) := []
  hints : List HintEntry := []

/-- Records are copied verbatim, and checked on the way. -/
def copyRecord (readers : List FileId) (dir : Dir) (mergedId : FileId)
    (c : Copies) (entry : Bytes × Location) : Except Error Copies :=
  let (key, loc) := entry
  (readRecord readers dir loc).bind (fun bytes =>
    (decodeValue bytes loc).bind (fun _ =>
      Except.ok
        { file := c.file ++ bytes
          offset := c.offset + loc.len.toNat
          moved := c.moved ++
            [(key, loc,
              { fileId := mergedId
                offset := c.offset
                len := loc.len
                tstamp := loc.tstamp })]
          hints := c.hints ++
            [{ key := key
               offset := c.offset
               len := loc.len
               tstamp := loc.tstamp
               tombstone := false }] }))

/-- Copy every record the view holds into the merged file.  It is written under
another name, synced, and only then renamed into place. -/
def CompactionJob.run (job : CompactionJob) (dir : Dir) :
    Except Error (MergedFile × Dir) :=
  let dir := dir.writePart job.mergedId []
  (job.view.entries.foldlM (copyRecord job.view.readers dir job.mergedId)
    {}).bind (fun c =>
      let dir := dir.writePart job.mergedId c.file
      let dir := dir.renamePart job.mergedId
      Except.ok
        ({ id := job.mergedId
           bytes := c.offset
           oldIds := job.oldIds
           oldBytes := job.oldBytes
           moved := c.moved },
          Hint.write dir job.mergedId c.offset c.hints))

/-- Point a key at its copy, unless it has been written since. -/
def repoint (keydir : Keydir) (move : Bytes × Location × Location) : Keydir :=
  if keydir.lookup move.1 = some move.2.1 then
    keydir.insert move.1 move.2.2
  else keydir

def Store.finishCompaction (s : Store) (merged : MergedFile) : Store :=
  { s with
    compacting := false
    readers := (s.readers.insert merged.id).filter
      (fun id => !merged.oldIds.contains id)
    keydir := merged.moved.foldl repoint s.keydir
    dir := removeFiles s.dir merged.oldIds
    diskBytes := s.diskBytes - merged.oldBytes + merged.bytes }

/-- Nothing was replaced, so there is nothing to undo. -/
def Store.abandonCompaction (s : Store) : Store :=
  { s with compacting := false }

/-!
# Replacing everything
-/

/-- New contents for a store, being written without it. -/
structure RestoreJob where
  id : FileId
  file : Bytes := []
  offset : Nat := 0
  index : List (Bytes × Location) := []
  hints : List HintEntry := []
  oldIds : List FileId

structure RestoredFile where
  id : FileId
  bytes : Nat
  index : List (Bytes × Location)
  oldIds : List FileId

def Store.beginRestore (s : Store) : Except Error (RestoreJob × Store) :=
  if s.compacting || s.restoring then Except.error compactionInProgress
  else
    let ((oldIds, id), s) := s.sealLeavingASlot
    Except.ok
      ({ id := id, oldIds := oldIds },
        { s with
          dir := s.dir.writePart id []
          restoring := true })

namespace RestoreJob

/-- Add one key and its value.  No clock here knows when it was written. -/
def push (job : RestoreJob) (key value : Bytes) : Except Error RestoreJob :=
  (encode key (some value) 0).bind (fun bytes =>
    let len := UInt32.ofNat bytes.length
    Except.ok
      { job with
        file := job.file ++ bytes
        index := job.index ++
          [(key,
            { fileId := job.id
              offset := job.offset
              len := len
              tstamp := 0 })]
        hints := job.hints ++
          [{ key := key
             offset := job.offset
             len := len
             tstamp := 0
             tombstone := false }]
        offset := job.offset + len.toNat })

/-- Sync the new file and rename it into its slot. -/
def finish (job : RestoreJob) (dir : Dir) : RestoredFile × Dir :=
  let dir := dir.writePart job.id job.file
  let dir := dir.renamePart job.id
  ({ id := job.id
     bytes := job.offset
     index := job.index
     oldIds := job.oldIds },
    Hint.write dir job.id job.offset job.hints)

/-- A restore given up on takes its part file with it. -/
def drop (job : RestoreJob) (dir : Dir) : Dir :=
  dir.removePart job.id

end RestoreJob

/-- An index collected from its entries; of two for a key the later one counts. -/
def insertAll (keydir : Keydir) (entries : List (Bytes × Location)) : Keydir :=
  entries.foldl (fun keydir entry => keydir.insert entry.1 entry.2) keydir

def Store.finishRestore (s : Store) (restored : RestoredFile) : Store :=
  { s with
    restoring := false
    readers := (s.readers.filter
      (fun id => !restored.oldIds.contains id)).insert restored.id
    keydir := insertAll ∅ restored.index
    dir := removeFiles s.dir restored.oldIds
    liveBytes := restored.bytes
    diskBytes := restored.bytes + s.writer.offset }

def Store.abandonRestore (s : Store) : Store :=
  { s with restoring := false }

end Minicask
