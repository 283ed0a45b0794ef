import Minicask.Fallible
import Minicask.Store.Hint

/-!
# The store

`store.rs`: an in-memory index over a set of append-only files.  A store owns its
directory, so an operation is a function of the store alone.  The clock is read
where the source reads it and its answers are arguments: `now` stamps a record
and `later` its place in the index.
-/

namespace Minicask

/-- Where a key's newest record lives. -/
structure Location where
  fileId : FileId
  offset : Nat
  len : UInt32
  tstamp : UInt64
deriving Repr, DecidableEq

structure Options where
  sync : SyncPolicy := SyncPolicy.everyWrite
  maxFileBytes : Nat := 64 * 1024 * 1024
  verifyOnOpen : Bool := false
deriving Repr, DecidableEq

abbrev Keydir := AList (fun _ : Bytes => Location)

structure Store where
  dir : Dir
  keydir : Keydir
  readers : List FileId
  writer : LogWriter
  opts : Options
  liveBytes : Nat
  diskBytes : Nat
  /-- Every record in the active file, as its hint will hold them. -/
  activeHints : List HintEntry
  compacting : Bool
  restoring : Bool

structure Stats where
  keys : Nat
  files : Nat
  liveBytes : Nat
  diskBytes : Nat
deriving Repr, DecidableEq

def Stats.reclaimableBytes (stats : Stats) : Nat :=
  stats.diskBytes - stats.liveBytes

def restoreInProgress : Error :=
  Error.io "the store is being restored and takes no writes until it is done"

def compactionInProgress : Error :=
  Error.io "a compaction is already in progress"

def notOpen (loc : Location) : Error :=
  Error.corrupt loc.fileId loc.offset
    "index points at a data file that is not open"

/-!
# Reading
-/

/-- Check a record's bytes and take its value out of them. -/
def decodeValue (bytes : Bytes) (loc : Location) : Except Error Bytes :=
  let corrupt := Error.corrupt loc.fileId loc.offset
  if bytes.length < headerLen then
    Except.error (corrupt "record shorter than a header")
  else
    let header := Header.decode (bytes.take headerLen)
    if header.recordLen ≠ bytes.length then
      Except.error (corrupt "record header does not match its length")
    else
      let key := (bytes.drop headerLen).take header.keyLen.toNat
      let value := (bytes.drop headerLen).drop header.keyLen.toNat
      if !header.verify key value then
        Except.error (corrupt "checksum mismatch on read")
      else Except.ok value

def readRecord (readers : List FileId) (dir : Dir) (loc : Location) :
    Except Error Bytes :=
  if loc.fileId ∈ readers then dir.readAt loc.fileId loc.offset loc.len
  else Except.error (notOpen loc)

def readValue (readers : List FileId) (dir : Dir) (loc : Location) :
    Except Error Bytes :=
  (readRecord readers dir loc).bind (fun bytes => decodeValue bytes loc)

namespace Store

def get (s : Store) (key : Bytes) : Except Error (Option Bytes) :=
  match s.keydir.lookup key with
  | none => Except.ok none
  | some loc =>
      let buffered :=
        if loc.fileId = s.writer.fileId then
          s.writer.buffered loc.offset loc.len
        else none
      match buffered with
      | some bytes => (decodeValue bytes loc).map some
      | none => (readValue s.readers s.dir loc).map some

def containsKey (s : Store) (key : Bytes) : Bool :=
  (s.keydir.lookup key).isSome

def keys (s : Store) : List Bytes :=
  s.keydir.keys

def stats (s : Store) : Stats where
  keys := s.keydir.keys.length
  files := s.readers.length
  liveBytes := s.liveBytes
  diskBytes := s.diskBytes

/-!
# Writing
-/

def reach (s : Store) : Reach :=
  match s.opts.sync with
  | SyncPolicy.everyWrite => Reach.disk
  | SyncPolicy.osCache => Reach.kernel

/-- Seal the active file: sync it, write its hint, and move writing to a new
file. -/
def sealInto (s : Store) (nextId : FileId) : Store :=
  let (writer, dir) := s.writer.sync s.dir
  let dir := Hint.write dir writer.fileId writer.offset s.activeHints
  let (writer, dir) := LogWriter.openFile dir nextId
  { s with
    dir := dir
    writer := writer
    readers := s.readers.insert nextId
    activeHints := [] }

def rollIfNeeded (s : Store) (incoming : Nat) : Store :=
  if s.writer.offset = 0 ∨
      s.writer.offset + incoming <= s.opts.maxFileBytes then s
  else s.sealInto (s.writer.fileId + 1)

def liveLen (s : Store) (key : Bytes) : Nat :=
  match s.keydir.lookup key with
  | some old => old.len.toNat
  | none => 0

def putWith (s : Store) (key value : Bytes) (reach : Reach)
    (now later : UInt64) : Except Error Store :=
  if s.restoring then Except.error restoreInProgress
  else
    match encode key (some value) now with
    | Except.error e => Except.error e
    | Except.ok bytes =>
        let s := s.rollIfNeeded bytes.length
        let ((offset, len), writer, dir) := s.writer.append s.dir bytes reach
        Except.ok
          { s with
            dir := dir
            writer := writer
            activeHints := s.activeHints ++
              [{ key := key
                 offset := offset
                 len := len
                 tstamp := later
                 tombstone := false }]
            diskBytes := s.diskBytes + len.toNat
            liveBytes := s.liveBytes - s.liveLen key + len.toNat
            keydir := s.keydir.insert key
              { fileId := writer.fileId
                offset := offset
                len := len
                tstamp := later } }

def put (s : Store) (key value : Bytes) (now later : UInt64) :
    Except Error Store :=
  s.putWith key value s.reach now later

def putDeferred (s : Store) (key value : Bytes) (now later : UInt64) :
    Except Error Store :=
  s.putWith key value Reach.buffer now later

def deleteWith (s : Store) (key : Bytes) (reach : Reach)
    (now later : UInt64) : Except Error (Store × Bool) :=
  if s.restoring then Except.error restoreInProgress
  else if !s.containsKey key then Except.ok (s, false)
  else
    match encode key none now with
    | Except.error e => Except.error e
    | Except.ok bytes =>
        let s := s.rollIfNeeded bytes.length
        let ((offset, len), writer, dir) := s.writer.append s.dir bytes reach
        Except.ok
          ({ s with
              dir := dir
              writer := writer
              activeHints := s.activeHints ++
                [{ key := key
                   offset := offset
                   len := len
                   tstamp := later
                   tombstone := true }]
              diskBytes := s.diskBytes + len.toNat
              liveBytes := s.liveBytes - s.liveLen key
              keydir := s.keydir.erase key }, true)

def delete (s : Store) (key : Bytes) (now later : UInt64) :
    Except Error (Store × Bool) :=
  s.deleteWith key s.reach now later

def deleteDeferred (s : Store) (key : Bytes) (now later : UInt64) :
    Except Error (Store × Bool) :=
  s.deleteWith key Reach.buffer now later

def sync (s : Store) : Store :=
  let (writer, dir) := s.writer.sync s.dir
  { s with writer := writer, dir := dir }

def close (s : Store) : Dir :=
  (s.writer.flush s.dir).2

end Store

/-!
# Compaction
-/

def inFileOrder (keydir : Keydir) : List (Bytes × Location) :=
  (keydir.entries.map (fun e => (e.1, e.2))).insertionSort (fun a b =>
    a.2.fileId < b.2.fileId ∨
      (a.2.fileId = b.2.fileId ∧ a.2.offset <= b.2.offset))

structure Merge where
  writer : LogWriter
  dir : Dir
  keydir : Keydir
  hints : List HintEntry
  bytes : Nat

def mergeLoop (readers : List FileId) :
    List (Bytes × Location) -> Merge -> Except Error Merge
  | [], m => Except.ok m
  | (key, loc) :: rest, m =>
      match readRecord readers m.dir loc with
      | Except.error e => Except.error e
      | Except.ok bytes =>
          let ((offset, len), writer, dir) :=
            m.writer.append m.dir bytes Reach.buffer
          mergeLoop readers rest
            { writer := writer
              dir := dir
              keydir := m.keydir.insert key
                { fileId := writer.fileId
                  offset := offset
                  len := len
                  tstamp := loc.tstamp }
              hints := m.hints ++
                [{ key := key
                   offset := offset
                   len := len
                   tstamp := loc.tstamp
                   tombstone := false }]
              bytes := m.bytes + len.toNat }

/-- Each hint goes before its data file. -/
def removeFiles (dir : Dir) (ids : List FileId) : Dir :=
  ids.foldl (fun dir id => (dir.removeHint id).removeData id) dir

def maxId (ids : List FileId) : FileId :=
  ids.foldl max 0

namespace Store

/-- Rewrite the live records into a single new data file and delete the old
ones. -/
def compact (s : Store) : Except Error Store :=
  if s.compacting || s.restoring then Except.error compactionInProgress
  else
    let (_, dir) := s.writer.flush s.dir
    let oldIds := s.readers
    let mergedId := maxId oldIds + 1
    let (writer, dir) := LogWriter.openFile dir mergedId
    match mergeLoop s.readers (inFileOrder s.keydir)
        { writer := writer
          dir := dir
          keydir := ∅
          hints := []
          bytes := 0 } with
    | Except.error e => Except.error e
    | Except.ok m =>
        let (writer, dir) := m.writer.sync m.dir
        let dir := Hint.write dir mergedId writer.offset m.hints
        let dir := removeFiles dir oldIds
        Except.ok
          { s with
            dir := dir
            readers := [mergedId]
            keydir := m.keydir
            activeHints := m.hints
            writer := writer
            liveBytes := m.bytes
            diskBytes := m.bytes }

end Store

/-!
# Opening
-/

/-- The scan of `openWith`: what it recovers, and where and why it stopped if
that was not a clean end.  Each turn takes at least one byte. -/
def scanLoop : Nat -> Scanner -> List HintEntry × Option (Nat × String)
  | 0, _ => ([], none)
  | turns + 1, scanner =>
      match scanner.nextRecord with
      | (ScanOutcome.record found, scanner) =>
          let (entries, torn) := scanLoop turns scanner
          ({ key := found.key
             offset := found.offset
             len := found.len
             tstamp := found.header.tstamp
             tombstone := found.header.isTombstone } :: entries, torn)
      | (ScanOutcome.eof, _) => ([], none)
      | (ScanOutcome.torn offset detail, _) => ([], some (offset, detail))

/-- The records of one data file, from its hint as far as that goes and from the
file itself after it. -/
def readEntries (dir : Dir) (opts : Options) (id : FileId) (isNewest : Bool) :
    Except Error (List HintEntry × Dir) :=
  let fileLen := (dir.disk.contents id).length
  let (entries, hinted) :=
    if opts.verifyOnOpen then ([], 0)
    else (Hint.load dir.disk id fileLen).getD ([], 0)
  if hinted < fileLen then
    let (found, torn) := scanLoop (fileLen + 1) (Scanner.openAt dir id hinted)
    match torn with
    | some (offset, detail) =>
        if !isNewest then Except.error (Error.corrupt id offset detail)
        else
          Except.ok (entries ++ found, (dir.setLen id offset).syncData id)
    | none =>
        if isNewest then Except.ok (entries ++ found, dir)
        else
          Except.ok (entries ++ found,
            Hint.write (dir.syncData id) id fileLen (entries ++ found))
  else Except.ok (entries, dir)

structure Opening where
  dir : Dir
  keydir : Keydir := ∅
  liveBytes : Nat := 0
  diskBytes : Nat := 0
  activeHints : List HintEntry := []

def indexEntry (id : FileId) (o : Opening) (e : HintEntry) : Opening :=
  let oldLen :=
    match o.keydir.lookup e.key with
    | some old => old.len.toNat
    | none => 0
  if e.tombstone then
    { o with
      diskBytes := o.diskBytes + e.len.toNat
      liveBytes := o.liveBytes - oldLen
      keydir := o.keydir.erase e.key }
  else
    { o with
      diskBytes := o.diskBytes + e.len.toNat
      liveBytes := o.liveBytes - oldLen + e.len.toNat
      keydir := o.keydir.insert e.key
        { fileId := id
          offset := e.offset
          len := e.len
          tstamp := e.tstamp } }

def openLoop (opts : Options) (newest : Option FileId) :
    List FileId -> Opening -> Except Error Opening
  | [], o => Except.ok o
  | id :: rest, o =>
      let isNewest := newest == some id
      match readEntries o.dir opts id isNewest with
      | Except.error e => Except.error e
      | Except.ok (entries, dir) =>
          let o := entries.foldl (indexEntry id) { o with dir := dir }
          openLoop opts newest rest
            (if isNewest then { o with activeHints := entries } else o)

/-- Merges that were never renamed into place, and hints whose data file is
gone. -/
def removeLeftovers (dir : Dir) (ids : List FileId) : Dir :=
  let dir := dir.disk.parts.keys.foldl Dir.removePart dir
  (dir.disk.hints.keys.filter (fun id => !ids.contains id)).foldl
    Dir.removeHint dir

def Store.openWith (dir : Dir) (opts : Options) : Except Error Store :=
  let ids := dir.disk.listDataFiles
  let newest := ids.getLast?
  match openLoop opts newest ids { dir := removeLeftovers dir ids } with
  | Except.error e => Except.error e
  | Except.ok o =>
      let activeId := newest.getD 1
      let (writer, dir) := LogWriter.openFile o.dir activeId
      Except.ok
        { dir := dir
          keydir := o.keydir
          readers := ids.insert activeId
          writer := writer
          opts := opts
          liveBytes := o.liveBytes
          diskBytes := o.diskBytes
          activeHints := o.activeHints
          compacting := false
          restoring := false }

end Minicask
