import Minicask.Store.Directory
import Minicask.Raft.Members

/-!
# Consensus state on disk

`raft/storage.rs`: the hard state and the snapshot, each replaced whole, and the
entries after the snapshot, one record for each, in a file of their own.  As in
the store's directory, every state the files have been through is remembered.
What is written beside a file and renamed over it shows only once it is renamed.
-/

namespace Minicask
namespace Raft

def hardStateLen : Nat := 20

def noVote : Nat := 2 ^ 64 - 1

/-- The first four bytes of a snapshot file, "MCS2". -/
def snapshotMagic : Bytes := [0x4D, 0x43, 0x53, 0x32]

def oldSnapshotHeaderLen : Nat := 4 + 8 + 8

def noMembers : Nat := u32Max

def configEntry : UInt8 := 1

/-- The files of one node.  A missing entries file is as good as an empty one. -/
structure RaftDisk where
  hardState : Option Bytes := none
  entries : File := {}
  snapshot : Option Bytes := none
  parts : AList (fun _ : Nat => Bytes) := ∅

structure RaftDir where
  disk : RaftDisk := {}
  past : List RaftDisk := []

/-- A write in the middle of a file.  What lies past it stays as it was. -/
def overwrite (bytes : Bytes) (start : Nat) (more : Bytes) : Bytes :=
  bytes.take start ++ more ++ bytes.drop (start + more.length)

/-- Written through a handle that was moved to `start`, at most the file's end. -/
def File.writeAt (file : File) (start : Nat) (more : Bytes) : File where
  bytes := overwrite file.bytes start more
  synced := min file.synced start
  synced_le := by
    have := file.synced_le
    simp only [overwrite, List.length_append, List.length_take]
    omega

namespace RaftDir

def move (dir : RaftDir) (disk : RaftDisk) : RaftDir where
  disk := disk
  past := dir.disk :: dir.past

def writeHardState (dir : RaftDir) (bytes : Bytes) : RaftDir :=
  dir.move { dir.disk with hardState := some bytes }

def writeAt (dir : RaftDir) (start : Nat) (bytes : Bytes) : RaftDir :=
  dir.move { dir.disk with entries := File.writeAt dir.disk.entries start bytes }

def setLen (dir : RaftDir) (len : Nat) : RaftDir :=
  dir.move { dir.disk with entries := dir.disk.entries.setLen len }

def syncAll (dir : RaftDir) : RaftDir :=
  dir.move { dir.disk with entries := dir.disk.entries.syncData }

def replaceEntries (dir : RaftDir) (bytes : Bytes) : RaftDir :=
  dir.move { dir.disk with
    entries := File.syncData (File.writeAll File.empty bytes) }

def writePart (dir : RaftDir) (part : Nat) (bytes : Bytes) : RaftDir :=
  dir.move { dir.disk with parts := dir.disk.parts.insert part bytes }

def removePart (dir : RaftDir) (part : Nat) : RaftDir :=
  dir.move { dir.disk with parts := dir.disk.parts.erase part }

def renamePart (dir : RaftDir) (part : Nat) (bytes : Bytes) : RaftDir :=
  dir.move { dir.disk with
    snapshot := some bytes
    parts := dir.disk.parts.erase part }

/-- None of the snapshots that were being written was installed. -/
def removeStrayParts (dir : RaftDir) : RaftDir :=
  dir.disk.parts.keys.foldl removePart dir

end RaftDir

/-!
# Entries

An entry is a record, its index and term the key.  A membership has one byte more in
its key.
-/

def entryKey (index term : Nat) : Bytes :=
  leBytes 8 index ++ leBytes 8 term

def encodeEntry (stamp : UInt64) (entry : Entry) : Except Error Bytes :=
  let key := entryKey entry.index entry.term
  match entry.command with
  | Command.noop => encode key none stamp
  | Command.data bytes => encode key (some bytes) stamp
  | Command.config members =>
      encode (key ++ [configEntry]) (some (encodeMembers members)) stamp

/-- A batch of entries from some offset on, and where each of them starts. -/
def encodeEntries (stamp : Entry -> UInt64) :
    Nat -> List Entry -> Except Error (List Nat × Bytes)
  | _, [] => Except.ok ([], [])
  | start, entry :: rest =>
      (encodeEntry (stamp entry) entry).bind (fun bytes =>
        (encodeEntries stamp (start + bytes.length) rest).map
          (fun (offsets, buf) => (start :: offsets, bytes ++ buf)))

def isConfigKey (offset : Nat) (key : Bytes) : Except Error Bool :=
  if key.length = 16 then Except.ok false
  else if key.length = 17 ∧ key[16]? = some configEntry then Except.ok true
  else
    Except.error
      (Error.corrupt 0 offset "raft log entry has a malformed key")

def checkOrder (offset : Nat) (last : Option Entry) (index : Nat) :
    Except Error Unit :=
  match last with
  | some last =>
      if index ≠ last.index + 1 then
        Except.error
          (Error.corrupt 0 offset "raft log entries are out of order")
      else Except.ok ()
  | none =>
      if index = 0 then
        Except.error (Error.corrupt 0 offset "raft log entry has index 0")
      else Except.ok ()

def decodeCommand (offset : Nat) (config tombstone : Bool) (value : Bytes) :
    Except Error Command :=
  if config then
    match decodeMembers value with
    | some members => Except.ok (Command.config members)
    | none =>
        Except.error
          (Error.corrupt 0 offset "raft log membership entry is malformed")
  else if tombstone then Except.ok Command.noop
  else Except.ok (Command.data value)

def decodeEntry (offset : Nat) (last : Option Entry) (header : Header)
    (key value : Bytes) : Except Error Entry :=
  if !header.verify key value then
    Except.error (Error.corrupt 0 offset "checksum mismatch in the raft log")
  else
    (isConfigKey offset key).bind (fun config =>
      let index := fromLe (slice key 0 8)
      let term := fromLe (slice key 8 16)
      (checkOrder offset last index).bind (fun _ =>
        (decodeCommand offset config header.isTombstone value).map
          (fun command =>
            { term := term, index := index, command := command })))

/-- The entries read back so far, and where the next record would start. -/
structure Recovered where
  entries : List Entry := []
  offsets : List Nat := []
  stop : Nat := 0
deriving DecidableEq

/-- The loop of `recover`.  A record takes up at least a header, so there are
fewer turns than bytes.  A body always fits in memory where `usize` has sixty-four
bits. -/
def recoverLoop (size : Nat) :
    Nat -> Bytes -> Recovered -> Except Error Recovered
  | 0, _, found => Except.ok found
  | turns + 1, rest, found =>
      if rest.length < headerLen then Except.ok found
      else
        let header := Header.decode (rest.take headerLen)
        if header.recordLen > size - found.stop then Except.ok found
        else
          let bodyLen := header.keyLen.toNat + header.valueLen.toNat
          let body := (rest.drop headerLen).take bodyLen
          if body.length < bodyLen then Except.ok found
          else
            (decodeEntry found.stop found.entries.getLast? header
              (body.take header.keyLen.toNat)
              (body.drop header.keyLen.toNat)).bind (fun entry =>
                recoverLoop size turns (rest.drop header.recordLen)
                  { entries := found.entries ++ [entry]
                    offsets := found.offsets ++ [found.stop]
                    stop := found.stop + header.recordLen })

/-- Read the log back, up to the first record that a crash could have left
half-written, and cut the file there. -/
def recover (dir : RaftDir) : Except Error (Recovered × RaftDir) :=
  let bytes := dir.disk.entries.bytes
  (recoverLoop bytes.length (bytes.length + 1) bytes {}).bind (fun found =>
    if found.stop ≠ bytes.length then
      Except.ok (found, (dir.setLen found.stop).syncAll)
    else Except.ok (found, dir))

/-!
# The hard state
-/

def encodeHardState (state : HardState) : Bytes :=
  let body := leBytes 8 state.term ++ leBytes 8 (state.votedFor.getD noVote)
  leBytes 4 (Crc.crc32Parts [body]).toNat ++ body

def readHardState (file : Option Bytes) : Except Error HardState :=
  match file with
  | none => Except.ok {}
  | some bytes =>
      if bytes.length < hardStateLen then Except.ok {}
      else
        let buf := bytes.take hardStateLen
        if Crc.crc32Parts [buf.drop 4] ≠
            UInt32.ofNat (fromLe (slice buf 0 4)) then
          Except.error
            (Error.corrupt 0 0 "checksum mismatch in the raft hard state")
        else
          let voted := fromLe (slice buf 12 20)
          Except.ok
            { term := fromLe (slice buf 4 12)
              votedFor := if voted ≠ noVote then some voted else none }

/-!
# Snapshots

A snapshot is written to a part file, whose header is filled in last, and then takes the
place of the one before.
-/

def snapshotHeader (about : SnapshotMeta) (members : Option (List Member)) :
    Bytes :=
  leBytes 8 about.index ++ leBytes 8 about.term ++
    match members with
    | some members =>
        leBytes 4 (encodeMembers members).length ++ encodeMembers members
    | none => leBytes 4 noMembers

structure SnapshotHeader where
  about : SnapshotMeta := {}
  members : Option (List Member) := none
  dataAt : Nat := 0
  dataLen : Nat := 0
deriving DecidableEq

def snapshotCorrupt (detail : String) : Error :=
  Error.corrupt 0 0 detail

/-- The membership after the fixed part of a header, its bytes, and how many there
are. -/
def readSnapshotMembers (bytes : Bytes) (membersLen : Nat) :
    Except Error (Option (List Member) × Bytes) :=
  if membersLen = noMembers then Except.ok (none, [])
  else
    let encoded := slice bytes 28 (28 + membersLen)
    if encoded.length < membersLen then
      Except.error
        (snapshotCorrupt "the raft snapshot is shorter than its header")
    else
      match decodeMembers encoded with
      | some members => Except.ok (some members, encoded)
      | none =>
          Except.error
            (snapshotCorrupt "the raft snapshot's membership is malformed")

/-- What the snapshot file covers and how big its data is, the whole file being
checked on the way.  A file without the marker is from before membership could
change. -/
def readSnapshotHeader (file : Option Bytes) : Except Error SnapshotHeader :=
  match file with
  | none => Except.ok {}
  | some bytes =>
      let short :=
        snapshotCorrupt "the raft snapshot is shorter than its header"
      let mismatch :=
        snapshotCorrupt "checksum mismatch in the raft snapshot"
      if bytes.length < 4 then Except.error short
      else if bytes.take 4 = snapshotMagic then
        let fixed := slice bytes 4 28
        if fixed.length < 24 then Except.error short
        else
          (readSnapshotMembers bytes (fromLe (slice fixed 20 24))).bind
            (fun (members, encoded) =>
              let dataAt := 28 + encoded.length
              let data := bytes.drop dataAt
              if Crc.crc32Parts [fixed.drop 4, encoded, data] ≠
                  UInt32.ofNat (fromLe (slice fixed 0 4)) then
                Except.error mismatch
              else
                Except.ok
                  { about :=
                      { index := fromLe (slice fixed 4 12)
                        term := fromLe (slice fixed 12 20) }
                    members := members
                    dataAt := dataAt
                    dataLen := data.length })
      else
        let rest := slice bytes 4 oldSnapshotHeaderLen
        if rest.length < oldSnapshotHeaderLen - 4 then Except.error short
        else
          let data := bytes.drop oldSnapshotHeaderLen
          if Crc.crc32Parts [rest, data] ≠
              UInt32.ofNat (fromLe (bytes.take 4)) then
            Except.error mismatch
          else
            Except.ok
              { about :=
                  { index := fromLe (slice rest 0 8)
                    term := fromLe (slice rest 8 16) }
                members := none
                dataAt := oldSnapshotHeaderLen
                dataLen := data.length }

/-- A snapshot on its way to disk: a part file with room at the front for the
header, whose checksum is only known at the end. -/
structure DiskSnapshot where
  about : SnapshotMeta
  members : Option (List Member)
  header : Bytes
  part : Nat
  crc : UInt32
  written : Nat
deriving DecidableEq

/-!
# The storage
-/

structure DiskStorage where
  dir : RaftDir
  hardState : HardState
  log : EntryLog
  /-- Where each held entry starts in the entries file. -/
  offsets : List Nat
  endAt : Nat
  snapshotLen : Nat
  snapshotDataAt : Nat
  snapshotMembers : Option (List Member)
  nextPart : Nat

namespace DiskStorage

def rewriteEntries (s : DiskStorage) (stamp : Entry -> UInt64) :
    Except Error DiskStorage :=
  (encodeEntries stamp 0 s.log.entries).map (fun (offsets, buf) =>
    { s with
      dir := s.dir.replaceEntries buf
      offsets := offsets
      endAt := buf.length })

/-- Open a directory, recovering whatever a previous run left behind.  Entries
that the snapshot already covers are dealt with by the rule that taking the
snapshot applies. -/
def openDir (dir : RaftDir) (stamp : Entry -> UInt64) :
    Except Error DiskStorage :=
  (readHardState dir.disk.hardState).bind (fun hardState =>
    (readSnapshotHeader dir.disk.snapshot).bind (fun header =>
      (recover dir.removeStrayParts).bind (fun (found, dir) =>
        let s : DiskStorage :=
          { dir := dir
            hardState := hardState
            log := {}
            offsets := found.offsets
            endAt := found.stop
            snapshotLen := header.dataLen
            snapshotDataAt := header.dataAt
            snapshotMembers := header.members
            nextPart := 0 }
        match found.entries.head? with
        | none =>
            Except.ok
              { s with
                log := { base := header.about, entries := found.entries } }
        | some first =>
            if first.index = header.about.index + 1 then
              Except.ok
                { s with
                  log := { base := header.about, entries := found.entries } }
            else if first.index <= header.about.index then
              let log : EntryLog :=
                { base := { index := first.index - 1, term := 0 }
                  entries := found.entries }
              { s with log := (log.compact header.about).2 }.rewriteEntries
                stamp
            else
              Except.error
                (Error.corrupt 0 0
                  "the raft log does not begin where the snapshot ends"))))

def saveHardState (s : DiskStorage) (state : HardState) : DiskStorage :=
  if state = s.hardState then s
  else
    { s with
      dir := s.dir.writeHardState (encodeHardState state)
      hardState := state }

def lastIndex (s : DiskStorage) : Nat :=
  s.log.lastIndex

def termAt (s : DiskStorage) (index : Nat) : Option Nat :=
  s.log.termAt index

def entry (s : DiskStorage) (index : Nat) : Option Entry :=
  s.log.entry index

def entriesFrom (s : DiskStorage) (index : Nat) : List Entry :=
  s.log.entriesFrom index

def append (s : DiskStorage) (stamp : Entry -> UInt64)
    (entries : List Entry) : Except Error DiskStorage :=
  if entries.isEmpty then Except.ok s
  else
    (encodeEntries stamp s.endAt entries).map (fun (offsets, buf) =>
      { s with
        dir := (s.dir.writeAt s.endAt buf).syncAll
        endAt := s.endAt + buf.length
        log := entries.foldl EntryLog.push s.log
        offsets := s.offsets ++ offsets })

/-- An append that fails once some of its bytes have reached the file: in the
write, or in the sync after it. -/
def refusedAppend (s : DiskStorage) (stamp : Entry -> UInt64)
    (entries : List Entry) (reached : Nat) : Except Error DiskStorage :=
  (encodeEntries stamp s.endAt entries).map (fun (_, buf) =>
    { s with dir := s.dir.writeAt s.endAt (buf.take reached) })

def truncateFrom (s : DiskStorage) (index : Nat) : DiskStorage :=
  let log := s.log.truncateFrom index
  let keep := log.entries.length
  match s.offsets[keep]? with
  | none => { s with log := log }
  | some start =>
      { s with
        dir := (s.dir.setLen start).syncAll
        log := log
        offsets := s.offsets.take keep
        endAt := start }

def snapshotMeta (s : DiskStorage) : SnapshotMeta :=
  s.log.base

def readSnapshot (s : DiskStorage) (offset len : Nat) : Except Error Bytes :=
  if offset >= s.snapshotLen then Except.ok []
  else
    let len := min len (s.snapshotLen - offset)
    match s.dir.disk.snapshot with
    | none => Except.error (Error.io "No such file or directory")
    | some bytes =>
        let start := s.snapshotDataAt + offset
        if start + len <= bytes.length then
          Except.ok (slice bytes start (start + len))
        else Except.error (Error.io "failed to fill whole buffer")

def newSnapshot (s : DiskStorage) (about : SnapshotMeta)
    (members : Option (List Member)) : DiskSnapshot × DiskStorage :=
  let part := s.nextPart + 1
  let header := snapshotHeader about members
  ({ about := about
     members := members
     header := header
     part := part
     crc := Crc.update 0xFFFFFFFF header
     written := 0 },
    { s with
      nextPart := part
      dir := s.dir.writePart part (List.replicate (8 + header.length) 0) })

def writeSnapshot (s : DiskStorage) (sink : DiskSnapshot) (data : Bytes) :
    DiskSnapshot × DiskStorage :=
  let file := (s.dir.disk.parts.lookup sink.part).getD []
  ({ sink with
      crc := Crc.update sink.crc data
      written := sink.written + data.length },
    { s with dir := s.dir.writePart sink.part (file ++ data) })

def finishPart (sink : DiskSnapshot) (file : Bytes) : Bytes :=
  overwrite file 0
    (snapshotMagic ++ leBytes 4 (sink.crc ^^^ 0xFFFFFFFF).toNat ++ sink.header)

def dropSnapshot (s : DiskStorage) (sink : DiskSnapshot) : DiskStorage :=
  { s with dir := s.dir.removePart sink.part }

/-- The snapshot first, so that there is something durable to stand for the old
entries when they go. -/
def installSnapshot (s : DiskStorage) (stamp : Entry -> UInt64)
    (sink : DiskSnapshot) : Except Error DiskStorage :=
  if sink.about.index <= s.log.base.index then
    Except.ok (s.dropSnapshot sink)
  else
    match s.dir.disk.parts.lookup sink.part with
    | none => Except.error (Error.io "No such file or directory")
    | some file =>
        let bytes := finishPart sink file
        let dir := (s.dir.writePart sink.part bytes).renamePart sink.part bytes
        { s with
          dir := dir
          snapshotLen := sink.written
          snapshotDataAt := 8 + sink.header.length
          snapshotMembers := sink.members
          log := (s.log.compact sink.about).2 }.rewriteEntries stamp

end DiskStorage

end Raft
end Minicask
