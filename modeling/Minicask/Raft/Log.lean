import Minicask.Bytes

/-!
# The replicated log and its storage

The data of `raft/log.rs`: members, commands, entries, the log after a snapshot,
and the in-memory storage a node keeps across restarts.  Its operations never
fail, so they are total functions on the storage.
-/

namespace Minicask
namespace Raft

abbrev NodeId := Nat

structure Member where
  id : NodeId
  context : Bytes
  learner : Bool
deriving Repr, DecidableEq

/-- A count, then each id, a flags byte, and the context, length first. -/
def encodeMembers (members : List Member) : Bytes :=
  leBytes 4 members.length ++
    members.flatMap (fun member =>
      leBytes 8 member.id ++ [if member.learner then 1 else 0] ++
        leBytes 4 member.context.length ++ member.context)

inductive Command where
  | noop
  | data (bytes : Bytes)
  | config (members : List Member)
deriving Repr, DecidableEq

def Command.isConfig : Command -> Bool
  | Command.config _ => true
  | _ => false

structure Entry where
  term : Nat
  index : Nat
  command : Command
deriving Repr, DecidableEq

/-- Fixed bytes of an entry on the wire: term, index, tag, length. -/
def entryOverhead : Nat := 8 + 8 + 1 + 8

def Entry.encodedLen (e : Entry) : Nat :=
  entryOverhead +
    match e.command with
    | Command.noop => 0
    | Command.data bytes => bytes.length
    | Command.config members => (encodeMembers members).length

structure HardState where
  term : Nat := 0
  votedFor : Option NodeId := none
deriving Repr, DecidableEq

structure SnapshotMeta where
  index : Nat := 0
  term : Nat := 0
deriving Repr, DecidableEq

/-!
# The log after a snapshot
-/

structure EntryLog where
  base : SnapshotMeta := {}
  entries : List Entry := []
deriving Repr, DecidableEq

namespace EntryLog

def lastIndex (log : EntryLog) : Nat :=
  match log.entries.getLast? with
  | some e => e.index
  | none => log.base.index

def position (log : EntryLog) (index : Nat) : Option Nat :=
  if index <= log.base.index ∨ index > log.lastIndex then none
  else some (index - log.base.index - 1)

def entry (log : EntryLog) (index : Nat) : Option Entry :=
  (log.position index).bind (fun p => log.entries[p]?)

def termAt (log : EntryLog) (index : Nat) : Option Nat :=
  if index = log.base.index then some log.base.term
  else (log.entry index).map Entry.term

def entriesFrom (log : EntryLog) (index : Nat) : List Entry :=
  match log.position (max index (log.base.index + 1)) with
  | some p => log.entries.drop p
  | none => []

def push (log : EntryLog) (e : Entry) : EntryLog :=
  { log with entries := log.entries ++ [e] }

def truncateFrom (log : EntryLog) (index : Nat) : EntryLog :=
  let keep :=
    if index <= log.base.index then 0
    else min (index - log.base.index - 1) log.entries.length
  { log with entries := log.entries.take keep }

/-- Fold everything up to the snapshot away, keeping what follows only if it
agrees with the snapshot.  The flag says whether the snapshot was newer. -/
def compact (log : EntryLog) (about : SnapshotMeta) : Bool × EntryLog :=
  if about.index <= log.base.index then (false, log)
  else
    let kept :=
      if log.termAt about.index = some about.term then
        log.entries.drop (about.index - log.base.index)
      else []
    (true, { base := about, entries := kept })

end EntryLog

theorem foldl_push (es : List Entry) (log : EntryLog) :
    es.foldl EntryLog.push log = { log with entries := log.entries ++ es } := by
  induction es generalizing log with
  | nil => simp
  | cons e es ih => simp [ih, EntryLog.push]

/-!
# Storage
-/

structure MemSnapshot where
  about : SnapshotMeta
  members : Option (List Member)
  data : Bytes
deriving Repr, DecidableEq

def MemSnapshot.written (sink : MemSnapshot) : Nat :=
  sink.data.length

def MemSnapshot.writeAll (sink : MemSnapshot) (data : Bytes) : MemSnapshot :=
  { sink with data := sink.data ++ data }

structure MemStorage where
  hardState : HardState := {}
  log : EntryLog := {}
  snapshot : Bytes := []
  snapshotMembers : Option (List Member) := none
deriving Repr, DecidableEq

namespace MemStorage

def saveHardState (s : MemStorage) (state : HardState) : MemStorage :=
  { s with hardState := state }

def lastIndex (s : MemStorage) : Nat :=
  s.log.lastIndex

def termAt (s : MemStorage) (index : Nat) : Option Nat :=
  s.log.termAt index

def entry (s : MemStorage) (index : Nat) : Option Entry :=
  s.log.entry index

def entriesFrom (s : MemStorage) (index : Nat) : List Entry :=
  s.log.entriesFrom index

def append (s : MemStorage) (entries : List Entry) : MemStorage :=
  { s with log := entries.foldl EntryLog.push s.log }

def truncateFrom (s : MemStorage) (index : Nat) : MemStorage :=
  { s with log := s.log.truncateFrom index }

def snapshotMeta (s : MemStorage) : SnapshotMeta :=
  s.log.base

def snapshotLen (s : MemStorage) : Nat :=
  s.snapshot.length

def readSnapshot (s : MemStorage) (offset len : Nat) : Bytes :=
  let start := min offset s.snapshot.length
  let stop := min (start + len) s.snapshot.length
  (s.snapshot.drop start).take (stop - start)

def newSnapshot (about : SnapshotMeta) (members : Option (List Member)) :
    MemSnapshot :=
  { about := about, members := members, data := [] }

def installSnapshot (s : MemStorage) (sink : MemSnapshot) : MemStorage :=
  match s.log.compact sink.about with
  | (true, log) =>
      { s with
        log := log
        snapshot := sink.data
        snapshotMembers := sink.members }
  | (false, _) => s

/-!
# Convenience queries

`StorageExt`, which every storage gets for free.
-/

def firstIndex (s : MemStorage) : Nat :=
  s.snapshotMeta.index + 1

def lastTerm (s : MemStorage) : Nat :=
  (s.termAt s.lastIndex).getD 0

def isUpToDate (s : MemStorage) (lastIndex lastTerm : Nat) : Bool :=
  lastTerm > s.lastTerm ||
    (lastTerm == s.lastTerm && lastIndex >= s.lastIndex)

def indices (first last : Nat) : List Nat :=
  List.range' first (last + 1 - first)

def firstIndexOfTerm (s : MemStorage) (term : Nat) : Nat :=
  ((indices s.firstIndex s.lastIndex).find?
    (fun i => s.termAt i == some term)).getD s.firstIndex

def lastIndexOfTerm (s : MemStorage) (term : Nat) : Option Nat :=
  (indices s.snapshotMeta.index s.lastIndex).reverse.find?
    (fun i => 0 < i && s.termAt i == some term)

def entriesWithinLoop (s : MemStorage) (maxBytes : Nat) :
    List Nat -> List Entry -> Nat -> List Entry
  | [], out, _ => out
  | i :: rest, out, total =>
      match s.entry i with
      | none => out
      | some e =>
          if !out.isEmpty && total + e.encodedLen > maxBytes then out
          else entriesWithinLoop s maxBytes rest (out ++ [e])
            (total + e.encodedLen)

def entriesWithin (s : MemStorage) (index maxBytes : Nat) : List Entry :=
  entriesWithinLoop s maxBytes
    (indices (max index s.firstIndex) s.lastIndex) [] 0

end MemStorage

end Raft
end Minicask
