import Minicask.Raft.Node
import Minicask.Store.Jobs

/-!
# The store, driven by consensus

`replicated.rs`: a consensus node and the store it drives.  Writes are proposed,
and take effect on the store once the node hands them over as committed.
-/

namespace Minicask
namespace Replicated

open Raft

/-- What an operation finds outside the replica: the two readings of the clock
that a write in some state takes, and whether the share of the files that is dead,
a quotient of floats, comes out as more than a half. -/
structure Env where
  clock : Store -> UInt64 × UInt64
  fragmented : Stats -> Bool

/-!
# Commands
-/

inductive Op where
  | put (key value : Bytes)
  | delete (key : Bytes)
deriving Repr, DecidableEq

namespace Op

def encode (op : Op) (now : UInt64) : Except Error Bytes :=
  match op with
  | put key value => Minicask.encode key (some value) now
  | delete key => Minicask.encode key none now

def decode (bytes : Bytes) : Except Error Op :=
  let corrupt := Error.corrupt 0 0
  if bytes.length < headerLen then
    Except.error (corrupt "replicated command is shorter than a header")
  else
    let header := Header.decode (bytes.take headerLen)
    if header.recordLen ≠ bytes.length then
      Except.error
        (corrupt "replicated command length does not match its header")
    else
      let key := (bytes.drop headerLen).take header.keyLen.toNat
      let value := (bytes.drop headerLen).drop header.keyLen.toNat
      if !header.verify key value then
        Except.error (corrupt "checksum mismatch on a replicated command")
      else if header.isTombstone then Except.ok (delete key)
      else Except.ok (put key value)

end Op

/-!
# Snapshots
-/

/-- The store's live contents: one record for each key, in key order.  A
timestamp of zero, so that the bytes depend on the contents alone. -/
def writeSnapshot (view : StoreView) (dir : Dir) (out : MemSnapshot) :
    Except Error MemSnapshot :=
  view.forEach dir (fun out key value =>
    (encode key (some value) 0).map out.writeAll) out

/-- A snapshot being read back, one record at a time. -/
structure SnapshotRecords where
  /-- What is left of the stream. -/
  reader : Bytes
  offset : Nat := 0
  previous : Option Bytes := none

namespace SnapshotRecords

def nextRecord (records : SnapshotRecords) :
    Except Error (Option ((Bytes × Bytes) × SnapshotRecords)) :=
  let corrupt := Error.corrupt 0 records.offset
  let header := records.reader.take headerLen
  let rest := records.reader.drop headerLen
  if header.length = 0 then Except.ok none
  else if header.length ≠ headerLen then
    Except.error (corrupt "snapshot ends inside a record header")
  else
    let header := Header.decode header
    let key := rest.take header.keyLen.toNat
    let value := (rest.drop header.keyLen.toNat).take header.valueLen.toNat
    if key.length < header.keyLen.toNat ∨
        value.length < header.valueLen.toNat then
      Except.error (corrupt "snapshot ends inside a record")
    else if !header.verify key value then
      Except.error (corrupt "checksum mismatch in a snapshot record")
    else if header.isTombstone then
      Except.error (corrupt "a snapshot holds live keys, never deletions")
    else if records.previous.any (fun p => key <= p) then
      Except.error (corrupt "snapshot keys are not in order")
    else
      Except.ok (some ((key, value),
        { reader := (rest.drop header.keyLen.toNat).drop header.valueLen.toNat
          offset := records.offset + header.recordLen
          previous := some key }))

/-- Do something with every record, until one of them cannot be read.  Each turn
takes at least a header. -/
def forEach (f : acc -> Bytes -> Bytes -> Except Error acc) :
    Nat -> SnapshotRecords -> acc -> Except Error acc
  | 0, _, found => Except.ok found
  | turns + 1, records, found =>
      match records.nextRecord with
      | Except.error e => Except.error e
      | Except.ok none => Except.ok found
      | Except.ok (some ((key, value), records)) =>
          (f found key value).bind (forEach f turns records)

def readAll (data : Bytes) (f : acc -> Bytes -> Bytes -> Except Error acc)
    (start : acc) : Except Error acc :=
  forEach f (data.length + 1) { reader := data } start

end SnapshotRecords

/-!
# The applied index
-/

def readApplied (dir : Dir) : Nat :=
  match dir.disk.appliedIndex with
  | none => 0
  | some bytes =>
      if bytes.length ≠ 12 then 0
      else if Crc.crc32Parts [bytes.drop 4] ≠
          UInt32.ofNat (fromLe (slice bytes 0 4)) then 0
      else fromLe (slice bytes 4 12)

def encodeApplied (index : Nat) : Bytes :=
  let body := leBytes 8 index
  leBytes 4 (Crc.crc32Parts [body]).toNat ++ body

def writeApplied (store : Store) (index : Nat) : Store :=
  { store with dir := store.dir.writeAppliedIndex (encodeApplied index) }

/-!
# The replica
-/

def defaultSnapshotEvery : Nat := 10000

structure ReplicatedStore where
  node : Node
  store : Store
  applied : Nat
  snapshotEvery : Nat
  /-- Snapshots are left to the caller rather than taken inline. -/
  backgroundSnapshots : Bool
  snapshotting : Bool
  compactionDue : Bool
  restoring : Bool

structure SnapshotJob where
  view : StoreView
  sink : MemSnapshot

structure RestoreJob where
  job : Minicask.RestoreJob
  reader : Bytes
  index : Nat

structure RestoredStore where
  file : RestoredFile
  index : Nat

def SnapshotJob.run (job : SnapshotJob) (dir : Dir) :
    Except Error MemSnapshot :=
  writeSnapshot job.view dir job.sink

def RestoreJob.run (job : RestoreJob) (dir : Dir) :
    Except Error (RestoredStore × Dir) :=
  (SnapshotRecords.readAll job.reader Minicask.RestoreJob.push job.job).bind
    (fun done =>
      let (file, dir) := done.finish dir
      Except.ok ({ file := file, index := job.index }, dir))

/-- One record of a snapshot against the keys the store holds, in order.  What
sorts before it is absent from the snapshot, so the cluster deleted it. -/
def restoreRecord (env : Env) (state : Store × List Bytes)
    (key value : Bytes) : Except Error (Store × List Bytes) :=
  let (store, held) := state
  let stale := held.takeWhile (· < key)
  let held := held.dropWhile (· < key)
  (stale.foldlM (fun (store : Store) stale =>
    (store.deleteDeferred stale (env.clock store).1 (env.clock store).2).map
      Prod.fst) store).bind (fun store =>
    let held := if held.head? = some key then held.tail else held
    (store.get key).bind (fun found =>
      if found ≠ some value then
        (store.putDeferred key value (env.clock store).1
          (env.clock store).2).map (fun store => (store, held))
      else Except.ok (store, held)))

/-- Put one committed entry into the store, unless the store has it already. -/
def applyEntry (env : Env) (state : Store × Nat) (entry : Entry) :
    Except Error (Store × Nat) :=
  let (store, applied) := state
  if entry.index <= applied then Except.ok (store, applied)
  else
    match entry.command with
    | Command.noop => Except.ok (store, entry.index)
    | Command.config _ => Except.ok (store, entry.index)
    | Command.data bytes =>
        (Op.decode bytes).bind (fun op =>
          match op with
          | Op.put key value =>
              (store.putDeferred key value (env.clock store).1
                (env.clock store).2).map (fun store => (store, entry.index))
          | Op.delete key =>
              (store.deleteDeferred key (env.clock store).1
                (env.clock store).2).map (fun done => (done.1, entry.index)))

namespace ReplicatedStore

def snapshotIndex (r : ReplicatedStore) : Nat :=
  r.node.storage.snapshotMeta.index

def get (r : ReplicatedStore) (key : Bytes) : Except Error (Option Bytes) :=
  r.store.get key

/-- Make the store exactly the node's snapshot. -/
def restore (r : ReplicatedStore) (env : Env) : Except Error ReplicatedStore :=
  let index := r.snapshotIndex
  let held := r.store.keys.insertionSort (· <= ·)
  (SnapshotRecords.readAll r.node.storage.snapshot (restoreRecord env)
    (r.store, held)).bind (fun (store, held) =>
      (held.foldlM (fun (store : Store) stale =>
        (store.deleteDeferred stale (env.clock store).1
          (env.clock store).2).map Prod.fst) store).bind (fun store =>
        Except.ok
          { r with
            store := writeApplied store.sync index
            applied := index }))

/-- Join a consensus node to a store, which is brought up to the node's snapshot
if that is newer. -/
def new (node : Node) (store : Store) (env : Env) :
    Except Error ReplicatedStore :=
  let replica :=
    { node := node
      store := store
      applied := readApplied store.dir
      snapshotEvery := defaultSnapshotEvery
      backgroundSnapshots := false
      snapshotting := false
      compactionDue := false
      restoring := false }
  if replica.snapshotIndex > replica.applied then replica.restore env
  else Except.ok replica

/-!
# Taking snapshots
-/

def snapshotDue (r : ReplicatedStore) : Bool :=
  r.snapshotEvery != 0 && !r.snapshotting &&
    r.applied >= r.snapshotIndex + r.snapshotEvery

def startSnapshot (r : ReplicatedStore) :
    Option SnapshotJob × ReplicatedStore :=
  if !r.snapshotDue then (none, r)
  else
    match r.node.beginCompaction r.applied with
    | none => (none, r)
    | some sink =>
        let (view, store) := r.store.view
        (some { view := view, sink := sink },
          { r with store := store, snapshotting := true })

def finishSnapshot (r : ReplicatedStore) (env : Env) (sink : MemSnapshot) :
    Except Error ReplicatedStore :=
  let (node, installed) := r.node.finishCompaction sink
  let r := { r with node := node, snapshotting := false }
  if installed && env.fragmented r.store.stats then
    if r.backgroundSnapshots then Except.ok { r with compactionDue := true }
    else r.store.compact.map (fun store => { r with store := store })
  else Except.ok r

/-- Give up on a job that failed, so that another can be started. -/
def abandonSnapshot (r : ReplicatedStore) : ReplicatedStore :=
  { r with snapshotting := false }

/-!
# Applying
-/

/-- Put every newly committed entry into the store, in log order.  The whole
batch is synced once, before the applied index says it is there. -/
def apply (r : ReplicatedStore) (env : Env) : Except Error ReplicatedStore :=
  if r.snapshotIndex > r.applied && r.backgroundSnapshots then Except.ok r
  else
    (if r.snapshotIndex > r.applied then r.restore env
      else Except.ok r).bind (fun r =>
    let (node, entries) := r.node.takeCommitted
    (entries.foldlM (applyEntry env) (r.store, r.applied)).bind
      (fun (store, applied) =>
        let store :=
          if applied > r.applied then writeApplied store.sync applied
          else store
        let r := { r with node := node, store := store, applied := applied }
        if r.backgroundSnapshots then Except.ok r
        else
          match r.startSnapshot with
          | (none, r) => Except.ok r
          | (some job, r) =>
              (job.run r.store.dir).bind (r.finishSnapshot env)))

/-!
# Jobs on the store

A job is begun on the replica, which goes on, and is handed back when it has run, or is
given up.
-/

def startCompaction (r : ReplicatedStore) :
    Except Error (Option CompactionJob) × ReplicatedStore :=
  if !r.compactionDue then (Except.ok none, r)
  else
    let r := { r with compactionDue := false }
    match r.store.beginCompaction with
    | Except.ok (job, store) =>
        (Except.ok (some job), { r with store := store })
    | Except.error e => (Except.error e, r)

def finishCompaction (r : ReplicatedStore) (done : MergedFile) :
    ReplicatedStore :=
  { r with store := r.store.finishCompaction done }

def abandonCompaction (r : ReplicatedStore) : ReplicatedStore :=
  { r with store := r.store.abandonCompaction }

def startRestore (r : ReplicatedStore) : Option RestoreJob × ReplicatedStore :=
  if !r.backgroundSnapshots || r.restoring || r.snapshotIndex <= r.applied then
    (none, r)
  else
    match r.store.beginRestore with
    | Except.error _ => (none, r)
    | Except.ok (job, store) =>
        (some
          { job := job
            reader := r.node.storage.snapshot
            index := r.snapshotIndex },
          { r with store := store, restoring := true })

def finishRestore (r : ReplicatedStore) (env : Env) (done : RestoredStore) :
    Except Error ReplicatedStore :=
  let store := (r.store.finishRestore done.file).sync
  { r with
    restoring := false
    store := writeApplied store done.index
    applied := done.index }.apply env

def abandonRestore (r : ReplicatedStore) : ReplicatedStore :=
  { r with restoring := false, store := r.store.abandonRestore }

/-!
# Time and messages
-/

def tick (r : ReplicatedStore) (env : Env) :
    Except Error (ReplicatedStore × List Action) :=
  let (node, actions) := r.node.tick
  ({ r with node := node }.apply env).map (fun r => (r, actions))

/-- While a restore is reading the current snapshot no other is taken in its
place. -/
def step (r : ReplicatedStore) (env : Env) (sender : NodeId)
    (message : Message) : Except Error (ReplicatedStore × List Action) :=
  match r.restoring, message with
  | true, Message.installSnapshot _ _ _ _ _ _ _ _ => Except.ok (r, [])
  | _, message =>
      let (node, actions) := r.node.step sender message
      ({ r with node := node }.apply env).map (fun r => (r, actions))

/-!
# What goes straight to the node
-/

def campaign (r : ReplicatedStore) : ReplicatedStore × List Action :=
  let (node, actions) := r.node.campaign
  ({ r with node := node }, actions)

def propose (r : ReplicatedStore) (op : Op) (now : UInt64) :
    Except (Error ⊕ ProposeError) (ReplicatedStore × Nat × List Action) :=
  match op.encode now with
  | Except.error e => Except.error (Sum.inl e)
  | Except.ok bytes =>
      match r.node.propose bytes with
      | Except.error e => Except.error (Sum.inr e)
      | Except.ok (node, index, actions) =>
          Except.ok ({ r with node := node }, index, actions)

def proposeBatch (r : ReplicatedStore) (commands : List Bytes) :
    Except ProposeError
      (ReplicatedStore × List (Except ProposeError Nat) × List Action) :=
  (r.node.proposeBatch commands).map (fun (node, answers, actions) =>
    ({ r with node := node }, answers, actions))

def proposeMembership (r : ReplicatedStore) (members : List Member) :
    Except ProposeError (ReplicatedStore × Nat × List Action) :=
  (r.node.proposeMembership members).map (fun (node, index, actions) =>
    ({ r with node := node }, index, actions))

def readIndex (r : ReplicatedStore) :
    ReplicatedStore × ReadRequest × List Action :=
  let (node, request, actions) := r.node.readIndex
  ({ r with node := node }, request, actions)

/-- Ready only once the store has applied as far as the read has to see. -/
def readState (r : ReplicatedStore) (request : ReadRequest) : ReadState :=
  match r.node.readState request with
  | ReadState.ready index =>
      if r.applied < index then ReadState.pending else ReadState.ready index
  | other => other

def forgetRead (r : ReplicatedStore) (request : ReadRequest) :
    ReplicatedStore :=
  { r with node := r.node.forgetRead request }

end ReplicatedStore

end Replicated
end Minicask
