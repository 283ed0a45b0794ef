import Minicask.Replicated.Contents

/-!
# A replica and the jobs out on other threads

One replica, with at most one snapshot, one compaction and one restore out at a
time.  A job is begun on the replica, runs on its own, and is handed back; or it
is given up before what it wrote has been renamed into place.
-/

namespace Minicask
namespace Replicated

open Raft

/-!
# Events

An event is what is asked of the replica, a message that reaches its node, or a stage of
a job: begun on the replica, run without it, and handed back or given up.
-/

inductive Work (job done : Type) where
  | idle
  | started (job : job)
  | finished (result : done)

structure System where
  replica : ReplicatedStore
  snapshot : Work SnapshotJob MemSnapshot
  compaction : Work CompactionJob MergedFile
  restore : Work RestoreJob RestoredStore

inductive Event where
  | tick (env : Env)
  | step (env : Env) (sender : NodeId) (message : Message)
  | campaign
  | propose (op : Op) (now : UInt64)
  | proposeBatch (commands : List Bytes)
  | proposeMembership (members : List Member)
  | readIndex
  | forgetRead (request : ReadRequest)
  | setSnapshotEvery (entries : Nat)
  | startSnapshot
  | runSnapshot
  | finishSnapshot (env : Env)
  | abandonSnapshot
  | startCompaction
  | runCompaction
  | finishCompaction
  | abandonCompaction (left : Bytes)
  | startRestore
  | runRestore
  | finishRestore (env : Env)
  | abandonRestore

def Event.node (r : ReplicatedStore) : Event -> Node
  | tick _ => r.node.tick.1
  | step _ sender message =>
      match r.restoring, message with
      | true, Message.installSnapshot _ _ _ _ _ _ _ _ => r.node
      | _, message => (r.node.step sender message).1
  | campaign => r.node.campaign.1
  | propose op now =>
      match r.propose op now with
      | Except.ok (r, _, _) => r.node
      | Except.error _ => r.node
  | proposeBatch commands =>
      match r.proposeBatch commands with
      | Except.ok (r, _, _) => r.node
      | Except.error _ => r.node
  | proposeMembership members =>
      match r.proposeMembership members with
      | Except.ok (r, _, _) => r.node
      | Except.error _ => r.node
  | readIndex => r.node.readIndex.1
  | forgetRead request => r.node.forgetRead request
  | _ => r.node

namespace System

def withDir (s : System) (dir : Dir) : System :=
  { s with replica := { s.replica with
      store := { s.replica.store with dir := dir } } }

def accepted (s : System)
    (result : Except error (ReplicatedStore × answer × List Action)) : System :=
  match result with
  | Except.ok (replica, _, _) => { s with replica := replica }
  | Except.error _ => s

/-- An event that has nothing to act on changes nothing. -/
def next (s : System) : Event -> Except Error System
  | Event.tick env =>
      (s.replica.tick env).map (fun done => { s with replica := done.1 })
  | Event.step env sender message =>
      (s.replica.step env sender message).map (fun done =>
        { s with replica := done.1 })
  | Event.campaign => Except.ok { s with replica := s.replica.campaign.1 }
  | Event.propose op now => Except.ok (s.accepted (s.replica.propose op now))
  | Event.proposeBatch commands =>
      Except.ok (s.accepted (s.replica.proposeBatch commands))
  | Event.proposeMembership members =>
      Except.ok (s.accepted (s.replica.proposeMembership members))
  | Event.readIndex => Except.ok { s with replica := s.replica.readIndex.1 }
  | Event.forgetRead request =>
      Except.ok { s with replica := s.replica.forgetRead request }
  | Event.setSnapshotEvery entries =>
      Except.ok { s with replica := { s.replica with snapshotEvery := entries } }
  | Event.startSnapshot =>
      match s.replica.startSnapshot with
      | (none, replica) => Except.ok { s with replica := replica }
      | (some job, replica) =>
          Except.ok
            { s with replica := replica, snapshot := Work.started job }
  | Event.runSnapshot =>
      match s.snapshot with
      | Work.started job =>
          (job.run s.replica.store.dir).map (fun sink =>
            { s with snapshot := Work.finished sink })
      | _ => Except.ok s
  | Event.finishSnapshot env =>
      match s.snapshot with
      | Work.finished sink =>
          (s.replica.finishSnapshot env sink).map (fun replica =>
            { s with replica := replica, snapshot := Work.idle })
      | _ => Except.ok s
  | Event.abandonSnapshot =>
      Except.ok
        { s with
          replica := s.replica.abandonSnapshot
          snapshot := Work.idle }
  | Event.startCompaction =>
      match s.replica.startCompaction with
      | (Except.ok (some job), replica) =>
          Except.ok
            { s with replica := replica, compaction := Work.started job }
      | (_, replica) => Except.ok { s with replica := replica }
  | Event.runCompaction =>
      match s.compaction with
      | Work.started job =>
          (job.run s.replica.store.dir).map (fun (merged, dir) =>
            { s.withDir dir with compaction := Work.finished merged })
      | _ => Except.ok s
  | Event.finishCompaction =>
      match s.compaction with
      | Work.finished merged =>
          Except.ok
            { s with
              replica := s.replica.finishCompaction merged
              compaction := Work.idle }
      | _ => Except.ok s
  | Event.abandonCompaction left =>
      -- What the job had written of its file stays behind.
      match s.compaction with
      | Work.started job =>
          let dir := s.replica.store.dir.writePart job.mergedId left
          Except.ok
            { s.withDir dir with
              replica := (s.withDir dir).replica.abandonCompaction
              compaction := Work.idle }
      | _ => Except.ok s
  | Event.startRestore =>
      match s.replica.startRestore with
      | (none, replica) => Except.ok { s with replica := replica }
      | (some job, replica) =>
          Except.ok { s with replica := replica, restore := Work.started job }
  | Event.runRestore =>
      match s.restore with
      | Work.started job =>
          (job.run s.replica.store.dir).map (fun (done, dir) =>
            { s.withDir dir with restore := Work.finished done })
      | _ => Except.ok s
  | Event.finishRestore env =>
      match s.restore with
      | Work.finished done =>
          (s.replica.finishRestore env done).map (fun replica =>
            { s with replica := replica, restore := Work.idle })
      | _ => Except.ok s
  | Event.abandonRestore =>
      match s.restore with
      | Work.started job =>
          let dir := job.job.drop s.replica.store.dir
          Except.ok
            { s.withDir dir with
              replica := (s.withDir dir).replica.abandonRestore
              restore := Work.idle }
      | _ => Except.ok s

end System

/-- The events that apply what the node hands over, and what they leave to be
applied to. -/
def Event.applies (s : System) : Event -> Option (Env × System)
  | tick env =>
      some (env, { s with
        replica := { s.replica with node := s.replica.node.tick.1 } })
  | step env sender message =>
      match s.replica.restoring, message with
      | true, Message.installSnapshot _ _ _ _ _ _ _ _ => none
      | _, message =>
          some (env, { s with
            replica := { s.replica with
              node := (s.replica.node.step sender message).1 } })
  | finishRestore env =>
      match s.restore with
      | Work.finished done =>
          let store := (s.replica.store.finishRestore done.file).sync
          some (env, { s with
            replica := { s.replica with
              restoring := false
              store := writeApplied store done.index
              applied := done.index }
            restore := Work.idle })
      | _ => none
  | _ => none

/-- A message is one that a restore has ignored, or the node is given it. -/
theorem Event.step_cases (s : System) (env : Env) (sender : NodeId)
    (message : Message) :
    ((Event.step env sender message).applies s = none ∧
      s.replica.step env sender message = Except.ok (s.replica, [])) ∨
    ((Event.step env sender message).applies s = some (env, { s with
        replica := { s.replica with
          node := (s.replica.node.step sender message).1 } }) ∧
      s.replica.step env sender message =
        (({ s.replica with
          node := (s.replica.node.step sender message).1 }).apply env).map
            (fun r => (r, (s.replica.node.step sender message).2)) ∧
      (Event.step env sender message).node s.replica =
        (s.replica.node.step sender message).1 ∧
      (s.replica.restoring = true -> forall term lastIndex lastTerm offset data
        done seq members, message ≠ Message.installSnapshot term lastIndex
          lastTerm offset data done seq members)) := by
  unfold Event.applies Event.node ReplicatedStore.step
  dsimp only
  cases s.replica.restoring with
  | false => exact Or.inr ⟨rfl, rfl, rfl, nofun⟩
  | true =>
      cases message with
      | installSnapshot => exact Or.inl ⟨rfl, rfl⟩
      | _ => exact Or.inr ⟨rfl, rfl, rfl, fun _ => nofun⟩

theorem Event.applies_step {s s' : System} {env env' : Env} {sender : NodeId}
    {message : Message}
    (h : (Event.step env sender message).applies s = some (env', s')) :
    s' = { s with
      replica := { s.replica with
        node := (s.replica.node.step sender message).1 } } ∧
    (Event.step env sender message).node s.replica =
      (s.replica.node.step sender message).1 ∧
    (s.replica.restoring = true -> forall term lastIndex lastTerm offset data
      done seq members, message ≠ Message.installSnapshot term lastIndex
        lastTerm offset data done seq members) := by
  rcases Event.step_cases s env sender message with
    ⟨hnone, _⟩ | ⟨hsome, _, hnode, hdelivered⟩
  · rw [hnone] at h
    cases h
  · rw [hsome] at h
    cases h
    exact ⟨rfl, hnode, hdelivered⟩

namespace System

theorem next_applies {s s' : System} {e : Event} {env : Env}
    (h : e.applies s = some (env, s')) :
    s.next e = (s'.replica.apply env).map (fun replica =>
      { s' with replica := replica }) := by
  have hmapped : forall (result : Except Error ReplicatedStore)
      (actions : List Action),
      (result.map (fun r => (r, actions))).map (fun done =>
        { s with replica := done.1 }) =
      result.map (fun replica => { s with replica := replica }) := by
    intro result actions
    cases result <;> rfl
  cases e with
  | tick env' =>
      cases h
      exact hmapped _ _
  | step env' sender message =>
      rcases Event.step_cases s env' sender message with
        ⟨hnone, _⟩ | ⟨hsome, hstep, _⟩
      · rw [hnone] at h
        cases h
      · rw [hsome] at h
        cases h
        show (s.replica.step env sender message).map _ = _
        rw [hstep]
        exact hmapped _ _
  | finishRestore env' =>
      unfold Event.applies at h
      unfold next
      dsimp only at h ⊢
      cases hrestore : s.restore with
      | finished done =>
          rw [hrestore] at h
          cases h
          rfl
      | _ =>
          rw [hrestore] at h
          cases h
  | _ => cases h

theorem next_ignored {s : System} {e : Event} (h : e.applies s = none)
    (happly : (exists env, e = Event.tick env) ∨
      (exists env sender message, e = Event.step env sender message) ∨
      exists env, e = Event.finishRestore env) : s.next e = Except.ok s := by
  rcases happly with ⟨env, rfl⟩ | ⟨env, sender, message, rfl⟩ | ⟨env, rfl⟩
  · cases h
  · rcases Event.step_cases s env sender message with
      ⟨_, hstep⟩ | ⟨hsome, _⟩
    · show (s.replica.step env sender message).map _ = _
      rw [hstep]
      rfl
    · rw [hsome] at h
      cases h
  · unfold Event.applies at h
    unfold next
    dsimp only at h ⊢
    cases hrestore : s.restore with
    | finished done =>
        rw [hrestore] at h
        cases h
    | _ => rfl

end System

/-!
# Runs

An event changes the node first, and may then apply what the node hands over.  What is
applied has to be what was committed, so a run is one that the committed log allows.
-/

/-- Up to its commit index a node's log is the committed one. -/
def Agrees (c : Committed) (n : Node) : Prop :=
  forall i, n.storage.log.base.index < i -> i <= n.commitIndex ->
    n.storage.entry i = some (c.entry i)

/-- What consensus promises of an event: what the node takes to be committed is
what the log of the cluster says, and a snapshot it takes over stands for what
that log comes to. -/
structure Promised (c : Committed) (r : ReplicatedStore) (e : Event) : Prop where
  agrees : Agrees c (e.node r)
  snapshot : (e.node r).storage.snapshotMeta.index ≠ r.snapshotIndex ->
    Encodes (e.node r).storage.snapshot
      (c.contents (e.node r).storage.snapshotMeta.index)

/-- A replica that starts with nothing, and everything it does after that. -/
inductive Run (c : Committed) : System -> Prop where
  | start (opts : Options) (id : NodeId) (bootstrap : List Member)
      (config : Config) (env : Env) (snapshotEvery : Nat) (background : Bool)
      {store : Store} {replica : ReplicatedStore}
      (hopen : Store.openWith {} opts = Except.ok store)
      (hnew : ReplicatedStore.new (Node.withMembers id bootstrap config {})
        store env = Except.ok replica) :
      Run c
        { replica := { replica with
            snapshotEvery := snapshotEvery
            backgroundSnapshots := background }
          snapshot := Work.idle
          compaction := Work.idle
          restore := Work.idle }
  | next {s s' : System} (e : Event) :
      Run c s ->
      Promised c s.replica e ->
      s.next e = Except.ok s' ->
      Run c s'

end Replicated
end Minicask
