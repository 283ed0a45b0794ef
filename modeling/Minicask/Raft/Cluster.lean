import Mathlib.Logic.Function.Basic
import Minicask.Raft.Node

/-!
# A cluster of nodes and its runs

The network never forgets: every message a node has sent stays available, so it
can be delivered at any later time, in any order, any number of times, or never.
A crash loses everything but the storage, the snapshots still being written
included.

Every number names a node.  A cluster of any size is one whose other nodes take
no step.
-/

namespace Minicask
namespace Raft

structure Envelope where
  sender : NodeId
  dest : NodeId
  message : Message
deriving Repr, DecidableEq

structure Cluster where
  bootstrap : List Member
  nodes : NodeId -> Node
  network : List Envelope
  /-- The snapshots each node has begun and not yet installed. -/
  sinks : NodeId -> List MemSnapshot

inductive Event where
  | tick (n : NodeId)
  | campaign (n : NodeId)
  | preVote (n : NodeId)
  | propose (n : NodeId) (command : Bytes)
  | proposeBatch (n : NodeId) (commands : List Bytes)
  | proposeMembership (n : NodeId) (members : List Member)
  | setAutoPromote (n : NodeId) (on : Bool)
  | readIndex (n : NodeId)
  | forgetRead (n : NodeId) (request : ReadRequest)
  | takeCommitted (n : NodeId)
  | beginCompaction (n : NodeId) (index : Nat)
  | finishCompaction (n : NodeId) (sink : MemSnapshot) (data : Bytes)
  | deliver (envelope : Envelope)
  | restart (n : NodeId) (config : Config)
deriving Repr, DecidableEq

namespace Cluster

def start (bootstrap : List Member) (configs : NodeId -> Config) : Cluster where
  bootstrap := bootstrap
  nodes := fun n => Node.withMembers n bootstrap (configs n) {}
  network := []
  sinks := fun _ => []

def act (c : Cluster) (n : NodeId) (result : Node × List Action) : Cluster :=
  { c with
    nodes := Function.update c.nodes n result.1
    network := c.network ++ result.2.map (fun action =>
      { sender := n, dest := action.dest, message := action.message }) }

def accepted (c : Cluster) (n : NodeId)
    (result : Except ProposeError (Node × answer × List Action)) : Cluster :=
  match result with
  | Except.ok (node, _, actions) => c.act n (node, actions)
  | Except.error _ => c

def next (c : Cluster) : Event -> Cluster
  | Event.tick n => c.act n (c.nodes n).tick
  | Event.campaign n => c.act n (c.nodes n).campaign
  | Event.preVote n => c.act n (c.nodes n).preVote
  | Event.propose n command => c.accepted n ((c.nodes n).propose command)
  | Event.proposeBatch n commands =>
      c.accepted n ((c.nodes n).proposeBatch commands)
  | Event.proposeMembership n members =>
      c.accepted n ((c.nodes n).proposeMembership members)
  | Event.setAutoPromote n on =>
      c.act n ({ c.nodes n with autoPromote := on }, [])
  | Event.readIndex n =>
      let (node, _, actions) := (c.nodes n).readIndex
      c.act n (node, actions)
  | Event.forgetRead n request => c.act n ((c.nodes n).forgetRead request, [])
  | Event.takeCommitted n => c.act n ((c.nodes n).takeCommitted.1, [])
  | Event.beginCompaction n index =>
      match (c.nodes n).beginCompaction index with
      | some sink =>
          { c with sinks := Function.update c.sinks n (sink :: c.sinks n) }
      | none => c
  | Event.finishCompaction n sink data =>
      let c := c.act n
        (((c.nodes n).finishCompaction (sink.writeAll data)).1, [])
      { c with sinks := Function.update c.sinks n ((c.sinks n).erase sink) }
  | Event.deliver envelope =>
      c.act envelope.dest
        ((c.nodes envelope.dest).step envelope.sender envelope.message)
  | Event.restart n config =>
      let c := c.act n
        (Node.withMembers n c.bootstrap config (c.nodes n).storage, [])
      { c with sinks := Function.update c.sinks n [] }

/-- Only a message that was sent can be delivered, and only a snapshot that was
begun can be finished. -/
def Enabled (c : Cluster) : Event -> Prop
  | Event.finishCompaction n sink _ => sink ∈ c.sinks n
  | Event.deliver envelope => envelope ∈ c.network
  | _ => True

def FixedMembership (c : Cluster) : Prop :=
  forall n e, e ∈ (c.nodes n).storage.log.entries -> e.command.isConfig = false

inductive FixedRun : Cluster -> Cluster -> Prop where
  | refl (c : Cluster) : FixedRun c c
  | tail {c d : Cluster} (event : Event) :
      FixedRun c d ->
      d.Enabled event ->
      (d.next event).FixedMembership ->
      FixedRun c (d.next event)

theorem FixedRun.trans {c d e : Cluster} (hcd : FixedRun c d)
    (hde : FixedRun d e) : FixedRun c e := by
  induction hde with
  | refl => exact hcd
  | tail event _ henabled hfixed ih =>
      exact FixedRun.tail event ih henabled hfixed

@[simp] theorem act_nodes_self (c : Cluster) (n : NodeId)
    (result : Node × List Action) : (c.act n result).nodes n = result.1 := by
  simp [act]

theorem act_nodes_of_ne (c : Cluster) {n m : NodeId}
    (result : Node × List Action) (h : m ≠ n) :
    (c.act n result).nodes m = c.nodes m := by
  simp [act, h]

/-!
# Replaying a list of events
-/

instance (c : Cluster) (event : Event) : Decidable (c.Enabled event) :=
  match event with
  | Event.finishCompaction n sink _ =>
      inferInstanceAs (Decidable (sink ∈ c.sinks n))
  | Event.deliver envelope =>
      inferInstanceAs (Decidable (envelope ∈ c.network))
  | Event.tick _ => isTrue trivial
  | Event.campaign _ => isTrue trivial
  | Event.preVote _ => isTrue trivial
  | Event.propose _ _ => isTrue trivial
  | Event.proposeBatch _ _ => isTrue trivial
  | Event.proposeMembership _ _ => isTrue trivial
  | Event.setAutoPromote _ _ => isTrue trivial
  | Event.readIndex _ => isTrue trivial
  | Event.forgetRead _ _ => isTrue trivial
  | Event.takeCommitted _ => isTrue trivial
  | Event.beginCompaction _ _ => isTrue trivial
  | Event.restart _ _ => isTrue trivial

def site : Event -> NodeId
  | Event.tick n => n
  | Event.campaign n => n
  | Event.preVote n => n
  | Event.propose n _ => n
  | Event.proposeBatch n _ => n
  | Event.proposeMembership n _ => n
  | Event.setAutoPromote n _ => n
  | Event.readIndex n => n
  | Event.forgetRead n _ => n
  | Event.takeCommitted n => n
  | Event.beginCompaction n _ => n
  | Event.finishCompaction n _ _ => n
  | Event.deliver envelope => envelope.dest
  | Event.restart n _ => n

/-- Check, while replaying, that only some nodes move, that every event can
happen, and that no membership entry appears. -/
def replays (ids : List NodeId) : Cluster -> List Event -> Bool
  | _, [] => true
  | c, event :: rest =>
      ids.contains (site event) && decide (c.Enabled event) &&
        ids.all (fun n => ((c.next event).nodes n).storage.log.entries.all
          (fun e => !e.command.isConfig)) &&
        replays ids (c.next event) rest

theorem next_nodes_of_ne (c : Cluster) {event : Event} {m : NodeId}
    (h : m ≠ site event) : (c.next event).nodes m = c.nodes m := by
  cases event with
  | propose n command =>
      simp only [next, accepted]
      split
      · exact act_nodes_of_ne c _ h
      · rfl
  | proposeBatch n commands =>
      simp only [next, accepted]
      split
      · exact act_nodes_of_ne c _ h
      · rfl
  | proposeMembership n members =>
      simp only [next, accepted]
      split
      · exact act_nodes_of_ne c _ h
      · rfl
  | beginCompaction n index =>
      simp only [next]
      split <;> rfl
  | _ => exact act_nodes_of_ne c _ h

/-- The nodes a replay leaves out do not move. -/
theorem nodes_of_replays (ids : List NodeId) (events : List Event)
    {c : Cluster} (h : replays ids c events = true) {m : NodeId}
    (hm : m ∉ ids) : (events.foldl next c).nodes m = c.nodes m := by
  induction events generalizing c with
  | nil => rfl
  | cons event rest ih =>
      unfold replays at h
      simp only [Bool.and_eq_true, List.contains_iff_mem] at h
      have hne : m ≠ site event := by
        intro heq
        rw [heq] at hm
        exact hm h.1.1.1
      rw [List.foldl_cons, ih h.2, next_nodes_of_ne c hne]

/-- A replay that passes the check is a run. -/
theorem fixedRun_of_replays {ids : List NodeId} (events : List Event)
    {c : Cluster}
    (hrest : forall m, m ∉ ids -> (c.nodes m).storage.log.entries = [])
    (h : replays ids c events = true) : FixedRun c (events.foldl next c) := by
  induction events generalizing c with
  | nil => exact FixedRun.refl c
  | cons event rest ih =>
      have hnodes : forall m, m ∉ ids -> (c.next event).nodes m = c.nodes m := by
        intro m hm
        apply nodes_of_replays ids [event] _ hm
        unfold replays at h ⊢
        rw [Bool.and_eq_true] at h
        rw [Bool.and_eq_true]
        exact ⟨h.1, rfl⟩
      unfold replays at h
      simp only [Bool.and_eq_true, decide_eq_true_eq, List.all_eq_true,
        List.contains_iff_mem, Bool.not_eq_true'] at h
      rcases h with ⟨⟨⟨_, henabled⟩, hdata⟩, hreplays⟩
      have hrest' : forall m, m ∉ ids ->
          ((c.next event).nodes m).storage.log.entries = [] := by
        intro m hm
        rw [hnodes m hm]
        exact hrest m hm
      have hfixed : (c.next event).FixedMembership := by
        intro n e he
        by_cases hn : n ∈ ids
        · exact hdata n hn e he
        · rw [hrest' n hn] at he
          cases he
      exact (FixedRun.tail event (FixedRun.refl c) henabled hfixed).trans
        (ih hrest' hreplays)

theorem entries_of_replays {B : List Member} {configs : NodeId -> Config}
    {ids : List NodeId} {events : List Event}
    (h : replays ids (start B configs) events = true) {m : NodeId}
    (hm : m ∉ ids) :
    ((events.foldl next (start B configs)).nodes m).storage.log.entries =
      [] := by
  rw [nodes_of_replays ids events h hm]
  rfl

theorem fixedRun_start (B : List Member) (configs : NodeId -> Config)
    (ids : List NodeId) (before later : List Event)
    (hbefore : replays ids (start B configs) before = true)
    (hlater : replays ids (before.foldl next (start B configs)) later = true) :
    FixedRun (start B configs) (before.foldl next (start B configs)) ∧
      FixedRun (before.foldl next (start B configs))
        (later.foldl next (before.foldl next (start B configs))) := by
  exact ⟨fixedRun_of_replays before (fun _ _ => rfl) hbefore,
    fixedRun_of_replays later (fun _ hm => entries_of_replays hbefore hm)
      hlater⟩

theorem fixedRun_around (B : List Member) (configs : NodeId -> Config)
    (ids : List NodeId) (before : List Event) (event : Event)
    (later : List Event)
    (hbefore : replays ids (start B configs) before = true)
    (hevent : replays ids (before.foldl next (start B configs)) [event] = true)
    (hlater : replays ids ((before.foldl next (start B configs)).next event)
      later = true) :
    FixedRun (start B configs) (before.foldl next (start B configs)) ∧
      FixedRun ((before.foldl next (start B configs)).next event)
        (later.foldl next
          ((before.foldl next (start B configs)).next event)) := by
  refine ⟨fixedRun_of_replays before (fun _ _ => rfl) hbefore,
    fixedRun_of_replays later ?_ hlater⟩
  intro m hm
  rw [show ((before.foldl next (start B configs)).next event).nodes m =
    (before.foldl next (start B configs)).nodes m from
      nodes_of_replays ids [event] hevent hm]
  exact entries_of_replays hbefore hm

end Cluster

end Raft
end Minicask
