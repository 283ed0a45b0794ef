import Mathlib.Logic.Function.Basic
import Minicask.Raft.Accepting
import Minicask.Raft.Cluster
import Minicask.Raft.Hosts

/-!
# Hosts and the messages between them

Any number of nodes, each started with a membership of its own, empty for one that
waits to be added.  A message that was sent stays available: it can arrive at any later
time, in any order, any number of times, or never.
-/

namespace Minicask
namespace Raft

structure Network where
  hosts : NodeId -> Host
  sent : List Envelope

namespace Network

def start (bootstraps : NodeId -> List Member) (configs : NodeId -> Config) :
    Network where
  hosts n := Host.start n (bootstraps n) (configs n) {}
  sent := []

def next (net : Network) (n : NodeId) (operation : Operation) : Network where
  hosts := Function.update net.hosts n ((net.hosts n).run operation).1
  sent := net.sent ++ ((net.hosts n).run operation).2.map (fun action =>
    { sender := n, dest := action.dest, message := action.message })

def Arrives (net : Network) (n : NodeId) : Operation -> Prop
  | Operation.receive sender message =>
      { sender := sender, dest := n, message := message } ∈ net.sent
  | _ => True

structure Enabled (net : Network) (n : NodeId) (operation : Operation) : Prop where
  host : (net.hosts n).Enabled operation
  arrives : net.Arrives n operation

inductive Run (allowed : Network -> NodeId -> Operation -> Prop) :
    Network -> Network -> Prop where
  | refl (net : Network) : Run allowed net net
  | tail {net net' : Network} (n : NodeId) (operation : Operation) :
      Run allowed net net' ->
      net'.Enabled n operation ->
      allowed net' n operation ->
      Run allowed net (net'.next n operation)

/-- What every allowed operation keeps, every run keeps. -/
theorem Run.keeps {allowed : Network -> NodeId -> Operation -> Prop}
    {net net' : Network} (hrun : Run allowed net net') (holds : Network -> Prop)
    (hstep : forall net n operation, holds net -> net.Enabled n operation ->
      allowed net n operation -> holds (net.next n operation))
    (h : holds net) : holds net' := by
  induction hrun with
  | refl => exact h
  | tail n operation _ henabled hallowed ih =>
      exact hstep _ n operation ih henabled hallowed

theorem Run.mono {allowed allowed' : Network -> NodeId -> Operation -> Prop}
    {net net' : Network}
    (h : forall net n operation, allowed net n operation -> allowed' net n operation)
    (hrun : Run allowed net net') : Run allowed' net net' := by
  induction hrun with
  | refl => exact Run.refl _
  | tail n operation _ henabled hallowed ih =>
      exact Run.tail n operation ih henabled (h _ n operation hallowed)

theorem hosts_next_self (net : Network) (n : NodeId) (operation : Operation) :
    (net.next n operation).hosts n = ((net.hosts n).run operation).1 :=
  Function.update_self ..

theorem hosts_next_of_ne (net : Network) {n m : NodeId} (operation : Operation)
    (h : m ≠ n) : (net.next n operation).hosts m = net.hosts m :=
  Function.update_of_ne h ..

instance (net : Network) (n : NodeId) (operation : Operation) :
    Decidable (net.Arrives n operation) :=
  match operation with
  | Operation.receive sender message =>
      inferInstanceAs (Decidable
        ({ sender := sender, dest := n, message := message } ∈ net.sent))
  | Operation.tick => isTrue trivial
  | Operation.campaign => isTrue trivial
  | Operation.preVote => isTrue trivial
  | Operation.propose _ => isTrue trivial
  | Operation.proposeBatch _ => isTrue trivial
  | Operation.proposeMembership _ => isTrue trivial
  | Operation.setAutoPromote _ => isTrue trivial
  | Operation.readIndex => isTrue trivial
  | Operation.forgetRead _ => isTrue trivial
  | Operation.takeCommitted => isTrue trivial
  | Operation.beginCompaction _ => isTrue trivial
  | Operation.finishCompaction _ _ => isTrue trivial
  | Operation.restart _ => isTrue trivial

def replay (net : Network) (steps : List (NodeId × Operation)) : Network :=
  steps.foldl (fun net step => net.next step.1 step.2) net

/-- Check, while replaying, that every operation can happen and passes a test. -/
def passes (test : Network -> NodeId -> Operation -> Bool) :
    Network -> List (NodeId × Operation) -> Bool
  | _, [] => true
  | net, (n, operation) :: rest =>
      decide ((net.hosts n).Enabled operation) &&
        decide (net.Arrives n operation) && test net n operation &&
        passes test (net.next n operation) rest

def replays : Network -> List (NodeId × Operation) -> Bool :=
  passes (fun _ _ _ => true)

theorem run_of_passes {allowed : Network -> NodeId -> Operation -> Prop}
    {test : Network -> NodeId -> Operation -> Bool} {net : Network}
    (steps : List (NodeId × Operation))
    (hallowed : forall n operation, (n, operation) ∈ steps ->
      forall net, test net n operation = true -> allowed net n operation)
    (h : passes test net steps = true) :
    forall first, Run allowed first net ->
      Run allowed first (net.replay steps) := by
  induction steps generalizing net with
  | nil => exact fun _ hrun => hrun
  | cons step rest ih =>
      intro first hrun
      obtain ⟨n, operation⟩ := step
      unfold passes at h
      simp only [Bool.and_eq_true, decide_eq_true_eq] at h
      rcases h with ⟨⟨⟨hhost, harrives⟩, htest⟩, hrest⟩
      refine ih (fun m other hmem => hallowed m other (List.mem_cons_of_mem _ hmem))
        hrest first (Run.tail n operation hrun ⟨hhost, harrives⟩ ?_)
      exact hallowed n operation List.mem_cons_self net htest

theorem run_of_replays {allowed : Network -> NodeId -> Operation -> Prop}
    {net : Network} (steps : List (NodeId × Operation))
    (hallowed : forall n operation, (n, operation) ∈ steps ->
      forall net, allowed net n operation)
    (h : replays net steps = true) :
    forall first, Run allowed first net ->
      Run allowed first (net.replay steps) :=
  run_of_passes steps (fun n operation hmem net _ => hallowed n operation hmem net) h

theorem forall_next {net : Network} {n : NodeId} {operation : Operation}
    {holds : NodeId -> Host -> Prop} (h : forall m, holds m (net.hosts m))
    (hmoved : holds n ((net.hosts n).run operation).1) :
    forall m, holds m ((net.next n operation).hosts m) := by
  intro m
  by_cases hm : m = n
  · subst hm
    rw [hosts_next_self]
    exact hmoved
  · rw [hosts_next_of_ne net operation hm]
    exact h m

theorem mem_sent_next {net : Network} {n : NodeId} {operation : Operation}
    {envelope : Envelope} (h : envelope ∈ (net.next n operation).sent) :
    envelope ∈ net.sent ∨ exists action,
      action ∈ ((net.hosts n).run operation).2 ∧
        envelope =
          { sender := n, dest := action.dest, message := action.message } := by
  rcases List.mem_append.mp h with hold | hnew
  · exact Or.inl hold
  · obtain ⟨action, hmem, rfl⟩ := List.mem_map.mp hnew
    exact Or.inr ⟨action, hmem, rfl⟩

end Network

/-!
# Logs without gaps

Leaders append from their last index on and send runs of their logs, so neither a log
nor a message ever has a gap.
-/

def Contiguous : Message -> Prop
  | Message.appendEntries _ prevLogIndex _ entries _ _ =>
      Follows prevLogIndex entries
  | _ => True

theorem contiguous_appendMessageFor {n : Node}
    (h : Follows n.storage.log.base.index n.storage.log.entries) (peer : NodeId) :
    Contiguous (n.appendMessageFor peer).message := by
  unfold Node.appendMessageFor
  dsimp only
  split
  · trivial
  · next hpast =>
      have hbase : n.storage.log.base.index < n.nextFor peer :=
        Nat.lt_of_not_le hpast
      obtain ⟨k, hk, _⟩ := MemStorage.entriesWithin_follows h hbase
        n.config.maxAppendBytes
      show Follows (n.nextFor peer - 1) _
      rw [hk]
      rcases Nat.lt_or_ge n.storage.log.entries.length
          (n.nextFor peer - n.storage.log.base.index - 1) with hend | hheld
      · rw [List.drop_of_length_le (Nat.le_of_lt hend), List.take_nil]
        trivial
      · have hdrop := h.drop hheld
        have hprev : n.storage.log.base.index +
            (n.nextFor peer - n.storage.log.base.index - 1) =
            n.nextFor peer - 1 := by
          omega
        rw [hprev] at hdrop
        exact hdrop.take k

theorem contiguous_of_sent {n : Node} {action : Action}
    (h : Follows n.storage.log.base.index n.storage.log.entries)
    (hsent : Sent n action) : Contiguous action.message := by
  cases hsent with
  | append peer hleader => exact contiguous_appendMessageFor h peer
  | probe peer seq hleader hpast => exact trivial
  | plain _ hplain =>
      revert hplain
      cases action.message with
      | appendEntries => nofun
      | _ => exact fun _ => trivial

section Moves

variable {inputs : Inputs} {n n' : Node}
  (hcontiguous : forall core sender message, inputs.heard core sender message ->
    Contiguous message)

include hcontiguous

theorem follows_move (h : Follows n.storage.log.base.index n.storage.log.entries)
    (hmove : Move inputs n n') :
    Follows n'.storage.log.base.index n'.storage.log.entries := by
  have happend : forall es, Follows n.lastIndex es ->
      Follows (n.storage.append es).log.base.index
        (n.storage.append es).log.entries :=
    fun es hes => h.pushed hes
  cases hmove with
  | idle hidle =>
      rw [show n'.storage.log = n.storage.log from congrArg Core.log hidle.core]
      exact h
  | reload =>
      rw [storage_reloadMembership]
      exact h
  | lead => exact happend _ ⟨rfl, trivial⟩
  | extend es hfresh => exact happend es (Follows.of_index hfresh.index)
  | configure members hadmitted =>
      rw [storage_reloadMembership]
      exact happend _ ⟨rfl, trivial⟩
  | commit index hleader hhigher hheld => exact h
  | entries sender prevLogIndex prevLogTerm entries leaderCommit seq hheard =>
      rcases handleAppendEntries_cases n sender prevLogIndex prevLogTerm entries
        leaderCommit seq with hidle | ⟨middle, prev, term, rest, hidle, hstorage,
          hpast, hterm, heq⟩
      · rw [show (n.handleAppendEntries sender prevLogIndex prevLogTerm entries
          leaderCommit seq).1.storage.log = n.storage.log from
            congrArg Core.log hidle.core]
        exact h
      · obtain ⟨hrest, _⟩ := pastSnapshot_follows (hcontiguous _ _ _ hheard) hpast
        rw [← hstorage] at h hterm
        obtain ⟨keep, fresh, hover⟩ := acceptEntries_log h hrest hterm
        rw [heq]
        dsimp only
        rw [hover.log]
        exact hover.follows
  | snapshot sender about offset data done seq members hheard =>
      obtain ⟨middle, _, hstorage, hcases⟩ := handleInstallSnapshot_cases n sender
        about offset data done seq members
      rw [← hstorage] at h
      rcases hcases with hsame | hdropped | ⟨_, hkept | ⟨_, hmore | ⟨_, hlast⟩⟩⟩
      · rw [hsame]
        exact h
      · rw [hdropped]
        exact h
      · rw [hkept]
        exact h
      · rw [hmore]
        exact h
      · rw [hlast]
        unfold Node.installReceived
        dsimp only
        rw [storage_reloadMembership]
        exact MemStorage.follows_installSnapshot _ h

theorem follows_moves (h : Follows n.storage.log.base.index n.storage.log.entries)
    (hmoves : Moves inputs n n') :
    Follows n'.storage.log.base.index n'.storage.log.entries := by
  induction hmoves with
  | refl => exact h
  | tail _ hmove ih => exact follows_move hcontiguous ih hmove

end Moves

namespace Network

/-- No log and no message has a gap. -/
structure Gapless (net : Network) : Prop where
  logs : forall n, Follows (net.hosts n).node.storage.log.base.index
    (net.hosts n).node.storage.log.entries
  messages : forall envelope, envelope ∈ net.sent -> Contiguous envelope.message

theorem gapless_start (bootstraps : NodeId -> List Member)
    (configs : NodeId -> Config) : (start bootstraps configs).Gapless := by
  refine ⟨?_, nofun⟩
  intro n
  unfold start Host.start Node.withMembers
  dsimp only
  rw [storage_reloadMembership]
  trivial

/-- What an operation hears has no gap, since it was sent. -/
theorem Gapless.heard {net : Network} (h : net.Gapless) {n : NodeId}
    {operation : Operation} (henabled : net.Enabled n operation)
    (core : Core) (sender : NodeId) (message : Message)
    (hheard : (operation.inputs (net.hosts n).node).heard core sender message) :
    Contiguous message := by
  cases operation with
  | receive origin received =>
      obtain ⟨_, rfl, rfl⟩ := hheard
      exact h.messages _ henabled.arrives
  | _ => exact hheard.elim

theorem Gapless.next {net : Network} (h : net.Gapless) {n : NodeId}
    {operation : Operation} (henabled : net.Enabled n operation) :
    (net.next n operation).Gapless := by
  have hheard := h.heard henabled
  have hhost := h.logs n
  have hstep := Host.step (net.hosts n) operation
  constructor
  · refine @forall_next net n operation (fun _ host =>
      Follows host.node.storage.log.base.index host.node.storage.log.entries)
      h.logs ?_
    generalize (net.hosts n).run operation = result at hstep ⊢
    cases hstep with
    | moves hran => exact follows_moves hheard hhost hran.moves
    | take hop => exact hhost
    | begin index sink hbegin => exact hhost
    | finish sink data hop =>
        dsimp only
        unfold Node.finishCompaction
        split
        · exact hhost
        · exact MemStorage.follows_installSnapshot _ hhost
    | restart config hop =>
        dsimp only
        unfold Host.start Node.withMembers
        dsimp only
        rw [storage_reloadMembership]
        exact hhost
  · intro envelope hmem
    rcases mem_sent_next hmem with hold | ⟨action, haction, rfl⟩
    · exact h.messages envelope hold
    · generalize (net.hosts n).run operation = result at hstep haction
      cases hstep with
      | moves hran =>
          obtain ⟨between, hbetween, hsent⟩ := hran.sent action haction
          exact contiguous_of_sent (follows_moves hheard hhost hbetween) hsent
      | take hop => cases haction
      | begin index sink hbegin => cases haction
      | finish sink data hop => cases haction
      | restart config hop => cases haction

theorem Gapless.run {allowed : Network -> NodeId -> Operation -> Prop}
    {net net' : Network} (hrun : Run allowed net net') (h : net.Gapless) :
    net'.Gapless :=
  hrun.keeps Gapless (fun _ _ _ hgapless henabled _ => hgapless.next henabled) h

end Network

end Raft
end Minicask
