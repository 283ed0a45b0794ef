import Minicask.Raft.MembershipInForce
import Minicask.Raft.Network

/-!
# Rounds of pre-votes

A node asks whether it would be voted for before it stands.  Here every question and
every yes is kept together with the round it belongs to, which the messages themselves
do not say: they carry the proposed term, and a node that hears nothing proposes the
same term again.
-/

namespace Minicask
namespace Raft

def Message.canvasses : Message -> Bool
  | Message.preVote _ _ _ => true
  | Message.preVoteReply _ granted => granted
  | _ => false

/-!
# What a node does outside of pre-votes
-/

/-- A node that is asking was asking before, in the same term and with the same votes;
and it sends neither a question nor a yes. -/
structure Unasked (node : Node) (result : Node × List Action) : Prop where
  asking : result.1.role = Role.preCandidate ->
    node.role = Role.preCandidate ∧ result.1.term = node.term ∧
      result.1.votes = node.votes
  silent : forall action, action ∈ result.2 ->
    action.message.canvasses = false

def voteView (node : Node) : Role × Nat × Finset NodeId :=
  (node.role, node.term, node.votes)

theorem unasked_of_view {node : Node} {result : Node × List Action}
    (hview : voteView result.1 = voteView node)
    (hsilent : forall action, action ∈ result.2 ->
      action.message.canvasses = false) : Unasked node result := by
  simp only [voteView, Prod.mk.injEq] at hview
  refine ⟨?_, hsilent⟩
  intro hrole
  exact ⟨hview.1 ▸ hrole, hview.2.1, hview.2.2⟩

theorem unasked_of_role {node : Node} {result : Node × List Action}
    (hrole : result.1.role ≠ Role.preCandidate)
    (hsilent : forall action, action ∈ result.2 ->
      action.message.canvasses = false) : Unasked node result :=
  ⟨fun hasking => absurd hasking hrole, hsilent⟩

theorem Unasked.trans {node next : Node} {earlier later : List Action}
    {result : Node} (hfirst : Unasked node (next, earlier))
    (hsecond : Unasked next (result, later)) :
    Unasked node (result, earlier ++ later) where
  asking := by
    intro hrole
    rcases hsecond.asking hrole with ⟨hasking, hterm, hvotes⟩
    rcases hfirst.asking hasking with ⟨hasking', hterm', hvotes'⟩
    exact ⟨hasking', hterm.trans hterm', hvotes.trans hvotes'⟩
  silent := by
    intro action haction
    rcases List.mem_append.mp haction with hold | hnew
    · exact hfirst.silent action hold
    · exact hsecond.silent action hnew

theorem quiet_nil : forall action, action ∈ ([] : List Action) ->
    action.message.canvasses = false :=
  nofun

theorem quiet_one {action : Action} (h : action.message.canvasses = false) :
    forall other, other ∈ [action] -> other.message.canvasses = false := by
  intro other hother
  rw [List.mem_singleton.mp hother]
  exact h

theorem quiet_map {ids : List NodeId} {f : NodeId -> Action}
    (h : forall peer, (f peer).message.canvasses = false) :
    forall action, action ∈ ids.map f -> action.message.canvasses = false := by
  intro action haction
  rcases List.mem_map.mp haction with ⟨peer, _, heq⟩
  rw [← heq]
  exact h peer

theorem Unasked.of_view {node next : Node} {result : Node × List Action}
    (h : Unasked next result) (hview : voteView next = voteView node) :
    Unasked node result :=
  Unasked.trans (unasked_of_view hview quiet_nil) h

section Operations

variable (node : Node)

theorem unasked_self : Unasked node (node, []) :=
  unasked_of_view rfl quiet_nil

theorem reloadMembership_voteView :
    voteView node.reloadMembership = voteView node := by
  rcases reloadMembership_eq node with ⟨_, _, _, heq⟩
  rw [heq]
  rfl

theorem maybeCommit_voteView : voteView node.maybeCommit = voteView node := by
  rcases maybeCommit_eq node with ⟨_, heq⟩
  rw [heq]
  rfl

theorem canvasses_appendMessageFor (peer : NodeId) :
    (node.appendMessageFor peer).message.canvasses = false := by
  unfold Node.appendMessageFor
  simp only
  split <;> rfl

theorem unasked_broadcastAppend : Unasked node node.broadcastAppend := by
  rcases broadcastAppend_eq node with ⟨_, rfl | rfl, heq⟩
  · rw [heq]
    exact unasked_of_view rfl (quiet_map (canvasses_appendMessageFor _))
  · rw [heq]
    exact unasked_of_view (reloadMembership_voteView node)
      (quiet_map (canvasses_appendMessageFor _))

theorem appendLocal_voteView (command : Command) :
    voteView (node.appendLocal command).1 = voteView node := by
  unfold Node.appendLocal
  simp only
  split
  · rw [maybeCommit_voteView, reloadMembership_voteView]
    rfl
  · rw [maybeCommit_voteView]
    rfl

theorem unasked_becomeFollower (term : Nat) (leader : Option NodeId) :
    Unasked node (node.becomeFollower term leader, []) :=
  unasked_of_role nofun quiet_nil

theorem silent_becomeLeader :
    node.becomeLeader.1.role ≠ Role.preCandidate ∧
      forall action, action ∈ node.becomeLeader.2 ->
        action.message.canvasses = false := by
  rw [becomeLeader_eq]
  refine ⟨?_, (unasked_broadcastAppend _).silent⟩
  intro hrole
  have hasking := ((unasked_broadcastAppend _).asking hrole).1
  rw [role_maybeCommit] at hasking
  cases hasking

theorem silent_becomeCandidate :
    node.becomeCandidate.1.role ≠ Role.preCandidate ∧
      forall action, action ∈ node.becomeCandidate.2 ->
        action.message.canvasses = false := by
  unfold Node.becomeCandidate
  simp only
  split
  · exact silent_becomeLeader _
  · exact ⟨nofun, quiet_map (fun _ => rfl)⟩

theorem unasked_handleRequestVote (sender : NodeId)
    (lastLogIndex lastLogTerm : Nat) :
    Unasked node (node.handleRequestVote sender lastLogIndex lastLogTerm) := by
  unfold Node.handleRequestVote
  simp only
  refine unasked_of_view ?_ (quiet_one rfl)
  have hview : forall granted : Bool, voteView
      (if granted then Node.resetElectionTimer { node with
        storage := node.storage.saveHardState
          { term := node.storage.hardState.term, votedFor := some sender } }
      else node) = voteView node := by
    intro granted
    cases granted <;> rfl
  exact hview _

theorem unasked_handleVoteReply (sender : NodeId) (term : Nat)
    (granted : Bool) :
    Unasked node (node.handleVoteReply sender term granted) := by
  unfold Node.handleVoteReply
  split
  · exact unasked_self node
  · next hcandidate =>
      rw [not_or, not_not] at hcandidate
      split
      · simp only
        split
        · exact unasked_of_role (silent_becomeLeader _).1 (silent_becomeLeader _).2
        · refine unasked_of_role ?_ quiet_nil
          rw [hcandidate.1]
          nofun
      · exact unasked_self node

theorem role_acceptEntries (prevLogIndex : Nat) (entries : List Entry) :
    (node.acceptEntries prevLogIndex entries).role = node.role := by
  unfold Node.acceptEntries
  simp only
  split
  · exact role_reloadMembership _
  · rfl

theorem unasked_handleAppendEntries (sender : NodeId)
    (prevLogIndex prevLogTerm : Nat) (entries : List Entry)
    (leaderCommit seq : Nat) :
    Unasked node (node.handleAppendEntries sender prevLogIndex prevLogTerm
      entries leaderCommit seq) := by
  unfold Node.handleAppendEntries
  simp only
  split
  · exact unasked_of_role nofun (quiet_one rfl)
  · split
    · split
      · exact unasked_of_role nofun (quiet_one rfl)
      · exact unasked_of_role nofun (quiet_one rfl)
    · refine unasked_of_role ?_ (quiet_one rfl)
      simp only
      split
      · simp only
        rw [role_acceptEntries]
        nofun
      · rw [role_acceptEntries]
        nofun

theorem unasked_handleInstallSnapshot (sender : NodeId)
    (about : SnapshotMeta) (offset : Nat) (data : Bytes) (done : Bool)
    (seq : Nat) (members : Option (List Member)) :
    Unasked node (node.handleInstallSnapshot sender about offset data done
      seq members) := by
  unfold Node.handleInstallSnapshot
  simp only
  split
  · exact unasked_of_role nofun (quiet_one rfl)
  split
  · exact unasked_of_role nofun (quiet_one rfl)
  split
  · exact unasked_of_role nofun (quiet_one rfl)
  split
  · exact unasked_of_role nofun (quiet_one rfl)
  · refine unasked_of_role ?_ (quiet_one rfl)
    simp only [Node.installReceived, role_reloadMembership]
    nofun

theorem unasked_handleAppendReply (sender : NodeId) (success : Bool)
    (matchIndex conflictIndex : Nat) (conflictTerm : Option Nat) :
    Unasked node (node.handleAppendReply sender success matchIndex
      conflictIndex conflictTerm) := by
  unfold Node.handleAppendReply
  split
  · split
    · refine unasked_of_view (maybeCommit_voteView _) ?_
      simp only
      split
      · exact quiet_one (canvasses_appendMessageFor _ _)
      · exact quiet_nil
    · exact unasked_self node
  · exact unasked_of_view rfl (quiet_one (canvasses_appendMessageFor _ _))

theorem unasked_handleSnapshotReply (sender : NodeId)
    (lastIndex nextOffset : Nat) (done : Bool) :
    Unasked node
      (node.handleSnapshotReply sender lastIndex nextOffset done) := by
  have hfinish : forall next : Node, voteView next = voteView node ->
      Unasked node (next,
        if (next.nextIndex sender).getD 0 <= next.storage.lastIndex then
          [next.appendMessageFor sender]
        else []) := by
    intro next hview
    refine unasked_of_view hview ?_
    simp only
    split
    · exact quiet_one (canvasses_appendMessageFor _ _)
    · exact quiet_nil
  unfold Node.handleSnapshotReply
  simp only
  split
  · split
    · exact hfinish _ (maybeCommit_voteView _)
    · exact hfinish _ rfl
  · exact unasked_of_view rfl (quiet_one (canvasses_appendMessageFor _ _))

theorem unasked_openReadRound : Unasked node
    (node.openReadRound.1, node.openReadRound.2.1) := by
  unfold Node.openReadRound
  exact unasked_of_view rfl (quiet_map (fun _ => rfl))

theorem unasked_handleReadIndex (sender : NodeId) (id : Nat) :
    Unasked node (node.handleReadIndex sender id) := by
  unfold Node.handleReadIndex
  split
  · exact unasked_of_view rfl (quiet_one rfl)
  · exact unasked_of_view rfl (unasked_openReadRound node).silent

theorem unasked_handleReadIndexReply (id : Nat) (index : Option Nat) :
    Unasked node (node.handleReadIndexReply id index, []) := by
  unfold Node.handleReadIndexReply
  split
  · exact unasked_of_view rfl quiet_nil
  · exact unasked_self node

theorem unasked_heardRound {sender : NodeId} {term seq : Nat} {next : Node}
    {released : List Action}
    (h : node.heardRound sender term seq = some (next, released)) :
    Unasked node (next, released) := by
  unfold Node.heardRound at h
  split at h
  · cases h
  · simp only at h
    split at h
    · rw [← Option.some.inj h]
      refine unasked_of_view rfl ?_
      intro action haction
      rcases List.mem_map.mp haction with ⟨read, _, heq⟩
      rw [← heq]
      rfl
    · cases h
      exact unasked_of_view rfl quiet_nil

theorem unasked_handle (sender : NodeId) (message : Message) :
    Unasked node (node.handle sender message) := by
  cases message with
  | preVote term lastLogIndex lastLogTerm => exact unasked_self node
  | preVoteReply term granted => exact unasked_self node
  | requestVote term lastLogIndex lastLogTerm =>
      exact unasked_handleRequestVote node sender _ _
  | requestVoteReply term granted =>
      exact unasked_handleVoteReply node sender term granted
  | appendEntries term prev prevTerm entries leaderCommit seq =>
      exact unasked_handleAppendEntries node sender _ _ _ _ _
  | appendEntriesReply term success matchIndex conflictIndex conflictTerm seq =>
      cases hheard : node.heardRound sender term seq with
      | none =>
          simp only [Node.handle, hheard]
          exact unasked_self node
      | some pair =>
          simp only [Node.handle, hheard]
          exact (unasked_heardRound node hheard).trans
            (unasked_handleAppendReply pair.1 sender _ _ _ _)
  | installSnapshot term lastIndex lastTerm offset data done seq members =>
      exact unasked_handleInstallSnapshot node sender _ _ _ _ _ _
  | installSnapshotReply term lastIndex nextOffset done seq =>
      cases hheard : node.heardRound sender term seq with
      | none =>
          simp only [Node.handle, hheard]
          exact unasked_self node
      | some pair =>
          simp only [Node.handle, hheard]
          exact (unasked_heardRound node hheard).trans
            (unasked_handleSnapshotReply pair.1 sender _ _ _)
  | readIndex term id => exact unasked_handleReadIndex node sender id
  | readIndexReply term id index =>
      exact unasked_handleReadIndexReply node id index

theorem unasked_step {sender : NodeId} {message : Message}
    (hprevote : forall term lastLogIndex lastLogTerm,
      message ≠ Message.preVote term lastLogIndex lastLogTerm)
    (hreply : forall term granted,
      message ≠ Message.preVoteReply term granted) :
    Unasked node (node.step sender message) := by
  unfold Node.step
  split
  · refine unasked_of_view rfl (quiet_one ?_)
    unfold Node.refuseVote
    cases message <;> rfl
  · split
    · exact absurd rfl (hprevote _ _ _)
    · exact absurd rfl (hreply _ _)
    · split
      · refine unasked_of_role ?_ (unasked_handle _ sender message).silent
        intro hrole
        cases ((unasked_handle _ sender message).asking hrole).1
      · split
        · refine unasked_of_view rfl (quiet_one ?_)
          unfold Node.replyStale
          cases message <;> rfl
        · exact unasked_handle node sender message

theorem unasked_proposeMembership {members : List Member} {next : Node}
    {index : Nat} {actions : List Action}
    (hok : node.proposeMembership members = Except.ok (next, index, actions)) :
    Unasked node (next, actions) := by
  unfold Node.proposeMembership at hok
  dsimp only at hok
  repeat' split at hok
  all_goals cases hok
  exact (unasked_broadcastAppend _).of_view (appendLocal_voteView node _)

theorem unasked_propose {command : Bytes} {next : Node} {index : Nat}
    {actions : List Action}
    (hok : node.propose command = Except.ok (next, index, actions)) :
    Unasked node (next, actions) := by
  unfold Node.propose at hok
  dsimp only at hok
  repeat' split at hok
  all_goals cases hok
  exact (unasked_broadcastAppend _).of_view (appendLocal_voteView node _)

theorem unasked_proposeBatch {commands : List Bytes} {next : Node}
    {answers : List (Except ProposeError Nat)} {actions : List Action}
    (hok : node.proposeBatch commands = Except.ok (next, answers, actions)) :
    Unasked node (next, actions) := by
  unfold Node.proposeBatch at hok
  dsimp only at hok
  split at hok
  · cases hok
  · split at hok
    · cases hok
      exact unasked_self node
    · cases hok
      refine (unasked_broadcastAppend _).of_view ?_
      rw [maybeCommit_voteView]
      rfl

theorem unasked_maybePromote : Unasked node node.maybePromote := by
  unfold Node.maybePromote
  split
  · exact unasked_self node
  · split
    · exact unasked_self node
    · simp only
      split
      · next hok => exact unasked_proposeMembership node hok
      · exact unasked_self node

theorem unasked_checkQuorum : Unasked node (node.checkQuorum, []) := by
  unfold Node.checkQuorum
  simp only
  split
  · split
    · exact unasked_of_role nofun quiet_nil
    · exact unasked_of_view rfl quiet_nil
  · exact unasked_of_view rfl quiet_nil

theorem unasked_beats : Unasked node
    (if node.heartbeatElapsed + 1 >= node.config.heartbeatTicks then
      Node.broadcastAppend { node with heartbeatElapsed := 0 }
    else ({ node with heartbeatElapsed := node.heartbeatElapsed + 1 }, [])) := by
  split
  · exact (unasked_broadcastAppend _).of_view rfl
  · exact unasked_of_view rfl quiet_nil

theorem unasked_leading : Unasked node
    (let (next, beats) :=
      if node.heartbeatElapsed + 1 >= node.config.heartbeatTicks then
        Node.broadcastAppend { node with heartbeatElapsed := 0 }
      else ({ node with heartbeatElapsed := node.heartbeatElapsed + 1 }, [])
    let (next, promotion) := next.maybePromote
    (next.checkQuorum, beats ++ promotion)) := by
  have hbeats := unasked_beats node
  generalize (if node.heartbeatElapsed + 1 >= node.config.heartbeatTicks then
      Node.broadcastAppend { node with heartbeatElapsed := 0 }
    else ({ node with heartbeatElapsed := node.heartbeatElapsed + 1 }, [])) =
      beaten at hbeats ⊢
  have hall := (hbeats.trans (unasked_maybePromote beaten.1)).trans
    (unasked_checkQuorum beaten.1.maybePromote.1)
  rw [List.append_nil] at hall
  exact hall

theorem unasked_readIndex : Unasked node
    (node.readIndex.1, node.readIndex.2.2) := by
  unfold Node.readIndex
  split
  · exact unasked_openReadRound node
  · split
    · exact unasked_of_view rfl (quiet_one rfl)
    · exact unasked_self node

theorem unasked_finishCompaction (sink : MemSnapshot) :
    Unasked node ((node.finishCompaction sink).1, []) := by
  unfold Node.finishCompaction
  split
  · exact unasked_self node
  · refine unasked_of_view ?_ quiet_nil
    simp only [voteView, Node.term, MemStorage.installSnapshot]
    split <;> rfl

end Operations

/-!
# One operation
-/

/-- Whether an operation begins a round, which is what `become_pre_candidate` does. -/
def Host.asks (host : Host) : Operation -> Bool
  | Operation.tick =>
      host.node.role ≠ Role.leader &&
        host.node.electionElapsed + 1 >= host.node.electionTimeout &&
        host.node.isVoter
  | Operation.preVote => host.node.isVoter
  | _ => false

/-- A round begins: with one vote, and with the same question for everyone; or the node
stands at once. -/
structure Asking (node : Node) (result : Node × List Action) : Prop where
  asking : result.1.role = Role.preCandidate ->
    result.1.term = node.term ∧ result.1.votes = {node.id}
  sent : forall action, action ∈ result.2 ->
    action.message.canvasses = true -> exists lastLogIndex lastLogTerm,
      action.message =
        Message.preVote (node.term + 1) lastLogIndex lastLogTerm

theorem asking_becomePreCandidate (node : Node) :
    Asking node node.becomePreCandidate := by
  unfold Node.becomePreCandidate
  simp only
  split
  · constructor
    · intro hrole
      exact absurd hrole (silent_becomeCandidate _).1
    · intro action haction hcanvasses
      rw [(silent_becomeCandidate _).2 action haction] at hcanvasses
      cases hcanvasses
  · constructor
    · intro _
      exact ⟨rfl, rfl⟩
    · intro action haction _
      rcases List.mem_map.mp haction with ⟨peer, _, heq⟩
      rw [← heq]
      exact ⟨_, _, rfl⟩

theorem Host.asking_run {host : Host} {operation : Operation}
    (h : host.asks operation = true) :
    Asking host.node
      ((host.run operation).1.node, (host.run operation).2) := by
  cases operation with
  | tick =>
      simp only [Host.asks, Bool.and_eq_true, decide_eq_true_eq] at h
      have hasking := asking_becomePreCandidate
        { host.node with electionElapsed := host.node.electionElapsed + 1 }
      show Asking host.node host.node.tick
      unfold Node.tick
      rw [if_neg h.1.1]
      simp only
      rw [if_pos h.1.2, if_pos]
      · exact ⟨hasking.asking, hasking.sent⟩
      · exact h.2
  | preVote =>
      show Asking host.node host.node.preVote
      unfold Node.preVote
      rw [if_pos]
      · exact asking_becomePreCandidate host.node
      · exact h
  | _ => cases h

/-- An operation that is no round's beginning and no part of one. -/
theorem Host.unasked_run {host : Host} {operation : Operation}
    (h : host.asks operation = false)
    (hprevote : forall sender term lastLogIndex lastLogTerm,
      operation ≠ Operation.receive sender
        (Message.preVote term lastLogIndex lastLogTerm))
    (hreply : forall sender term granted,
      operation ≠ Operation.receive sender
        (Message.preVoteReply term granted)) :
    Unasked host.node
      ((host.run operation).1.node, (host.run operation).2) := by
  have haccepted : forall {answer : Type}
      (result : Except ProposeError (Node × answer × List Action)),
      (forall next x actions, result = Except.ok (next, x, actions) ->
        Unasked host.node (next, actions)) ->
      Unasked host.node
        ((host.accepted result).1.node, (host.accepted result).2) := by
    intro answer result hok
    cases result with
    | error e => exact unasked_self host.node
    | ok answered => exact hok answered.1 answered.2.1 answered.2.2 rfl
  cases operation with
  | tick =>
      show Unasked host.node host.node.tick
      unfold Node.tick
      split
      · split
        · exact unasked_becomeFollower host.node _ none
        · exact unasked_leading host.node
      · next hrole =>
          simp only
          split
          · next htimeout =>
              split
              · next hvoter =>
                  simp only [Host.asks, Bool.and_eq_false_iff,
                    decide_eq_false_iff_not] at h
                  rcases h with (hleader | hearly) | hnot
                  · exact absurd hrole hleader
                  · exact absurd htimeout hearly
                  · rw [show host.node.isVoter = true from hvoter] at hnot
                    cases hnot
              · exact unasked_of_role nofun quiet_nil
          · exact unasked_of_view rfl quiet_nil
  | campaign =>
      show Unasked host.node host.node.campaign
      unfold Node.campaign
      split
      · exact unasked_of_role (silent_becomeCandidate _).1
          (silent_becomeCandidate _).2
      · exact unasked_self host.node
  | preVote =>
      show Unasked host.node host.node.preVote
      unfold Node.preVote
      rw [if_neg]
      · exact unasked_self host.node
      · rw [show host.node.isVoter = false from h]
        nofun
  | propose command =>
      exact haccepted _ (fun _ _ _ hok => unasked_propose host.node hok)
  | proposeBatch commands =>
      exact haccepted _ (fun _ _ _ hok => unasked_proposeBatch host.node hok)
  | proposeMembership members =>
      exact haccepted _
        (fun _ _ _ hok => unasked_proposeMembership host.node hok)
  | setAutoPromote on => exact unasked_of_view rfl quiet_nil
  | readIndex => exact unasked_readIndex host.node
  | forgetRead request =>
      refine unasked_of_view ?_ quiet_nil
      cases request <;> rfl
  | receive sender message =>
      refine unasked_step host.node ?_ ?_
      · intro term lastLogIndex lastLogTerm heq
        exact hprevote sender term lastLogIndex lastLogTerm (by rw [heq])
      · intro term granted heq
        exact hreply sender term granted (by rw [heq])
  | takeCommitted => exact unasked_of_view rfl quiet_nil
  | beginCompaction index =>
      unfold Host.run
      dsimp only
      split
      · exact unasked_self host.node
      · exact unasked_self host.node
  | finishCompaction sink data =>
      exact unasked_finishCompaction host.node _
  | restart config =>
      refine unasked_of_role ?_ quiet_nil
      show (Node.withMembers _ _ _ _).role ≠ _
      unfold Node.withMembers
      dsimp only
      rw [role_reloadMembership]
      nofun

theorem step_preVote (node : Node) (sender : NodeId)
    (term lastLogIndex lastLogTerm : Nat) :
    (node.step sender
        (Message.preVote term lastLogIndex lastLogTerm)).1 = node ∧
      forall action, action ∈ (node.step sender
          (Message.preVote term lastLogIndex lastLogTerm)).2 ->
        action.message.canvasses = true ->
          action = { dest := sender, message := Message.preVoteReply term true } := by
  unfold Node.step
  split
  · refine ⟨rfl, ?_⟩
    intro action haction hcanvasses
    rw [List.mem_singleton.mp haction] at hcanvasses
    cases hcanvasses
  · refine ⟨rfl, ?_⟩
    intro action haction hcanvasses
    have heq := List.mem_singleton.mp haction
    rw [heq] at hcanvasses ⊢
    simp only [Message.canvasses] at hcanvasses
    rw [hcanvasses]
    rfl

/-- An answer is counted, or it changes nothing that was counted. -/
structure Counted (node : Node) (sender : NodeId) (term : Nat) (granted : Bool)
    (result : Node × List Action) : Prop where
  asking : result.1.role = Role.preCandidate ->
    node.role = Role.preCandidate ∧ result.1.term = node.term ∧
      (result.1.votes = node.votes ∨
        (granted = true ∧ term = node.term + 1 ∧
          result.1.votes = insert sender node.votes))
  standing : node.role = Role.preCandidate ->
    (result.1.role = Role.candidate ∨ result.1.role = Role.leader) ->
      granted = true ∧ term = node.term + 1 ∧
        node.hasQuorum (insert sender node.votes) = true
  silent : forall action, action ∈ result.2 ->
    action.message.canvasses = false

theorem counted_step (node : Node) (sender : NodeId) (term : Nat)
    (granted : Bool) :
    Counted node sender term granted
      (node.step sender (Message.preVoteReply term granted)) := by
  have hself : Counted node sender term granted (node, []) := by
    refine ⟨fun hrole => ⟨hrole, rfl, Or.inl rfl⟩, ?_, quiet_nil⟩
    intro hasking hstanding
    rw [hasking] at hstanding
    rcases hstanding with hrole | hrole <;> cases hrole
  show Counted node sender term granted
    (node.handlePreVoteReply sender term granted)
  unfold Node.handlePreVoteReply
  split
  · next hgranted =>
      split
      · next hcurrent =>
          simp only
          split
          · next hquorum =>
              refine ⟨fun hrole => absurd hrole (silent_becomeCandidate _).1, ?_,
                (silent_becomeCandidate _).2⟩
              intro _ _
              exact ⟨hgranted, hcurrent.2, hquorum⟩
          · refine ⟨fun _ => ⟨hcurrent.1, rfl,
              Or.inr ⟨hgranted, hcurrent.2, rfl⟩⟩, ?_, quiet_nil⟩
            intro hasking hstanding
            simp only at hstanding
            rw [hasking] at hstanding
            rcases hstanding with hrole | hrole <;> cases hrole
      · exact hself
  · split
    · refine ⟨nofun, ?_, quiet_nil⟩
      intro _ hstanding
      rcases hstanding with hrole | hrole <;> cases hrole
    · exact hself

/-!
# Rounds
-/

/-- The network, the term in which each node began each of its rounds, and every message
with the number of a round: for a question the one it was asked in, for an answer the one
of the question. -/
structure Rounds where
  net : Network
  asked : NodeId -> List Nat
  letters : List (Envelope × Nat)

namespace Rounds

def start (bootstraps : NodeId -> List Member) (configs : NodeId -> Config) :
    Rounds where
  net := Network.start bootstraps configs
  asked := fun _ => []
  letters := []

/-- The number of the round that a node is in, or was in last. -/
def current (r : Rounds) (n : NodeId) : Nat :=
  (r.asked n).length - 1

/-- The rounds when an operation has begun one, or not. -/
def begun (r : Rounds) (n : NodeId) (operation : Operation) :
    NodeId -> List Nat :=
  if (r.net.hosts n).asks operation then
    Function.update r.asked n (r.asked n ++ [(r.net.hosts n).node.term])
  else r.asked

/-- The round of what an operation sends, when what it received is of round `k`. -/
def roundOf (r : Rounds) (n : NodeId) (k : Nat) : Operation -> Nat
  | Operation.receive _ (Message.preVote _ _ _) => k
  | operation => (r.begun n operation n).length - 1

def next (r : Rounds) (n : NodeId) (operation : Operation) (k : Nat) :
    Rounds where
  net := r.net.next n operation
  asked := r.begun n operation
  letters := r.letters ++
    ((r.net.hosts n).run operation).2.map (fun action =>
      ({ sender := n, dest := action.dest, message := action.message },
        r.roundOf n k operation))

def Arrives (r : Rounds) (n : NodeId) (k : Nat) : Operation -> Prop
  | Operation.receive sender message =>
      ({ sender := sender, dest := n, message := message }, k) ∈ r.letters
  | _ => True

structure Enabled (r : Rounds) (n : NodeId) (operation : Operation) (k : Nat) :
    Prop where
  net : r.net.Enabled n operation
  arrives : r.Arrives n k operation

inductive Run (allowed : Rounds -> NodeId -> Operation -> Nat -> Prop) :
    Rounds -> Rounds -> Prop where
  | refl (r : Rounds) : Run allowed r r
  | tail {r r' : Rounds} (n : NodeId) (operation : Operation) (k : Nat) :
      Run allowed r r' ->
      r'.Enabled n operation k ->
      allowed r' n operation k ->
      Run allowed r (r'.next n operation k)

/-- `v` said yes to a question of the round that `n` is in. -/
def Granted (r : Rounds) (n v : NodeId) : Prop :=
  exists term,
    ({ sender := v
       dest := n
       message := Message.preVoteReply term true }, r.current n) ∈ r.letters

/-- No node that is asking hears a yes to an earlier round of the same term. -/
def Timely (r : Rounds) (n : NodeId) (operation : Operation) (k : Nat) : Prop :=
  match operation with
  | Operation.receive _ (Message.preVoteReply _ true) =>
      (r.net.hosts n).node.role = Role.preCandidate ->
        (r.asked n)[k]? = some (r.net.hosts n).node.term -> k = r.current n
  | _ => True

structure Stands (r : Rounds) (n : NodeId) (sender : NodeId) (term : Nat)
    (granted : Bool) : Prop where
  asking : (r.net.hosts n).node.role = Role.preCandidate
  standing :
    ((r.net.hosts n).run (Operation.receive sender
        (Message.preVoteReply term granted))).1.node.role = Role.candidate ∨
      ((r.net.hosts n).run (Operation.receive sender
        (Message.preVoteReply term granted))).1.node.role = Role.leader

/-- Every question and every yes carries the term after the one in which its round began,
and the votes of a node that is asking are of its last round, which is of its present
term. -/
structure Kept (r : Rounds) : Prop where
  ids : forall n, (r.net.hosts n).node.id = n
  questions : forall n v term lastLogIndex lastLogTerm k,
    ({ sender := n
       dest := v
       message := Message.preVote term lastLogIndex lastLogTerm }, k) ∈
      r.letters -> exists t, (r.asked n)[k]? = some t ∧ term = t + 1
  answers : forall n v term k,
    ({ sender := v
       dest := n
       message := Message.preVoteReply term true }, k) ∈ r.letters ->
      exists t, (r.asked n)[k]? = some t ∧ term = t + 1
  votes : forall n, (r.net.hosts n).node.role = Role.preCandidate ->
    (r.asked n)[r.current n]? = some (r.net.hosts n).node.term ∧
      forall v, v ∈ (r.net.hosts n).node.votes -> v = n ∨ r.Granted n v

theorem kept_start (bootstraps : NodeId -> List Member)
    (configs : NodeId -> Config) : (start bootstraps configs).Kept := by
  refine ⟨?_, nofun, nofun, ?_⟩
  · intro n
    show (Node.withMembers _ _ _ _).id = n
    unfold Node.withMembers
    exact id_reloadMembership _
  · intro n hrole
    exfalso
    have hstart : (Node.withMembers n (bootstraps n) (configs n) {}).role =
        Role.preCandidate := hrole
    unfold Node.withMembers at hstart
    dsimp only at hstart
    rw [role_reloadMembership] at hstart
    cases hstart

variable {r : Rounds} {n : NodeId} {operation : Operation} {k : Nat}

theorem asked_begun (m : NodeId) : r.asked m <+: r.begun n operation m := by
  unfold begun
  split
  · by_cases hm : m = n
    · rw [hm, Function.update_self]
      exact List.prefix_append _ _
    · rw [Function.update_of_ne hm]
  · exact List.prefix_refl _

/-- Where a round stands in the list does not change. -/
theorem getElem?_begun {m : NodeId} {t : Nat}
    (h : (r.asked m)[k]? = some t) :
    (r.begun n operation m)[k]? = some t := by
  rcases asked_begun (r := r) (n := n) m with ⟨more, heq⟩
  rw [← heq, List.getElem?_append_left (List.getElem?_eq_some_iff.mp h).1]
  exact h

theorem begun_of_ne {m : NodeId} (h : m ≠ n) :
    r.begun n operation m = r.asked m := by
  unfold begun
  split
  · exact Function.update_of_ne h _ _
  · rfl

theorem begun_of_not_asks (h : (r.net.hosts n).asks operation = false)
    (m : NodeId) : r.begun n operation m = r.asked m := by
  unfold begun
  rw [h, if_neg Bool.false_ne_true]

theorem begun_of_asks (h : (r.net.hosts n).asks operation = true) :
    r.begun n operation n = r.asked n ++ [(r.net.hosts n).node.term] := by
  unfold begun
  rw [h, if_pos rfl, Function.update_self]

/-- A yes to a round stays one as long as no other round begins. -/
theorem Granted.next {m v : NodeId} (h : r.Granted m v)
    (hsame : r.begun n operation m = r.asked m) :
    (r.next n operation k).Granted m v := by
  rcases h with ⟨term, hletter⟩
  refine ⟨term, List.mem_append_left _ ?_⟩
  have hcurrent : (r.next n operation k).current m = r.current m :=
    congrArg (fun rounds => rounds.length - 1) hsame
  rw [hcurrent]
  exact hletter

theorem mem_letters_next {letter : Envelope × Nat}
    (h : letter ∈ (r.next n operation k).letters) :
    letter ∈ r.letters ∨ exists action,
      action ∈ ((r.net.hosts n).run operation).2 ∧
        letter = ({ sender := n, dest := action.dest, message := action.message },
          r.roundOf n k operation) := by
  rcases List.mem_append.mp h with hold | hnew
  · exact Or.inl hold
  · rcases List.mem_map.mp hnew with ⟨action, haction, heq⟩
    exact Or.inr ⟨action, haction, heq.symm⟩

/-- What the letters of an operation have to be for the questions and answers to stay
in order. -/
theorem Kept.letters (h : r.Kept)
    (hsent : forall action, action ∈ ((r.net.hosts n).run operation).2 ->
      action.message.canvasses = true ->
        (exists lastLogIndex lastLogTerm t,
          action.message =
            Message.preVote (t + 1) lastLogIndex lastLogTerm ∧
          (r.begun n operation n)[r.roundOf n k operation]? = some t) ∨
        exists t, action.message = Message.preVoteReply (t + 1) true ∧
          (r.begun n operation action.dest)[r.roundOf n k operation]? = some t) :
    (forall m v term lastLogIndex lastLogTerm j,
      ({ sender := m
         dest := v
         message := Message.preVote term lastLogIndex lastLogTerm }, j) ∈
        (r.next n operation k).letters ->
        exists t, (r.begun n operation m)[j]? = some t ∧ term = t + 1) ∧
      forall m v term j,
        ({ sender := v
           dest := m
           message := Message.preVoteReply term true }, j) ∈
          (r.next n operation k).letters ->
          exists t, (r.begun n operation m)[j]? = some t ∧ term = t + 1 := by
  constructor
  · intro m v term lastLogIndex lastLogTerm j hletter
    rcases mem_letters_next hletter with hold | ⟨action, haction, heq⟩
    · rcases h.questions m v term lastLogIndex lastLogTerm j hold with
        ⟨t, hround, hterm⟩
      exact ⟨t, getElem?_begun hround, hterm⟩
    · have hmessage := congrArg (fun letter => letter.1.message) heq
      have hround := congrArg Prod.snd heq
      have hsender := congrArg (fun letter => letter.1.sender) heq
      dsimp only at hmessage hround hsender
      rw [hround, hsender]
      rcases hsent action haction (by rw [← hmessage]; rfl) with
        ⟨a, b, t, hquestion, hasked⟩ | ⟨t, hanswer, _⟩
      · rw [hquestion] at hmessage
        exact ⟨t, hasked, (Message.preVote.inj hmessage).1⟩
      · rw [hanswer] at hmessage
        cases hmessage
  · intro m v term j hletter
    rcases mem_letters_next hletter with hold | ⟨action, haction, heq⟩
    · rcases h.answers m v term j hold with ⟨t, hround, hterm⟩
      exact ⟨t, getElem?_begun hround, hterm⟩
    · have hmessage := congrArg (fun letter => letter.1.message) heq
      have hround := congrArg Prod.snd heq
      have hdest := congrArg (fun letter => letter.1.dest) heq
      dsimp only at hmessage hround hdest
      rw [hround, hdest]
      rcases hsent action haction (by rw [← hmessage]; rfl) with
        ⟨a, b, t, hquestion, _⟩ | ⟨t, hanswer, hasked⟩
      · rw [hquestion] at hmessage
        cases hmessage
      · rw [hanswer] at hmessage
        exact ⟨t, hasked, (Message.preVoteReply.inj hmessage).1⟩

theorem Kept.next_of (h : r.Kept)
    (hsent : forall action, action ∈ ((r.net.hosts n).run operation).2 ->
      action.message.canvasses = true ->
        (exists lastLogIndex lastLogTerm t,
          action.message =
            Message.preVote (t + 1) lastLogIndex lastLogTerm ∧
          (r.begun n operation n)[r.roundOf n k operation]? = some t) ∨
        exists t, action.message = Message.preVoteReply (t + 1) true ∧
          (r.begun n operation action.dest)[r.roundOf n k operation]? = some t)
    (hvotes : ((r.net.hosts n).run operation).1.node.role = Role.preCandidate ->
      (r.begun n operation n)[(r.begun n operation n).length - 1]? =
          some ((r.net.hosts n).run operation).1.node.term ∧
        forall v, v ∈ ((r.net.hosts n).run operation).1.node.votes ->
          v = n ∨ (r.next n operation k).Granted n v) :
    (r.next n operation k).Kept := by
  obtain ⟨hquestions, hanswers⟩ := h.letters hsent
  refine ⟨?_, hquestions, hanswers, ?_⟩
  · have hmoved : ((r.net.hosts n).run operation).1.node.id = n := by
      rw [Host.id_run]
      exact h.ids n
    exact @Network.forall_next r.net n operation
      (fun m host => host.node.id = m) h.ids hmoved
  · intro m hrole
    by_cases hm : m = n
    · subst hm
      have hhost : ((r.next m operation k).net.hosts m) =
          ((r.net.hosts m).run operation).1 := Network.hosts_next_self _ _ _
      rw [hhost] at hrole ⊢
      exact hvotes hrole
    · have hhost : ((r.next n operation k).net.hosts m) = r.net.hosts m :=
        Network.hosts_next_of_ne _ _ hm
      have hrounds : (r.next n operation k).asked m = r.asked m := begun_of_ne hm
      rw [hhost] at hrole ⊢
      obtain ⟨hlast, hcounted⟩ := h.votes m hrole
      refine ⟨?_, ?_⟩
      · unfold current at hlast ⊢
        rw [hrounds]
        exact hlast
      · intro v hv
        rcases hcounted v hv with heq | hgranted
        · exact Or.inl heq
        · exact Or.inr (hgranted.next (begun_of_ne hm))

theorem Kept.next_of_asks (h : r.Kept)
    (hasks : (r.net.hosts n).asks operation = true) :
    (r.next n operation k).Kept := by
  have hasking := Host.asking_run hasks
  have hrounds := begun_of_asks hasks
  have hlast : (r.begun n operation n)[(r.begun n operation n).length - 1]? =
      some (r.net.hosts n).node.term := by
    rw [hrounds, List.length_append]
    exact List.getElem?_concat_length
  have hround : r.roundOf n k operation = (r.begun n operation n).length - 1 := by
    cases operation with
    | receive sender message => cases hasks
    | _ => rfl
  apply h.next_of
  · intro action haction hcanvasses
    rcases hasking.sent action haction hcanvasses with ⟨a, b, hmessage⟩
    left
    refine ⟨a, b, (r.net.hosts n).node.term, hmessage, ?_⟩
    rw [hround]
    exact hlast
  · intro hrole
    obtain ⟨hterm, hvotes⟩ := hasking.asking hrole
    dsimp only at hterm hvotes
    rw [hterm, hvotes]
    refine ⟨hlast, ?_⟩
    intro v hv
    left
    rw [Finset.mem_singleton.mp hv]
    exact h.ids n

theorem Kept.votes_same (h : r.Kept) (operation : Operation) (k : Nat)
    (hasks : (r.net.hosts n).asks operation = false)
    (hrole : (r.net.hosts n).node.role = Role.preCandidate) :
    (r.begun n operation n)[(r.begun n operation n).length - 1]? =
        some (r.net.hosts n).node.term ∧
      forall v, v ∈ (r.net.hosts n).node.votes ->
        v = n ∨ (r.next n operation k).Granted n v := by
  have hrounds := begun_of_not_asks hasks n
  obtain ⟨hlast, hcounted⟩ := h.votes n hrole
  rw [hrounds]
  refine ⟨hlast, ?_⟩
  intro v hv
  rcases hcounted v hv with heq | hgranted
  · exact Or.inl heq
  · exact Or.inr (hgranted.next hrounds)

theorem Kept.next_of_unasked (h : r.Kept)
    (hasks : (r.net.hosts n).asks operation = false)
    (hunasked : Unasked (r.net.hosts n).node
      (((r.net.hosts n).run operation).1.node,
        ((r.net.hosts n).run operation).2)) :
    (r.next n operation k).Kept := by
  apply h.next_of
  · intro action haction hcanvasses
    rw [hunasked.silent action haction] at hcanvasses
    cases hcanvasses
  · intro hrole
    obtain ⟨hasking, hterm, hvotes⟩ := hunasked.asking hrole
    dsimp only at hterm hvotes
    rw [hterm, hvotes]
    exact h.votes_same operation k hasks hasking

theorem Kept.next_of_question (h : r.Kept) {sender : NodeId}
    {term lastLogIndex lastLogTerm : Nat}
    (harrives : r.Arrives n k (Operation.receive sender
      (Message.preVote term lastLogIndex lastLogTerm))) :
    (r.next n (Operation.receive sender
      (Message.preVote term lastLogIndex lastLogTerm)) k).Kept := by
  obtain ⟨hnode, hsent⟩ := step_preVote (r.net.hosts n).node sender term
    lastLogIndex lastLogTerm
  apply h.next_of
  · intro action haction hcanvasses
    right
    rw [hsent action haction hcanvasses]
    rcases h.questions sender n term lastLogIndex lastLogTerm k harrives with
      ⟨t, hasked, hterm⟩
    rw [hterm]
    exact ⟨t, rfl, getElem?_begun hasked⟩
  · intro hrole
    have hsame : ((r.net.hosts n).run (Operation.receive sender
        (Message.preVote term lastLogIndex lastLogTerm))).1.node =
        (r.net.hosts n).node := hnode
    rw [hsame] at hrole ⊢
    exact h.votes_same _ k rfl hrole

/-- A yes that is counted is one to the present round, if it is in time. -/
theorem Kept.granted (h : r.Kept) {sender : NodeId} {term : Nat}
    (harrives : r.Arrives n k (Operation.receive sender
      (Message.preVoteReply term true)))
    (htimely : r.Timely n (Operation.receive sender
      (Message.preVoteReply term true)) k)
    (hrole : (r.net.hosts n).node.role = Role.preCandidate)
    (hterm : term = (r.net.hosts n).node.term + 1) : r.Granted n sender := by
  rcases h.answers n sender term k harrives with ⟨t, hasked, hproposed⟩
  have hpresent : t = (r.net.hosts n).node.term := by omega
  rw [hpresent] at hasked
  have hcurrent : k = r.current n := htimely hrole hasked
  exact ⟨term, hcurrent ▸ harrives⟩

theorem Kept.next_of_answer (h : r.Kept) {sender : NodeId} {term : Nat}
    {granted : Bool}
    (harrives : r.Arrives n k (Operation.receive sender
      (Message.preVoteReply term granted)))
    (htimely : r.Timely n (Operation.receive sender
      (Message.preVoteReply term granted)) k) :
    (r.next n (Operation.receive sender
      (Message.preVoteReply term granted)) k).Kept := by
  have hcounted := counted_step (r.net.hosts n).node sender term granted
  apply h.next_of
  · intro action haction hcanvasses
    rw [hcounted.silent action haction] at hcanvasses
    cases hcanvasses
  · intro hrole
    obtain ⟨hasking, hterm, hvotes⟩ := hcounted.asking hrole
    obtain ⟨hlast, hkept⟩ := h.votes_same (Operation.receive sender
      (Message.preVoteReply term granted)) k rfl hasking
    refine ⟨by rw [hlast]; exact congrArg some hterm.symm, ?_⟩
    intro v hv
    rcases hvotes with hsame | ⟨hyes, hproposed, hmore⟩
    · exact hkept v (hsame ▸ hv)
    · have hin : v ∈ insert sender (r.net.hosts n).node.votes := hmore ▸ hv
      rcases Finset.mem_insert.mp hin with heq | hold
      · right
        subst hyes
        rw [heq]
        exact (h.granted harrives htimely hasking hproposed).next rfl
      · exact hkept v hold

theorem Kept.next (h : r.Kept) (henabled : r.Enabled n operation k)
    (htimely : r.Timely n operation k) : (r.next n operation k).Kept := by
  cases hasks : (r.net.hosts n).asks operation with
  | true => exact h.next_of_asks hasks
  | false =>
      by_cases hquestion : exists sender term lastLogIndex lastLogTerm,
          operation = Operation.receive sender
            (Message.preVote term lastLogIndex lastLogTerm)
      · rcases hquestion with ⟨sender, term, lastLogIndex, lastLogTerm, rfl⟩
        exact h.next_of_question henabled.arrives
      · by_cases hanswer : exists sender term granted,
            operation = Operation.receive sender
              (Message.preVoteReply term granted)
        · rcases hanswer with ⟨sender, term, granted, rfl⟩
          exact h.next_of_answer henabled.arrives htimely
        · refine h.next_of_unasked hasks (Host.unasked_run hasks ?_ ?_)
          · intro sender term lastLogIndex lastLogTerm heq
            exact hquestion ⟨sender, term, lastLogIndex, lastLogTerm, heq⟩
          · intro sender term granted heq
            exact hanswer ⟨sender, term, granted, heq⟩

theorem Run.kept {r r' : Rounds} (hrun : Run Timely r r') (h : r.Kept) :
    r'.Kept := by
  induction hrun with
  | refl => exact h
  | tail n operation k _ henabled htimely ih => exact ih.next henabled htimely

end Rounds

/-- When an answer makes a node stand, a majority of its voters said yes to the round
it is in, as long as no node that is asking hears a yes to an earlier round of the same
term. -/
theorem pre_votes_of_the_round {bootstraps : NodeId -> List Member}
    {configs : NodeId -> Config} {r : Rounds}
    (hrun : Rounds.Run Rounds.Timely (Rounds.start bootstraps configs) r)
    {n sender : NodeId} {term k : Nat} {granted : Bool}
    (henabled : r.Enabled n (Operation.receive sender
      (Message.preVoteReply term granted)) k)
    (htimely : r.Timely n (Operation.receive sender
      (Message.preVoteReply term granted)) k)
    (hstands : r.Stands n sender term granted) :
    exists granters : Finset NodeId,
      (r.net.hosts n).node.hasQuorum granters = true ∧
        forall v, v ∈ granters -> v = n ∨ r.Granted n v := by
  have hkept := hrun.kept (Rounds.kept_start bootstraps configs)
  obtain ⟨hyes, hproposed, hquorum⟩ :=
    (counted_step (r.net.hosts n).node sender term granted).standing
      hstands.asking hstands.standing
  subst hyes
  refine ⟨insert sender (r.net.hosts n).node.votes, hquorum, ?_⟩
  intro v hv
  rcases Finset.mem_insert.mp hv with heq | hold
  · right
    rw [heq]
    exact hkept.granted henabled.arrives htimely hstands.asking hproposed
  · exact (hkept.votes n hstands.asking).2 v hold

def oneRound : Rounds :=
  ((Rounds.start (fun _ => founders) (fun _ => {})).next 1
    Operation.preVote 0).next 2
      (Operation.receive 1 (Message.preVote 1 0 0)) 0

def twoRounds : Rounds :=
  oneRound.next 1 Operation.preVote 0

theorem run_oneRound : Rounds.Run Rounds.Timely
    (Rounds.start (fun _ => founders) (fun _ => {})) oneRound :=
  Rounds.Run.tail 2 (Operation.receive 1 (Message.preVote 1 0 0)) 0
    (Rounds.Run.tail 1 Operation.preVote 0 (Rounds.Run.refl _)
      ⟨⟨trivial, trivial⟩, trivial⟩ trivial)
    ⟨⟨trivial, by decide +kernel⟩, show _ ∈ _ by decide +kernel⟩ trivial

theorem Rounds.Run.anyway
    {allowed : Rounds -> NodeId -> Operation -> Nat -> Prop} {r r' : Rounds}
    (h : Rounds.Run allowed r r') :
    Rounds.Run (fun _ _ _ _ => True) r r' := by
  induction h with
  | refl => exact Rounds.Run.refl _
  | tail n operation k _ henabled _ ih =>
      exact Rounds.Run.tail n operation k ih henabled trivial

/-- Nobody has answered the second round, and the yes to the first, which proposed the
same term, makes node 1 stand. -/
theorem yes_to_an_earlier_round :
    Rounds.Run (fun _ _ _ _ => True)
        (Rounds.start (fun _ => founders) (fun _ => {})) twoRounds ∧
      twoRounds.Enabled 1 (Operation.receive 2 (Message.preVoteReply 1 true)) 0 ∧
      twoRounds.Stands 1 2 1 true ∧
      ¬ exists granters : Finset NodeId,
        (twoRounds.net.hosts 1).node.hasQuorum granters = true ∧
          forall v, v ∈ granters -> v = 1 ∨ twoRounds.Granted 1 v := by
  have hvoters : (twoRounds.net.hosts 1).node.voters = [1, 2, 3] := by
    decide +kernel
  have hquorum : (twoRounds.net.hosts 1).node.quorum = 2 := by
    decide +kernel
  have hcurrent : twoRounds.current 1 = 1 := by
    decide +kernel
  have hfirst : forall letter, letter ∈ twoRounds.letters ->
      letter.1.sender ≠ 1 -> letter.2 = 0 := by
    decide +kernel
  refine ⟨?_, ⟨⟨trivial, by decide +kernel⟩, show _ ∈ _ by decide +kernel⟩,
    ⟨by decide +kernel, by decide +kernel⟩, ?_⟩
  · exact Rounds.Run.tail 1 Operation.preVote 0 run_oneRound.anyway
      ⟨⟨trivial, trivial⟩, trivial⟩ trivial
  · intro hgranters
    rcases hgranters with ⟨granters, hmajority, hall⟩
    have honly : forall v, v ∈ granters -> v = 1 := by
      intro v hv
      rcases hall v hv with heq | ⟨term, hletter⟩
      · exact heq
      · rw [hcurrent] at hletter
        by_contra hne
        exact absurd (hfirst _ hletter hne) Nat.one_ne_zero
    have htwo : 2 ∉ granters := fun hin => absurd (honly 2 hin) (by decide)
    have hthree : 3 ∉ granters := fun hin => absurd (honly 3 hin) (by decide)
    have hcount := hmajority
    simp only [Node.hasQuorum, hvoters, hquorum, Bool.and_eq_true,
      decide_eq_true_eq, List.filter_cons, htwo, hthree, List.filter_nil,
      decide_false] at hcount
    obtain ⟨_, hcount⟩ := hcount
    split at hcount <;> exact absurd hcount (by decide)

/-- The yes is heard before the node asks again. -/
theorem pre_votes_of_the_round_first :
    oneRound.Stands 1 2 1 true ∧
      exists granters : Finset NodeId,
        (oneRound.net.hosts 1).node.hasQuorum granters = true ∧
          forall v, v ∈ granters -> v = 1 ∨ oneRound.Granted 1 v := by
  have hstands : oneRound.Stands 1 2 1 true :=
    ⟨by decide +kernel, by decide +kernel⟩
  refine ⟨hstands, pre_votes_of_the_round run_oneRound (k := 0)
    ⟨⟨trivial, by decide +kernel⟩, show _ ∈ _ by decide +kernel⟩ ?_ hstands⟩
  intro _ _
  decide +kernel

end Raft
end Minicask
