import Minicask.Raft.ForwardedReads

/-!
# The numbers of forwarded reads

A node counts the questions it asks.  Only asking one uses up a number, and only the
numbers used up are ever sent.
-/

namespace Minicask
namespace Raft

def NotQuestion (action : Action) : Prop :=
  forall term id, action.message ≠ Message.readIndex term id

/-- Numbers are used up in order, and none is sent that has not been used up. -/
structure CountsReads (node : Node) (result : Node × List Action) : Prop where
  grows : node.nextRead <= result.1.nextRead
  asked : forall action term id, action ∈ result.2 ->
    action.message = Message.readIndex term id -> id <= result.1.nextRead

/-- An operation that asks nothing uses up no number. -/
structure Unasking (node : Node) (result : Node × List Action) : Prop where
  nextRead : result.1.nextRead = node.nextRead
  silent : forall action, action ∈ result.2 -> NotQuestion action

theorem Unasking.counts {node : Node} {result : Node × List Action}
    (h : Unasking node result) : CountsReads node result where
  grows := Nat.le_of_eq h.nextRead.symm
  asked action term id haction hmessage :=
    absurd hmessage (h.silent action haction term id)

theorem Unasking.trans {node next result : Node} {earlier later : List Action}
    (hfirst : Unasking node (next, earlier)) (hsecond : Unasking next (result, later)) :
    Unasking node (result, earlier ++ later) where
  nextRead := hsecond.nextRead.trans hfirst.nextRead
  silent action haction := by
    rcases List.mem_append.mp haction with hold | hnew
    · exact hfirst.silent action hold
    · exact hsecond.silent action hnew

theorem Unasking.of_nextRead {node next : Node} {result : Node × List Action}
    (h : Unasking next result) (hsame : next.nextRead = node.nextRead) :
    Unasking node result :=
  ⟨h.nextRead.trans hsame, h.silent⟩

section Operations

variable (node : Node)

theorem unasking_none {next : Node} (h : next.nextRead = node.nextRead) :
    Unasking node (next, []) :=
  ⟨h, List.forall_mem_nil _⟩

theorem unasking_one {next : Node} {action : Action}
    (h : next.nextRead = node.nextRead) (hsilent : NotQuestion action) :
    Unasking node (next, [action]) :=
  ⟨h, List.forall_mem_singleton.mpr hsilent⟩

theorem unasking_map {next : Node} {ids : List NodeId} {f : NodeId -> Action}
    (h : next.nextRead = node.nextRead) (hsilent : forall id, NotQuestion (f id)) :
    Unasking node (next, ids.map f) :=
  ⟨h, List.forall_mem_map.mpr fun id _ => hsilent id⟩

theorem nextRead_reloadMembership :
    node.reloadMembership.nextRead = node.nextRead := by
  rcases reloadMembership_eq node with ⟨_, _, _, heq⟩
  rw [heq]

theorem nextRead_maybeCommit : node.maybeCommit.nextRead = node.nextRead := by
  rcases maybeCommit_eq node with ⟨_, heq⟩
  rw [heq]

theorem nextRead_appendLocal (command : Command) :
    (node.appendLocal command).1.nextRead = node.nextRead := by
  unfold Node.appendLocal
  dsimp only
  rw [nextRead_maybeCommit]
  split
  · rw [nextRead_reloadMembership]
  · rfl

theorem nextRead_acceptEntries (prevLogIndex : Nat) (entries : List Entry) :
    (node.acceptEntries prevLogIndex entries).nextRead = node.nextRead := by
  unfold Node.acceptEntries
  dsimp only
  split
  · rw [nextRead_reloadMembership]
  · rfl

theorem notQuestion_appendMessageFor (peer : NodeId) :
    NotQuestion (node.appendMessageFor peer) := by
  intro term id heq
  unfold Node.appendMessageFor at heq
  dsimp only at heq
  split at heq <;> cases heq

theorem unasking_broadcastAppend : Unasking node node.broadcastAppend := by
  rcases broadcastAppend_eq node with ⟨_, rfl | rfl, heq⟩
  · rw [heq]
    exact unasking_map _ rfl (notQuestion_appendMessageFor _)
  · rw [heq]
    exact unasking_map _ (nextRead_reloadMembership node)
      (notQuestion_appendMessageFor _)

theorem unasking_becomeFollower (term : Nat) (leader : Option NodeId) :
    Unasking node (node.becomeFollower term leader, []) :=
  unasking_none _ rfl

theorem unasking_becomeLeader : Unasking node node.becomeLeader := by
  rw [becomeLeader_eq]
  refine (unasking_broadcastAppend _).of_nextRead ?_
  exact nextRead_maybeCommit _

theorem unasking_becomeCandidate : Unasking node node.becomeCandidate := by
  unfold Node.becomeCandidate
  dsimp only
  split
  · exact (unasking_becomeLeader _).of_nextRead rfl
  · exact unasking_map _ rfl fun _ _ _ heq => by cases heq

theorem unasking_becomePreCandidate : Unasking node node.becomePreCandidate := by
  unfold Node.becomePreCandidate
  dsimp only
  split
  · exact (unasking_becomeCandidate _).of_nextRead rfl
  · exact unasking_map _ rfl fun _ _ _ heq => by cases heq

theorem unasking_handlePreVoteReply (sender : NodeId) (term : Nat)
    (granted : Bool) :
    Unasking node (node.handlePreVoteReply sender term granted) := by
  unfold Node.handlePreVoteReply
  split
  · split
    · dsimp only
      split
      · exact (unasking_becomeCandidate _).of_nextRead rfl
      · exact unasking_none _ rfl
    · exact unasking_none _ rfl
  · split
    · exact unasking_becomeFollower node term none
    · exact unasking_none _ rfl

theorem unasking_handleRequestVote (sender : NodeId)
    (lastLogIndex lastLogTerm : Nat) :
    Unasking node (node.handleRequestVote sender lastLogIndex lastLogTerm) := by
  unfold Node.handleRequestVote
  dsimp only
  refine unasking_one _ ?_ fun _ _ heq => by cases heq
  have hvoted : forall granted : Bool, (if granted then
      Node.resetElectionTimer { node with
        storage := node.storage.saveHardState
          { term := node.storage.hardState.term, votedFor := some sender } }
      else node).nextRead = node.nextRead := by
    intro granted
    cases granted <;> rfl
  exact hvoted _

theorem unasking_handleVoteReply (sender : NodeId) (term : Nat) (granted : Bool) :
    Unasking node (node.handleVoteReply sender term granted) := by
  unfold Node.handleVoteReply
  split
  · exact unasking_none _ rfl
  · split
    · dsimp only
      split
      · exact (unasking_becomeLeader _).of_nextRead rfl
      · exact unasking_none _ rfl
    · exact unasking_none _ rfl

theorem unasking_handleAppendEntries (sender : NodeId)
    (prevLogIndex prevLogTerm : Nat) (entries : List Entry)
    (leaderCommit seq : Nat) :
    Unasking node (node.handleAppendEntries sender prevLogIndex prevLogTerm
      entries leaderCommit seq) := by
  unfold Node.handleAppendEntries
  dsimp only
  split
  · exact unasking_one _ rfl fun _ _ heq => by cases heq
  · split
    · split <;> exact unasking_one _ rfl fun _ _ heq => by cases heq
    · refine unasking_one _ ?_ fun _ _ heq => by cases heq
      split <;> exact nextRead_acceptEntries _ _ _

theorem unasking_handleInstallSnapshot (sender : NodeId) (about : SnapshotMeta)
    (offset : Nat) (data : Bytes) (done : Bool) (seq : Nat)
    (members : Option (List Member)) :
    Unasking node (node.handleInstallSnapshot sender about offset data done seq
      members) := by
  unfold Node.handleInstallSnapshot
  dsimp only
  split
  · exact unasking_one _ rfl fun _ _ heq => by cases heq
  split
  · exact unasking_one _ rfl fun _ _ heq => by cases heq
  split
  · exact unasking_one _ rfl fun _ _ heq => by cases heq
  split
  · exact unasking_one _ rfl fun _ _ heq => by cases heq
  · refine unasking_one _ ?_ fun _ _ heq => by cases heq
    exact nextRead_reloadMembership _

theorem unasking_handleAppendReply (sender : NodeId) (success : Bool)
    (matchIndex conflictIndex : Nat) (conflictTerm : Option Nat) :
    Unasking node (node.handleAppendReply sender success matchIndex conflictIndex
      conflictTerm) := by
  unfold Node.handleAppendReply
  split
  · split
    · dsimp only
      split
      · exact unasking_one _ (nextRead_maybeCommit _)
          (notQuestion_appendMessageFor _ _)
      · exact unasking_none _ (nextRead_maybeCommit _)
    · exact unasking_none _ rfl
  · exact unasking_one _ rfl (notQuestion_appendMessageFor _ _)

theorem unasking_handleSnapshotReply (sender : NodeId)
    (lastIndex nextOffset : Nat) (done : Bool) :
    Unasking node (node.handleSnapshotReply sender lastIndex nextOffset done) := by
  have hfinish : forall next : Node, next.nextRead = node.nextRead ->
      Unasking node (next,
        if (next.nextIndex sender).getD 0 <= next.storage.lastIndex then
          [next.appendMessageFor sender]
        else []) := by
    intro next hsame
    split
    · exact unasking_one _ hsame (notQuestion_appendMessageFor _ _)
    · exact unasking_none _ hsame
  unfold Node.handleSnapshotReply
  dsimp only
  split
  · split
    · exact hfinish _ (nextRead_maybeCommit _)
    · exact hfinish _ rfl
  · exact unasking_one _ rfl (notQuestion_appendMessageFor _ _)

theorem unasking_proposeMembership {members : List Member} {next : Node}
    {index : Nat} {actions : List Action}
    (hok : node.proposeMembership members = Except.ok (next, index, actions)) :
    Unasking node (next, actions) := by
  unfold Node.proposeMembership at hok
  split at hok
  · cases hok
  split at hok
  · cases hok
  split at hok
  · cases hok
  split at hok
  · cases hok
  dsimp only at hok
  split at hok
  · cases hok
  split at hok
  · cases hok
  · cases hok
    exact (unasking_broadcastAppend _).of_nextRead (nextRead_appendLocal node _)

theorem unasking_propose {command : Bytes} {next : Node} {index : Nat}
    {actions : List Action}
    (hok : node.propose command = Except.ok (next, index, actions)) :
    Unasking node (next, actions) := by
  unfold Node.propose at hok
  split at hok
  · cases hok
  dsimp only at hok
  split at hok
  · cases hok
  · cases hok
    exact (unasking_broadcastAppend _).of_nextRead (nextRead_appendLocal node _)

theorem unasking_proposeBatch {commands : List Bytes} {next : Node}
    {answers : List (Except ProposeError Nat)} {actions : List Action}
    (hok : node.proposeBatch commands = Except.ok (next, answers, actions)) :
    Unasking node (next, actions) := by
  unfold Node.proposeBatch at hok
  split at hok
  · cases hok
  dsimp only at hok
  split at hok
  · cases hok
    exact unasking_none _ rfl
  · cases hok
    exact (unasking_broadcastAppend _).of_nextRead (nextRead_maybeCommit _)

theorem unasking_maybePromote : Unasking node node.maybePromote := by
  unfold Node.maybePromote
  split
  · exact unasking_none _ rfl
  · split
    · exact unasking_none _ rfl
    · dsimp only
      split
      · next hok => exact unasking_proposeMembership node hok
      · exact unasking_none _ rfl

theorem unasking_checkQuorum : Unasking node (node.checkQuorum, []) := by
  unfold Node.checkQuorum
  dsimp only
  split
  · split
    · exact (unasking_becomeFollower _ _ _).of_nextRead rfl
    · exact unasking_none _ rfl
  · exact unasking_none _ rfl

theorem unasking_tick : Unasking node node.tick := by
  unfold Node.tick
  split
  · split
    · exact unasking_becomeFollower node _ none
    · dsimp only
      have hbeats : Unasking node
          (if node.heartbeatElapsed + 1 >= node.config.heartbeatTicks then
            Node.broadcastAppend { node with heartbeatElapsed := 0 }
          else ({ node with
            heartbeatElapsed := node.heartbeatElapsed + 1 }, [])) := by
        split
        · exact (unasking_broadcastAppend _).of_nextRead rfl
        · exact unasking_none _ rfl
      generalize (if node.heartbeatElapsed + 1 >=
          node.config.heartbeatTicks then
            Node.broadcastAppend { node with heartbeatElapsed := 0 }
          else ({ node with
            heartbeatElapsed := node.heartbeatElapsed + 1 }, [])) =
        beaten at hbeats ⊢
      rcases beaten with ⟨next, beats⟩
      have hpromote := unasking_maybePromote next
      dsimp only
      generalize next.maybePromote = promoted at hpromote ⊢
      rcases promoted with ⟨later, promotion⟩
      have hall := (hbeats.trans hpromote).trans (unasking_checkQuorum later)
      rw [List.append_nil] at hall
      exact hall
  · dsimp only
    split
    · split
      · exact (unasking_becomePreCandidate _).of_nextRead rfl
      · exact unasking_none _ rfl
    · exact unasking_none _ rfl

theorem unasking_campaign : Unasking node node.campaign := by
  unfold Node.campaign
  split
  · exact unasking_becomeCandidate node
  · exact unasking_none _ rfl

/-!
# Messages
-/

theorem openReadRound_unasking :
    Unasking node (node.openReadRound.1, node.openReadRound.2.1) :=
  unasking_map _ rfl fun _ _ _ heq => by cases heq

theorem unasking_heardRound {sender : NodeId} {term seq : Nat} {next : Node}
    {released : List Action}
    (h : node.heardRound sender term seq = some (next, released)) :
    Unasking node (next, released) := by
  unfold Node.heardRound at h
  split at h
  · cases h
  · dsimp only at h
    split at h
    · rw [← Option.some.inj h]
      refine ⟨rfl, fun action haction term id heq => ?_⟩
      rcases List.mem_map.mp haction with ⟨read, _, rfl⟩
      cases heq
    · cases h
      exact unasking_none _ rfl

theorem unasking_handleReadIndex (sender : NodeId) (id : Nat) :
    Unasking node (node.handleReadIndex sender id) := by
  unfold Node.handleReadIndex
  split
  · exact unasking_one _ rfl fun _ _ heq => by cases heq
  · exact ⟨rfl, (openReadRound_unasking node).silent⟩

theorem unasking_handleReadIndexReply (id : Nat) (index : Option Nat) :
    Unasking node (node.handleReadIndexReply id index, []) := by
  unfold Node.handleReadIndexReply
  split <;> exact unasking_none _ rfl

theorem unasking_handle (sender : NodeId) (message : Message) :
    Unasking node (node.handle sender message) := by
  cases message with
  | preVote term lastLogIndex lastLogTerm => exact unasking_none _ rfl
  | preVoteReply term granted => exact unasking_none _ rfl
  | requestVote term lastLogIndex lastLogTerm =>
      exact unasking_handleRequestVote node sender _ _
  | requestVoteReply term granted =>
      exact unasking_handleVoteReply node sender term granted
  | appendEntries term prev prevTerm entries leaderCommit seq =>
      exact unasking_handleAppendEntries node sender _ _ _ _ _
  | appendEntriesReply term success matchIndex conflictIndex conflictTerm seq =>
      unfold Node.handle
      dsimp only
      cases hheard : node.heardRound sender term seq with
      | none => exact unasking_none _ rfl
      | some heard =>
          exact (unasking_heardRound node hheard).trans
            (unasking_handleAppendReply heard.1 sender _ _ _ _)
  | installSnapshot term lastIndex lastTerm offset data done seq members =>
      exact unasking_handleInstallSnapshot node sender _ _ _ _ _ _
  | installSnapshotReply term lastIndex nextOffset done seq =>
      unfold Node.handle
      dsimp only
      cases hheard : node.heardRound sender term seq with
      | none => exact unasking_none _ rfl
      | some heard =>
          exact (unasking_heardRound node hheard).trans
            (unasking_handleSnapshotReply heard.1 sender _ _ _)
  | readIndex term id => exact unasking_handleReadIndex node sender id
  | readIndexReply term id index => exact unasking_handleReadIndexReply node id index

/-- No message makes a node ask. -/
theorem unasking_step (sender : NodeId) (message : Message) :
    Unasking node (node.step sender message) := by
  have hrest : Unasking node
      (if message.term > node.term then
        (node.becomeFollower message.term none).handle sender message
      else if message.term < node.term && message.isRequest then
        (node, [node.replyStale sender message])
      else node.handle sender message) := by
    split
    · exact (unasking_handle _ sender message).of_nextRead rfl
    · split
      · refine unasking_one _ rfl fun term id heq => ?_
        unfold Node.replyStale at heq
        cases message <;> cases heq
      · exact unasking_handle node sender message
  unfold Node.step
  split
  · refine unasking_one _ rfl fun term id heq => ?_
    unfold Node.refuseVote at heq
    cases message <;> cases heq
  · cases message with
    | preVote term lastLogIndex lastLogTerm =>
        exact unasking_one _ rfl fun _ _ heq => by cases heq
    | preVoteReply term granted =>
        exact unasking_handlePreVoteReply node sender term granted
    | _ => exact hrest

/-- Asking for a read sends the number that it uses up. -/
theorem counts_readIndex :
    CountsReads node (node.readIndex.1, node.readIndex.2.2) := by
  unfold Node.readIndex
  split
  · exact (openReadRound_unasking node).counts
  · split
    · refine ⟨Nat.le_succ _, fun action term id haction hmessage => ?_⟩
      rw [List.mem_singleton.mp haction] at hmessage
      cases hmessage
      exact Nat.le_refl _
    · exact (unasking_none node rfl).counts

theorem nextRead_forgetRead (request : ReadRequest) :
    (node.forgetRead request).nextRead = node.nextRead := by
  cases request <;> rfl

theorem nextRead_finishCompaction (sink : MemSnapshot) :
    (node.finishCompaction sink).1.nextRead = node.nextRead := by
  unfold Node.finishCompaction
  split <;> rfl

theorem nextRead_withMembers (n : NodeId) (B : List Member) (config : Config)
    (storage : MemStorage) : (Node.withMembers n B config storage).nextRead = 0 := by
  unfold Node.withMembers
  exact nextRead_reloadMembership _

end Operations

end Raft
end Minicask
