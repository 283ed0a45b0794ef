import Minicask.Raft.Reads

/-!
# Reads a follower forwards

An answer is matched to its question by a number the follower chose.  The number
starts over when the follower restarts, so an answer to an earlier incarnation
can be taken for one to a later question.  As long as no answer to the number is
around when the question is asked, the answer that comes is to this question or
to a later one, and covers everything committed when it was asked.
-/

namespace Minicask
namespace Raft

open Consensus Cluster

/-!
# What an operation does to the reads of a node
-/

/-- The part of a node that decides about reads. -/
def readView (node : Node) : Role × Nat × List RemoteRead × Table Answer :=
  (node.role, node.term, node.remoteReads, node.forwarded)

def NotAnswer (action : Action) : Prop :=
  forall term id index,
    action.message ≠ Message.readIndexReply term id (some index)

/-- The read a leader notes down when it is asked for one. -/
def asked (node : Node) (sender : NodeId) (id : Nat) : RemoteRead :=
  { sender := sender
    id := id
    seq := node.seq + 1
    index := max node.commitIndex node.leaderStart }

/-- The term and the round of a reply that can confirm one. -/
def roundOf : Message -> Option (Nat × Nat)
  | Message.appendEntriesReply term _ _ _ _ seq => some (term, seq)
  | Message.installSnapshotReply term _ _ _ seq => some (term, seq)
  | _ => none

/-- A read of this leader that a message has confirmed. -/
def Released (node : Node) (sender : NodeId) (message : Message)
    (read : RemoteRead) : Prop :=
  read ∈ node.remoteReads ∧ node.role = Role.leader ∧
    exists term seq next released, roundOf message = some (term, seq) ∧
      node.heardRound sender term seq = some (next, released) ∧
      next.roundConfirmed read.seq = true

/-- Everything an arriving message can do to the reads of a node. -/
structure ReadsStep (node : Node) (sender : NodeId) (message : Message)
    (result : Node × List Action) : Prop where
  pending : result.1.role = Role.leader ->
    forall read, read ∈ result.1.remoteReads ->
      node.role = Role.leader ∧ result.1.term = node.term ∧
        (read ∈ node.remoteReads ∨ exists term id,
          message = Message.readIndex term id ∧ read = asked node sender id)
  ready : forall id index,
    result.1.forwarded id = some (Answer.ready index) ->
      node.forwarded id = some (Answer.ready index) ∨ exists term,
        message = Message.readIndexReply term id (some index)
  answers : forall action term id index, action ∈ result.2 ->
    action.message = Message.readIndexReply term id (some index) ->
      exists read, Released node sender message read ∧
        action.dest = read.sender ∧ id = read.id ∧ index = read.index

/-- An operation that opens no read and answers none. -/
structure ReadsKept (node : Node) (result : Node × List Action) : Prop where
  pending : result.1.role = Role.leader -> result.1.remoteReads = [] ∨
    (node.role = Role.leader ∧ result.1.term = node.term ∧
      result.1.remoteReads = node.remoteReads)
  forwarded : result.1.forwarded = node.forwarded
  silent : forall action, action ∈ result.2 -> NotAnswer action

theorem ReadsKept.step {node : Node} {result : Node × List Action}
    (h : ReadsKept node result) (sender : NodeId) (message : Message) :
    ReadsStep node sender message result where
  pending := by
    intro hrole read hread
    rcases h.pending hrole with hnone | ⟨hlead, hterm, hsame⟩
    · rw [hnone] at hread
      cases hread
    · rw [hsame] at hread
      exact ⟨hlead, hterm, Or.inl hread⟩
  ready := by
    intro id index hready
    rw [h.forwarded] at hready
    exact Or.inl hready
  answers := by
    intro action term id index haction hmessage
    exact absurd hmessage (h.silent action haction term id index)

theorem readsKept_of_view {node : Node} {result : Node × List Action}
    (hview : readView result.1 = readView node)
    (hsilent : forall action, action ∈ result.2 -> NotAnswer action) :
    ReadsKept node result := by
  simp only [readView, Prod.mk.injEq] at hview
  rcases hview with ⟨hrole, hterm, hremote, hforwarded⟩
  refine ⟨?_, hforwarded, hsilent⟩
  intro hlead
  exact Or.inr ⟨hrole ▸ hlead, hterm, hremote⟩

/-- An operation that ends without leading leaves no read pending. -/
theorem readsKept_of_role {node : Node} {result : Node × List Action}
    (hrole : result.1.role ≠ Role.leader)
    (hforwarded : result.1.forwarded = node.forwarded)
    (hsilent : forall action, action ∈ result.2 -> NotAnswer action) :
    ReadsKept node result :=
  ⟨fun hlead => absurd hlead hrole, hforwarded, hsilent⟩

theorem silent_nil : forall action, action ∈ ([] : List Action) ->
    NotAnswer action := by
  intro action haction
  cases haction

theorem silent_one {action : Action} (h : NotAnswer action) :
    forall other, other ∈ [action] -> NotAnswer other := by
  intro other hother
  rw [List.mem_singleton.mp hother]
  exact h

theorem silent_map {ids : List NodeId} {f : NodeId -> Action}
    (h : forall id, NotAnswer (f id)) :
    forall action, action ∈ ids.map f -> NotAnswer action := by
  intro action haction
  rcases List.mem_map.mp haction with ⟨id, _, heq⟩
  rw [← heq]
  exact h id

theorem ReadsKept.trans {node next : Node} {earlier later : List Action}
    {result : Node} (hfirst : ReadsKept node (next, earlier))
    (hsecond : ReadsKept next (result, later)) :
    ReadsKept node (result, earlier ++ later) where
  pending := by
    intro hrole
    rcases hsecond.pending hrole with hnone | ⟨hlead, hterm, hsame⟩
    · exact Or.inl hnone
    · rcases hfirst.pending hlead with hnone | ⟨hlead', hterm', hsame'⟩
      · left
        rw [hsame]
        exact hnone
      · exact Or.inr ⟨hlead', hterm.trans hterm', hsame.trans hsame'⟩
  forwarded := hsecond.forwarded.trans hfirst.forwarded
  silent := by
    intro action haction
    rcases List.mem_append.mp haction with hold | hnew
    · exact hfirst.silent action hold
    · exact hsecond.silent action hnew

theorem ReadsKept.of_view {node next : Node} {result : Node × List Action}
    (h : ReadsKept next result) (hview : readView next = readView node) :
    ReadsKept node result :=
  ReadsKept.trans (readsKept_of_view hview silent_nil) h

theorem ReadsKept.of_cleared {node next : Node} {result : Node × List Action}
    (h : ReadsKept next result) (hcleared : next.remoteReads = [])
    (hforwarded : next.forwarded = node.forwarded) : ReadsKept node result := by
  refine ⟨?_, h.forwarded.trans hforwarded, h.silent⟩
  intro hrole
  left
  rcases h.pending hrole with hnone | ⟨_, _, hsame⟩
  · exact hnone
  · rw [hsame]
    exact hcleared

section Operations

variable (node : Node)

theorem reloadMembership_readView :
    readView node.reloadMembership = readView node := by
  rcases reloadMembership_eq node with ⟨_, _, _, heq⟩
  rw [heq]
  rfl

theorem maybeCommit_readView : readView node.maybeCommit = readView node := by
  rcases maybeCommit_eq node with ⟨_, heq⟩
  rw [heq]
  rfl

theorem notAnswer_appendMessageFor (peer : NodeId) :
    NotAnswer (node.appendMessageFor peer) := by
  intro term id index heq
  unfold Node.appendMessageFor at heq
  simp only at heq
  split at heq <;> cases heq

theorem readsKept_broadcastAppend : ReadsKept node node.broadcastAppend := by
  rcases broadcastAppend_eq node with ⟨_, rfl | rfl, heq⟩
  · rw [heq]
    exact readsKept_of_view rfl (silent_map (notAnswer_appendMessageFor _))
  · rw [heq]
    exact readsKept_of_view (reloadMembership_readView node)
      (silent_map (notAnswer_appendMessageFor _))

theorem appendLocal_readView (command : Command) :
    readView (node.appendLocal command).1 = readView node := by
  unfold Node.appendLocal
  simp only
  split
  · rw [maybeCommit_readView, reloadMembership_readView]
    rfl
  · rw [maybeCommit_readView]
    rfl

theorem readsKept_becomeFollower (term : Nat) (leader : Option NodeId) :
    ReadsKept node (node.becomeFollower term leader, []) := by
  refine readsKept_of_role ?_ rfl silent_nil
  intro hrole
  cases hrole

theorem readsKept_becomeLeader : ReadsKept node node.becomeLeader := by
  rw [becomeLeader_eq]
  refine (readsKept_broadcastAppend _).of_cleared ?_ ?_
  · exact congrArg (fun view => view.2.2.1) (maybeCommit_readView _)
  · exact congrArg (fun view => view.2.2.2) (maybeCommit_readView _)

theorem readsKept_becomeCandidate : ReadsKept node node.becomeCandidate := by
  unfold Node.becomeCandidate
  simp only
  split
  · exact (readsKept_becomeLeader _).of_cleared rfl rfl
  · refine readsKept_of_role ?_ rfl (silent_map ?_)
    · intro hrole
      cases hrole
    · intro peer term id index heq
      cases heq

theorem readsKept_becomePreCandidate :
    ReadsKept node node.becomePreCandidate := by
  unfold Node.becomePreCandidate
  simp only
  split
  · exact (readsKept_becomeCandidate _).of_cleared rfl rfl
  · refine readsKept_of_role ?_ rfl (silent_map ?_)
    · intro hrole
      cases hrole
    · intro peer term id index heq
      cases heq

theorem readsKept_self : ReadsKept node (node, []) :=
  readsKept_of_view rfl silent_nil

theorem readsKept_handlePreVoteReply (sender : NodeId) (term : Nat)
    (granted : Bool) :
    ReadsKept node (node.handlePreVoteReply sender term granted) := by
  unfold Node.handlePreVoteReply
  split
  · split
    · simp only
      split
      · exact (readsKept_becomeCandidate _).of_view rfl
      · exact readsKept_of_view rfl silent_nil
    · exact readsKept_self node
  · split
    · exact readsKept_becomeFollower node term none
    · exact readsKept_self node

theorem readsKept_handleRequestVote (sender : NodeId)
    (lastLogIndex lastLogTerm : Nat) :
    ReadsKept node
      (node.handleRequestVote sender lastLogIndex lastLogTerm) := by
  unfold Node.handleRequestVote
  simp only
  refine readsKept_of_view ?_ (silent_one ?_)
  · have hview : forall granted : Bool, readView
        (if granted then Node.resetElectionTimer { node with
          storage := node.storage.saveHardState
            { term := node.storage.hardState.term, votedFor := some sender } }
        else node) = readView node := by
      intro granted
      cases granted <;> rfl
    exact hview _
  · intro term id index heq
    cases heq

theorem readsKept_handleVoteReply (sender : NodeId) (term : Nat)
    (granted : Bool) :
    ReadsKept node (node.handleVoteReply sender term granted) := by
  unfold Node.handleVoteReply
  split
  · exact readsKept_self node
  · split
    · simp only
      split
      · exact (readsKept_becomeLeader _).of_view rfl
      · exact readsKept_of_view rfl silent_nil
    · exact readsKept_self node

theorem acceptEntries_readView (prevLogIndex : Nat) (entries : List Entry) :
    (node.acceptEntries prevLogIndex entries).forwarded = node.forwarded ∧
      (node.acceptEntries prevLogIndex entries).role = node.role := by
  refine ⟨?_, acceptEntries_role node prevLogIndex entries⟩
  unfold Node.acceptEntries
  simp only
  split
  · exact congrArg (fun view => view.2.2.2) (reloadMembership_readView _)
  · rfl

theorem readsKept_handleAppendEntries (sender : NodeId)
    (prevLogIndex prevLogTerm : Nat) (entries : List Entry)
    (leaderCommit seq : Nat) :
    ReadsKept node (node.handleAppendEntries sender prevLogIndex prevLogTerm
      entries leaderCommit seq) := by
  unfold Node.handleAppendEntries
  simp only
  generalize hnext : Node.resetElectionTimer { node with
    role := Role.follower
    leaderId := some sender } = next
  have hrole : next.role = Role.follower := by
    rw [← hnext]
    rfl
  have hforwarded : next.forwarded = node.forwarded := by
    rw [← hnext]
    rfl
  have hnot : next.role ≠ Role.leader := by
    rw [hrole]
    decide
  have hreply : forall (success : Bool) (matchIndex conflictIndex : Nat)
      (conflictTerm : Option Nat), NotAnswer
        { dest := sender
          message := Message.appendEntriesReply next.term success matchIndex
            conflictIndex conflictTerm seq } := by
    intro success matchIndex conflictIndex conflictTerm term id index heq
    cases heq
  cases Node.pastSnapshot next.storage prevLogIndex prevLogTerm entries with
  | none => exact readsKept_of_role hnot hforwarded (silent_one (hreply _ _ _ _))
  | some part =>
      rcases part with ⟨p, t, es⟩
      simp only
      split
      · cases next.storage.termAt p with
        | none =>
            exact readsKept_of_role hnot hforwarded (silent_one (hreply _ _ _ _))
        | some t' =>
            exact readsKept_of_role hnot hforwarded (silent_one (hreply _ _ _ _))
      · rcases acceptEntries_readView next p es with ⟨hkeep, hsame⟩
        refine readsKept_of_role ?_ ?_ (silent_one (hreply _ _ _ _))
        · simp only
          split
          · simp only
            rw [hsame]
            exact hnot
          · rw [hsame]
            exact hnot
        · simp only
          split
          · exact hkeep.trans hforwarded
          · exact hkeep.trans hforwarded

theorem readsKept_handleInstallSnapshot (sender : NodeId)
    (about : SnapshotMeta) (offset : Nat) (data : Bytes) (done : Bool)
    (seq : Nat) (members : Option (List Member)) :
    ReadsKept node (node.handleInstallSnapshot sender about offset data done
      seq members) := by
  unfold Node.handleInstallSnapshot
  simp only
  generalize hnext : Node.resetElectionTimer { node with
    role := Role.follower
    leaderId := some sender } = next
  have hforwarded : next.forwarded = node.forwarded := by
    rw [← hnext]
    rfl
  have hnot : next.role ≠ Role.leader := by
    rw [← hnext]
    intro hrole
    cases hrole
  have hreply : forall (nextOffset : Nat) (done : Bool), NotAnswer
        { dest := sender
          message := Message.installSnapshotReply next.term about.index
            nextOffset done seq } := by
    intro nextOffset done term id index heq
    cases heq
  split
  · exact readsKept_of_role hnot hforwarded (silent_one (hreply _ _))
  split
  · exact readsKept_of_role hnot hforwarded (silent_one (hreply _ _))
  split
  · exact readsKept_of_role hnot hforwarded (silent_one (hreply _ _))
  split
  · exact readsKept_of_role hnot hforwarded (silent_one (hreply _ _))
  · refine readsKept_of_role ?_ ?_ (silent_one (hreply _ _))
    · simp only [Node.installReceived, role_reloadMembership]
      exact hnot
    · have hview := reloadMembership_readView { next with
        incoming := none
        storage := next.storage.installSnapshot
          (((next.continuing sender about).getD
            (MemStorage.newSnapshot about members)).writeAll data) }
      exact (congrArg (fun view => view.2.2.2) hview).trans hforwarded

theorem readsKept_handleAppendReply (sender : NodeId) (success : Bool)
    (matchIndex conflictIndex : Nat) (conflictTerm : Option Nat) :
    ReadsKept node (node.handleAppendReply sender success matchIndex
      conflictIndex conflictTerm) := by
  unfold Node.handleAppendReply
  split
  · split
    · refine readsKept_of_view (maybeCommit_readView _) ?_
      simp only
      split
      · exact silent_one (notAnswer_appendMessageFor _ _)
      · exact silent_nil
    · exact readsKept_self node
  · exact readsKept_of_view rfl (silent_one (notAnswer_appendMessageFor _ _))

theorem readsKept_handleSnapshotReply (sender : NodeId)
    (lastIndex nextOffset : Nat) (done : Bool) :
    ReadsKept node
      (node.handleSnapshotReply sender lastIndex nextOffset done) := by
  have hfinish : forall next : Node, readView next = readView node ->
      ReadsKept node (next,
        if (next.nextIndex sender).getD 0 <= next.storage.lastIndex then
          [next.appendMessageFor sender]
        else []) := by
    intro next hview
    refine readsKept_of_view hview ?_
    simp only
    split
    · exact silent_one (notAnswer_appendMessageFor _ _)
    · exact silent_nil
  unfold Node.handleSnapshotReply
  simp only
  split
  · split
    · exact hfinish _ (maybeCommit_readView _)
    · exact hfinish _ rfl
  · exact readsKept_of_view rfl (silent_one (notAnswer_appendMessageFor _ _))

theorem readsKept_proposeMembership {members : List Member} {next : Node}
    {index : Nat} {actions : List Action}
    (hok : node.proposeMembership members = Except.ok (next, index, actions)) :
    ReadsKept node (next, actions) := by
  unfold Node.proposeMembership at hok
  split at hok
  · cases hok
  split at hok
  · cases hok
  split at hok
  · cases hok
  split at hok
  · cases hok
  simp only at hok
  split at hok
  · cases hok
  split at hok
  · cases hok
  · cases hok
    exact (readsKept_broadcastAppend _).of_view (appendLocal_readView node _)

theorem readsKept_propose {command : Bytes} {next : Node} {index : Nat}
    {actions : List Action}
    (hok : node.propose command = Except.ok (next, index, actions)) :
    ReadsKept node (next, actions) := by
  unfold Node.propose at hok
  split at hok
  · cases hok
  simp only at hok
  split at hok
  · cases hok
  · cases hok
    exact (readsKept_broadcastAppend _).of_view (appendLocal_readView node _)

theorem readsKept_proposeBatch {commands : List Bytes} {next : Node}
    {answers : List (Except ProposeError Nat)} {actions : List Action}
    (hok : node.proposeBatch commands = Except.ok (next, answers, actions)) :
    ReadsKept node (next, actions) := by
  unfold Node.proposeBatch at hok
  split at hok
  · cases hok
  simp only at hok
  split at hok
  · cases hok
    exact readsKept_self node
  · cases hok
    refine (readsKept_broadcastAppend _).of_view ?_
    rw [maybeCommit_readView]
    rfl

theorem readsKept_maybePromote : ReadsKept node node.maybePromote := by
  unfold Node.maybePromote
  split
  · exact readsKept_self node
  · split
    · exact readsKept_self node
    · simp only
      split
      · next hok => exact readsKept_proposeMembership node hok
      · exact readsKept_self node

theorem readsKept_checkQuorum : ReadsKept node (node.checkQuorum, []) := by
  unfold Node.checkQuorum
  simp only
  split
  · split
    · exact (readsKept_becomeFollower _ _ _).of_view rfl
    · exact readsKept_of_view rfl silent_nil
  · exact readsKept_of_view rfl silent_nil

theorem readsKept_tick : ReadsKept node node.tick := by
  unfold Node.tick
  split
  · split
    · exact readsKept_becomeFollower node _ none
    · simp only
      have hbeats : ReadsKept node
          (if node.heartbeatElapsed + 1 >= node.config.heartbeatTicks then
            Node.broadcastAppend { node with heartbeatElapsed := 0 }
          else ({ node with
            heartbeatElapsed := node.heartbeatElapsed + 1 }, [])) := by
        split
        · exact (readsKept_broadcastAppend _).of_view rfl
        · exact readsKept_of_view rfl silent_nil
      generalize (if node.heartbeatElapsed + 1 >=
          node.config.heartbeatTicks then
            Node.broadcastAppend { node with heartbeatElapsed := 0 }
          else ({ node with
            heartbeatElapsed := node.heartbeatElapsed + 1 }, [])) =
        beaten at hbeats ⊢
      rcases beaten with ⟨next, beats⟩
      have hpromote := readsKept_maybePromote next
      simp only
      generalize next.maybePromote = promoted at hpromote ⊢
      rcases promoted with ⟨later, promotion⟩
      have hall := (hbeats.trans hpromote).trans (readsKept_checkQuorum later)
      rw [List.append_nil] at hall
      exact hall
  · simp only
    split
    · split
      · exact (readsKept_becomePreCandidate _).of_view rfl
      · refine readsKept_of_role ?_ rfl silent_nil
        intro hrole
        cases hrole
    · exact readsKept_of_view rfl silent_nil

theorem readsKept_campaign : ReadsKept node node.campaign := by
  unfold Node.campaign
  split
  · exact readsKept_becomeCandidate node
  · exact readsKept_self node

theorem readsKept_preVote : ReadsKept node node.preVote := by
  unfold Node.preVote
  split
  · exact readsKept_becomePreCandidate node
  · exact readsKept_self node

theorem readsKept_finishCompaction (sink : MemSnapshot) :
    ReadsKept node ((node.finishCompaction sink).1, []) := by
  unfold Node.finishCompaction
  split
  · exact readsKept_self node
  · refine readsKept_of_view ?_ silent_nil
    simp only [readView, Node.term, MemStorage.installSnapshot]
    split <;> rfl

/-!
# Messages about reads
-/

/-- Released reads were pending and their rounds are confirmed. -/
theorem releaseReads_reads :
    (forall read, read ∈ node.releaseReads.1.remoteReads ->
      read ∈ node.remoteReads) ∧
      forall action, action ∈ node.releaseReads.2 -> exists read,
        read ∈ node.remoteReads ∧
          node.releaseReads.1.roundConfirmed read.seq = true ∧
          action.dest = read.sender ∧
          action.message = Message.readIndexReply node.term read.id
            (some read.index) := by
  unfold Node.releaseReads
  rw [List.partition_eq_filter_filter]
  refine ⟨fun read hread => (List.mem_filter.mp hread).1, ?_⟩
  intro action haction
  rcases List.mem_map.mp haction with ⟨read, hread, heq⟩
  rcases List.mem_filter.mp hread with ⟨hmem, hconfirmed⟩
  rw [← heq]
  exact ⟨read, hmem, hconfirmed, rfl, rfl⟩

theorem heardRound_reads {sender : NodeId} {term seq : Nat} {next : Node}
    {released : List Action}
    (h : node.heardRound sender term seq = some (next, released)) :
    node.role = Role.leader ∧ next.role = Role.leader ∧
      next.term = node.term ∧ next.forwarded = node.forwarded ∧
      (forall read, read ∈ next.remoteReads -> read ∈ node.remoteReads) ∧
      forall action, action ∈ released -> exists read,
        read ∈ node.remoteReads ∧ next.roundConfirmed read.seq = true ∧
          action.dest = read.sender ∧
          action.message = Message.readIndexReply node.term read.id
            (some read.index) := by
  unfold Node.heardRound at h
  split at h
  · cases h
  next hcond =>
    rw [not_or, not_not, not_not] at hcond
    simp only at h
    split at h
    · have heq := Option.some.inj h
      rcases releaseReads_reads { node with
        active := insert sender node.active
        acked := (node.acked.orInsert sender 0).insert sender seq } with
        ⟨hsub, hreleased⟩
      rw [heq] at hsub hreleased
      have hnext := congrArg Prod.fst heq
      simp only at hnext hsub hreleased
      rw [← hnext]
      exact ⟨hcond.1, hcond.1, rfl, rfl, hnext ▸ hsub, hnext ▸ hreleased⟩
    · cases h
      refine ⟨hcond.1, hcond.1, rfl, rfl, fun _ hread => hread, ?_⟩
      intro action haction
      cases haction

/-- A reply to the leader: it may release reads, and what follows opens none. -/
theorem readsStep_heard {sender : NodeId} {message : Message} {term seq : Nat}
    {next result : Node} {released actions : List Action}
    (hround : roundOf message = some (term, seq))
    (hheard : node.heardRound sender term seq = some (next, released))
    (hkept : ReadsKept next (result, actions)) :
    ReadsStep node sender message (result, released ++ actions) := by
  rcases heardRound_reads node hheard with
    ⟨hrole, hnextRole, hterm, hforwarded, hsub, hreleased⟩
  refine ⟨?_, ?_, ?_⟩
  · intro hlead read hread
    rcases hkept.pending hlead with hnone | ⟨_, hterm', hsame⟩
    · simp only at hread hnone
      rw [hnone] at hread
      cases hread
    · simp only at hread hsame
      rw [hsame] at hread
      exact ⟨hrole, hterm'.trans hterm, Or.inl (hsub read hread)⟩
  · intro id index hready
    left
    rw [← hforwarded, ← hkept.forwarded]
    exact hready
  · intro action term' id index haction hmessage
    rcases List.mem_append.mp haction with hrel | hact
    · rcases hreleased action hrel with
        ⟨read, hmem, hconfirmed, hdest, hanswer⟩
      rw [hanswer] at hmessage
      cases hmessage
      exact ⟨read, ⟨hmem, hrole, term, seq, next, released, hround, hheard,
        hconfirmed⟩, hdest, rfl, rfl⟩
    · exact absurd hmessage (hkept.silent action hact term' id index)

theorem openReadRound_silent :
    forall action, action ∈ node.openReadRound.2.1 -> NotAnswer action := by
  intro action haction
  unfold Node.openReadRound at haction
  rcases List.mem_map.mp haction with ⟨peer, _, heq⟩
  rw [← heq]
  intro term id index hmessage
  cases hmessage

theorem readsStep_handleReadIndex (sender : NodeId) (term id : Nat) :
    ReadsStep node sender (Message.readIndex term id)
      (node.handleReadIndex sender id) := by
  unfold Node.handleReadIndex
  split
  · apply ReadsKept.step
    refine readsKept_of_view rfl (silent_one ?_)
    intro term' id' index heq
    cases heq
  next hrole =>
    refine ⟨?_, fun _ _ hready => Or.inl hready, ?_⟩
    · intro _ read hread
      refine ⟨not_not.mp hrole, rfl, ?_⟩
      rcases List.mem_append.mp hread with hold | hnew
      · exact Or.inl hold
      · rw [List.mem_singleton.mp hnew]
        exact Or.inr ⟨term, id, rfl, rfl⟩
    · intro action term' id' index haction hmessage
      exact absurd hmessage
        (openReadRound_silent node action haction term' id' index)

theorem readsStep_handleReadIndexReply (sender : NodeId) (term id : Nat)
    (index : Option Nat) :
    ReadsStep node sender (Message.readIndexReply term id index)
      (node.handleReadIndexReply id index, []) := by
  unfold Node.handleReadIndexReply
  split
  · refine ⟨?_, ?_, ?_⟩
    · intro hrole read hread
      exact ⟨hrole, rfl, Or.inl hread⟩
    · intro id' index' hready
      rcases Table.insert_eq_some hready with ⟨hid, hanswer⟩ | hold
      · right
        cases index with
        | none => cases hanswer
        | some r =>
            cases hanswer
            rw [hid]
            exact ⟨term, rfl⟩
      · exact Or.inl hold
    · intro action term' id' index' haction
      cases haction
  · exact (readsKept_self node).step sender _

theorem readsStep_handle (sender : NodeId) (message : Message) :
    ReadsStep node sender message (node.handle sender message) := by
  cases message with
  | preVote term lastLogIndex lastLogTerm => exact (readsKept_self node).step _ _
  | preVoteReply term granted => exact (readsKept_self node).step _ _
  | requestVote term lastLogIndex lastLogTerm =>
      exact (readsKept_handleRequestVote node sender _ _).step _ _
  | requestVoteReply term granted =>
      exact (readsKept_handleVoteReply node sender term granted).step _ _
  | appendEntries term prev prevTerm entries leaderCommit seq =>
      exact (readsKept_handleAppendEntries node sender _ _ _ _ _).step _ _
  | appendEntriesReply term success matchIndex conflictIndex conflictTerm seq =>
      cases hheard : node.heardRound sender term seq with
      | none =>
          simp only [Node.handle, hheard]
          exact (readsKept_self node).step _ _
      | some pair =>
          rcases pair with ⟨next, released⟩
          simp only [Node.handle, hheard]
          exact readsStep_heard node rfl hheard
            (readsKept_handleAppendReply next sender _ _ _ _)
  | installSnapshot term lastIndex lastTerm offset data done seq members =>
      exact (readsKept_handleInstallSnapshot node sender _ _ _ _ _ _).step _ _
  | installSnapshotReply term lastIndex nextOffset done seq =>
      cases hheard : node.heardRound sender term seq with
      | none =>
          simp only [Node.handle, hheard]
          exact (readsKept_self node).step _ _
      | some pair =>
          rcases pair with ⟨next, released⟩
          simp only [Node.handle, hheard]
          exact readsStep_heard node rfl hheard
            (readsKept_handleSnapshotReply next sender _ _ _)
  | readIndex term id => exact readsStep_handleReadIndex node sender term id
  | readIndexReply term id index =>
      exact readsStep_handleReadIndexReply node sender term id index

theorem readsStep_step (sender : NodeId) (message : Message) :
    ReadsStep node sender message (node.step sender message) := by
  have hrefuse : forall action : Action,
      (forall term id index,
        action.message ≠ Message.readIndexReply term id (some index)) ->
      ReadsStep node sender message (node, [action]) := by
    intro action haction
    have hkept : ReadsKept node (node, [action]) :=
      readsKept_of_view rfl (silent_one haction)
    exact hkept.step _ _
  have hrest : ReadsStep node sender message
      (if message.term > node.term then
        (node.becomeFollower message.term none).handle sender message
      else if message.term < node.term && message.isRequest then
        (node, [node.replyStale sender message])
      else node.handle sender message) := by
    split
    · -- A node that steps down first has nothing pending and releases nothing.
      have h := readsStep_handle (node.becomeFollower message.term none) sender
        message
      refine ⟨?_, h.ready, ?_⟩
      · intro hrole read hread
        cases (h.pending hrole read hread).1
      · intro action term id index haction hmessage
        rcases h.answers action term id index haction hmessage with
          ⟨read, ⟨hmem, _⟩, _⟩
        cases hmem
    · split
      · apply hrefuse
        intro term id index heq
        unfold Node.replyStale at heq
        cases message <;> cases heq
      · exact readsStep_handle node sender message
  unfold Node.step
  split
  · apply hrefuse
    intro term id index heq
    unfold Node.refuseVote at heq
    cases message <;> cases heq
  · cases message with
    | preVote term lastLogIndex lastLogTerm =>
        apply hrefuse
        intro term' id index heq
        cases heq
    | preVoteReply term granted =>
        exact (readsKept_handlePreVoteReply node sender term granted).step _ _
    | _ => exact hrest

end Operations

/-!
# Answers along a run
-/

/-- Every answer to a question of this number, sent or taken, covers what was
committed at `a₀`, and so will every answer still pending. -/
structure Answered (B : List Member) (a₀ a : Past) (n : NodeId) (id : Nat)
    (c : Cluster) : Prop where
  sent : forall envelope term index, envelope ∈ c.network ->
    envelope.dest = n ->
    envelope.message = Message.readIndexReply term id (some index) ->
    Covers a₀ index
  pending : forall m read, (c.nodes m).role = Role.leader ->
    read ∈ (c.nodes m).remoteReads -> read.sender = n -> read.id = id ->
    exists a₁, Run (setting B) a₀ a₁ ∧ Opened B a₁ a m read.seq read.index
  ready : forall index,
    (c.nodes n).forwarded id = some (Answer.ready index) -> Covers a₀ index

theorem Opened.run_on {B : List Member} {a₁ a b : Past} {m : NodeId}
    {seq index : Nat} (h : Opened B a₁ a m seq index)
    (hrun : Run (setting B) a b) (hterm : b.term m = a.term m) :
    Opened B a₁ b m seq index :=
  { h with
    run := Relation.ReflTransGen.trans h.run hrun
    term := hterm.trans h.term }

theorem heard_of_msgOk {B : List Member} {a : Past} {sender dest : NodeId}
    {message : Message} {term seq : Nat}
    (hround : roundOf message = some (term, seq))
    (h : MsgOk B a { sender := sender, dest := dest, message := message }) :
    seq <= a.heard sender term := by
  cases message with
  | appendEntriesReply T success matchIndex conflictIndex conflictTerm s =>
      cases hround
      exact h.2.2
  | installSnapshotReply T lastIndex nextOffset done s =>
      cases hround
      exact h.2
  | _ => cases hround

section Answers

variable {a₀ a b : Past} {n : NodeId} {id : Nat} {c : Cluster}

/-- A released read covers what was committed when its question was asked. -/
theorem Answered.released (hinv : Inv (setting c.bootstrap) a₀)
    (ha : Related c a) (h : Answered c.bootstrap a₀ a n id c) {m sender : NodeId}
    {message : Message} {read : RemoteRead}
    (hmsg : MsgOk c.bootstrap a
      { sender := sender, dest := m, message := message })
    (hreleased : Released (c.nodes m) sender message read)
    (hsender : read.sender = n) (hid : read.id = id) :
    Covers a₀ read.index := by
  rcases hreleased with ⟨hmem, hrole, term, seq, next, released, hround, hheard,
    hconfirmed⟩
  rcases h.pending m read hrole hmem hsender hid with ⟨a₁, hrun, hopened⟩
  rcases (ha.nodes m).heardRound (heard_of_msgOk hround hmsg) hheard with
    ⟨_, hnextRole, hnext, _⟩
  have hcovers := hopened.covers (hinv.run_extends hrun).1
    (hnext.roundConfirmed hnextRole hconfirmed)
  exact hcovers.of_run hinv hrun

/-- What one node does keeps the answers good, if what it does to its own reads
is good. -/
theorem Answered.act (ha : Related c a) (h : Answered c.bootstrap a₀ a n id c)
    {m : NodeId} {result : Node × List Action}
    (hterm : forall k, b.term k = ((c.act m result).nodes k).term)
    (hrun : Run (setting c.bootstrap) a b)
    (hpending : result.1.role = Role.leader ->
      forall read, read ∈ result.1.remoteReads ->
        read.sender = n -> read.id = id ->
        result.1.term = (c.nodes m).term ∧ exists a₁,
          Run (setting c.bootstrap) a₀ a₁ ∧
            Opened c.bootstrap a₁ a m read.seq read.index)
    (hready : m = n -> forall index,
      result.1.forwarded id = some (Answer.ready index) -> Covers a₀ index)
    (hsent : forall action term index, action ∈ result.2 -> action.dest = n ->
      action.message = Message.readIndexReply term id (some index) ->
      Covers a₀ index) :
    Answered c.bootstrap a₀ b n id (c.act m result) := by
  refine ⟨?_, ?_, ?_⟩
  · intro envelope term index hmem hdest hmessage
    rcases List.mem_append.mp hmem with hold | hnew
    · exact h.sent envelope term index hold hdest hmessage
    · rcases List.mem_map.mp hnew with ⟨action, haction, heq⟩
      rw [← heq] at hdest hmessage
      exact hsent action term index haction hdest hmessage
  · intro k read hrole hread hsender hid
    by_cases hk : k = m
    · rw [hk] at hrole hread ⊢
      rw [Cluster.act_nodes_self] at hrole hread
      rcases hpending hrole read hread hsender hid with
        ⟨hsame, a₁, hrun₁, hopened⟩
      refine ⟨a₁, hrun₁, hopened.run_on hrun ?_⟩
      rw [hterm, Cluster.act_nodes_self, hsame, (ha.nodes m).term_eq]
    · rw [Cluster.act_nodes_of_ne _ _ hk] at hrole hread
      rcases h.pending k read hrole hread hsender hid with
        ⟨a₁, hrun₁, hopened⟩
      refine ⟨a₁, hrun₁, hopened.run_on hrun ?_⟩
      rw [hterm, Cluster.act_nodes_of_ne _ _ hk, (ha.nodes k).term_eq]
  · intro index hforwarded
    by_cases hn : n = m
    · rw [hn, Cluster.act_nodes_self] at hforwarded
      exact hready hn.symm index hforwarded
    · rw [Cluster.act_nodes_of_ne _ _ hn] at hforwarded
      exact h.ready index hforwarded

theorem Answered.still {d : Cluster} (ha : Related c a)
    (h : Answered c.bootstrap a₀ a n id c)
    (hterm : forall k, b.term k = (d.nodes k).term)
    (hrun : Run (setting c.bootstrap) a b) (hnodes : d.nodes = c.nodes)
    (hnetwork : d.network = c.network) : Answered c.bootstrap a₀ b n id d := by
  refine ⟨?_, ?_, ?_⟩
  · rw [hnetwork]
    exact h.sent
  · intro m read hrole hread hsender hid
    rw [hnodes] at hrole hread
    rcases h.pending m read hrole hread hsender hid with ⟨a₁, hrun₁, hopened⟩
    refine ⟨a₁, hrun₁, hopened.run_on hrun ?_⟩
    rw [hterm, hnodes, (ha.nodes m).term_eq]
  · rw [hnodes]
    exact h.ready

theorem Answered.act_kept (ha : Related c a)
    (h : Answered c.bootstrap a₀ a n id c) {m : NodeId}
    {result : Node × List Action}
    (hterm : forall k, b.term k = ((c.act m result).nodes k).term)
    (hrun : Run (setting c.bootstrap) a b)
    (hkept : ReadsKept (c.nodes m) result) :
    Answered c.bootstrap a₀ b n id (c.act m result) := by
  apply h.act ha hterm hrun
  · intro hrole read hread hsender hid
    rcases hkept.pending hrole with hnone | ⟨hlead, hterm, hsame⟩
    · rw [hnone] at hread
      cases hread
    · rw [hsame] at hread
      exact ⟨hterm, h.pending m read hlead hread hsender hid⟩
  · intro hm index hready
    rw [hkept.forwarded, hm] at hready
    exact h.ready index hready
  · intro action term index haction _ hmessage
    exact absurd hmessage (hkept.silent action haction term id index)

theorem Answered.deliver (hinv : Inv (setting c.bootstrap) a₀)
    (ha : Related c a) (hsince : Run (setting c.bootstrap) a₀ a)
    (h : Answered c.bootstrap a₀ a n id c)
    {envelope : Envelope} (hmem : envelope ∈ c.network)
    (hterm : forall k, b.term k =
      ((c.next (Event.deliver envelope)).nodes k).term)
    (hrun : Run (setting c.bootstrap) a b) :
    Answered c.bootstrap a₀ b n id (c.next (Event.deliver envelope)) := by
  have hstep := readsStep_step (c.nodes envelope.dest) envelope.sender
    envelope.message
  apply h.act ha hterm hrun
  · intro hrole read hread hsender hid
    rcases hstep.pending hrole read hread with
      ⟨hlead, hterm, hold | ⟨term, id', _, hasked⟩⟩
    · exact ⟨hterm, h.pending _ read hlead hold hsender hid⟩
    · rw [hasked]
      exact ⟨hterm, a, hsince,
        (ha.nodes _).opened hlead Relation.ReflTransGen.refl rfl⟩
  · intro hm index hready
    rcases hstep.ready id index hready with hold | ⟨term, hmessage⟩
    · rw [hm] at hold
      exact h.ready index hold
    · exact h.sent envelope term index hmem hm hmessage
  · intro action term index haction hdest hmessage
    rcases hstep.answers action term id index haction hmessage with
      ⟨read, hreleased, hsender, hid, hindex⟩
    rw [hindex]
    exact h.released hinv ha (ha.messages envelope hmem) hreleased
      (hsender ▸ hdest) hid.symm

theorem Answered.accepted (ha : Related c a)
    (h : Answered c.bootstrap a₀ a n id c) {m : NodeId}
    {result : Except ProposeError (Node × answer × List Action)}
    (hterm : forall k, b.term k = ((c.accepted m result).nodes k).term)
    (hrun : Run (setting c.bootstrap) a b)
    (hkept : forall next answer actions,
      result = Except.ok (next, answer, actions) ->
      ReadsKept (c.nodes m) (next, actions)) :
    Answered c.bootstrap a₀ b n id (c.accepted m result) := by
  cases result with
  | ok answer =>
      rcases answer with ⟨next, answer, actions⟩
      exact h.act_kept ha hterm hrun (hkept next answer actions rfl)
  | error why => exact h.still ha hterm hrun rfl rfl

theorem forgetRead_role (node : Node) (request : ReadRequest) :
    (node.forgetRead request).role = node.role := by
  cases request <;> rfl

theorem forgetRead_remoteReads (node : Node) (request : ReadRequest) :
    (node.forgetRead request).remoteReads = node.remoteReads := by
  cases request <;> rfl

theorem forgetRead_term (node : Node) (request : ReadRequest) :
    (node.forgetRead request).term = node.term := by
  cases request <;> rfl

theorem forgetRead_ready (node : Node) (request : ReadRequest) {id : Nat}
    {answer : Answer}
    (h : (node.forgetRead request).forwarded id = some answer) :
    node.forwarded id = some answer := by
  cases request with
  | forwarded id' leader => exact Table.remove_eq_some h
  | localRead term seq index => exact h
  | refused => exact h

theorem withMembers_readView (m : NodeId) (B : List Member) (config : Config)
    (storage : MemStorage) :
    readView (Node.withMembers m B config storage) =
      (Role.follower, storage.hardState.term, [], Table.empty) := by
  unfold Node.withMembers
  exact reloadMembership_readView _

theorem Answered.readIndex (ha : Related c a)
    (h : Answered c.bootstrap a₀ a n id c) {m : NodeId}
    (hterm : forall k, b.term k = ((c.next (Event.readIndex m)).nodes k).term)
    (hrun : Run (setting c.bootstrap) a b) :
    Answered c.bootstrap a₀ b n id (c.next (Event.readIndex m)) := by
  simp only [Cluster.next] at hterm ⊢
  unfold Node.readIndex at hterm ⊢
  split
  · next hrole =>
      rw [if_pos hrole] at hterm
      exact h.act_kept ha hterm hrun
        (readsKept_of_view rfl (openReadRound_silent _))
  · next hrole =>
      rw [if_neg hrole] at hterm
      cases hleader : (c.nodes m).leaderId with
      | none =>
          rw [hleader] at hterm
          exact h.act_kept ha hterm hrun (readsKept_self _)
      | some leader =>
          rw [hleader] at hterm
          apply h.act ha hterm hrun
          · intro hlead read hread hsender hid
            exact absurd hlead hrole
          · intro hm index hready
            rw [hm] at hready
            rcases Table.insert_eq_some hready with ⟨_, hanswer⟩ | hold
            · cases hanswer
            · exact h.ready index hold
          · intro action term index haction hdest hmessage
            rw [List.mem_singleton.mp haction] at hmessage
            cases hmessage

theorem Answered.next (hinv : Inv (setting c.bootstrap) a₀)
    (ha : Related c a) (hsince : Run (setting c.bootstrap) a₀ a)
    (h : Answered c.bootstrap a₀ a n id c) {event : Event}
    (henabled : c.Enabled event) (hb : Related (c.next event) b)
    (hrun : Run (setting c.bootstrap) a b) :
    Answered c.bootstrap a₀ b n id (c.next event) := by
  have hterm : forall k, b.term k = ((c.next event).nodes k).term :=
    fun k => (hb.nodes k).term_eq.symm
  cases event with
  | tick m => exact h.act_kept ha hterm hrun (readsKept_tick _)
  | campaign m => exact h.act_kept ha hterm hrun (readsKept_campaign _)
  | preVote m => exact h.act_kept ha hterm hrun (readsKept_preVote _)
  | propose m command =>
      apply h.accepted ha hterm hrun
      intro next index actions hok
      exact readsKept_propose _ hok
  | proposeBatch m commands =>
      apply h.accepted ha hterm hrun
      intro next answers actions hok
      exact readsKept_proposeBatch _ hok
  | proposeMembership m members =>
      apply h.accepted ha hterm hrun
      intro next index actions hok
      exact readsKept_proposeMembership _ hok
  | setAutoPromote m on =>
      exact h.act_kept ha hterm hrun (readsKept_of_view rfl silent_nil)
  | readIndex m => exact h.readIndex ha hterm hrun
  | forgetRead m request =>
      apply h.act ha hterm hrun
      · intro hrole read hread hsender hid
        rw [forgetRead_role] at hrole
        rw [forgetRead_remoteReads] at hread
        exact ⟨forgetRead_term _ request,
          h.pending m read hrole hread hsender hid⟩
      · intro hm index hready
        rw [hm] at hready
        exact h.ready index (forgetRead_ready _ request hready)
      · intro action term index haction
        cases haction
  | takeCommitted m =>
      exact h.act_kept ha hterm hrun (readsKept_of_view rfl silent_nil)
  | beginCompaction m index =>
      apply h.still ha hterm hrun
      · simp only [Cluster.next]
        split <;> rfl
      · simp only [Cluster.next]
        split <;> rfl
  | finishCompaction m sink data =>
      have hacted := h.act_kept ha hterm hrun
        (readsKept_finishCompaction (c.nodes m) (sink.writeAll data))
      exact { hacted with }
  | deliver envelope => exact h.deliver hinv ha hsince henabled hterm hrun
  | restart m config =>
      have hacted : Answered c.bootstrap a₀ b n id (c.act m
          (Node.withMembers m c.bootstrap config (c.nodes m).storage, [])) := by
        apply h.act ha hterm hrun
        · intro hrole
          have hview := congrArg Prod.fst (withMembers_readView m c.bootstrap
            config (c.nodes m).storage)
          cases hview.symm.trans hrole
        · intro _ index hready
          have hview := congrArg (fun view => view.2.2.2)
            (withMembers_readView m c.bootstrap config (c.nodes m).storage)
          change (Node.withMembers m c.bootstrap config
            (c.nodes m).storage).forwarded = Table.empty at hview
          rw [hview] at hready
          cases hready
        · intro action term index haction
          cases haction
      exact { hacted with }

/-- The answers stay good along a run. -/
theorem Answered.run {d : Cluster} (hinv : Inv (setting c.bootstrap) a₀)
    (ha : Related c a) (hsince : Run (setting c.bootstrap) a₀ a)
    (h : Answered c.bootstrap a₀ a n id c) (hrun : FixedRun c d) :
    exists b, Related d b ∧ Run (setting c.bootstrap) a₀ b ∧
      Answered c.bootstrap a₀ b n id d := by
  induction hrun with
  | refl => exact ⟨a, ha, hsince, h⟩
  | tail event hprev henabled hfixed ih =>
      rcases ih with ⟨b, hb, hsinceb, hanswered⟩
      rcases hb.next henabled hfixed with ⟨e, hbe, he⟩
      have hboot := FixedRun.bootstrap hprev
      refine ⟨e, he, ?_, ?_⟩
      · rw [hboot] at hbe
        exact Relation.ReflTransGen.trans hsinceb hbe
      · rw [← hboot] at hinv hsinceb hanswered ⊢
        exact hanswered.next hinv hb hsinceb henabled he hbe

end Answers

/-!
# The read itself
-/

/-- No answer to the next question of a node is around: none was sent to it, and
no leader has one pending. -/
def Unanswered (c : Cluster) (n : NodeId) : Prop :=
  (forall envelope term index, envelope ∈ c.network -> envelope.dest = n ->
    envelope.message ≠
      Message.readIndexReply term ((c.nodes n).nextRead + 1) (some index)) ∧
  forall m read, (c.nodes m).role = Role.leader ->
    read ∈ (c.nodes m).remoteReads -> read.sender = n ->
    read.id ≠ (c.nodes n).nextRead + 1

theorem readIndex_forwarded {node : Node} {leader : NodeId}
    (hrole : node.role ≠ Role.leader) (hleader : node.leaderId = some leader) :
    node.readIndex =
      ({ node with
          nextRead := node.nextRead + 1
          forwarded := node.forwarded.insert (node.nextRead + 1)
            Answer.waiting },
        ReadRequest.forwarded (node.nextRead + 1) leader,
        [{ dest := leader
           message := Message.readIndex node.term (node.nextRead + 1) }]) := by
  unfold Node.readIndex
  rw [if_neg hrole, hleader]

/-- Right after the question there is no answer to it at all. -/
theorem answered_of_unanswered {B : List Member} {a₀ a : Past} {c : Cluster}
    {n leader : NodeId} (hrole : (c.nodes n).role ≠ Role.leader)
    (hleader : (c.nodes n).leaderId = some leader) (h : Unanswered c n) :
    Answered B a₀ a n ((c.nodes n).nextRead + 1)
      (c.next (Event.readIndex n)) := by
  simp only [Cluster.next, readIndex_forwarded hrole hleader]
  refine ⟨?_, ?_, ?_⟩
  · intro envelope term index hmem hdest hmessage
    rcases List.mem_append.mp hmem with hold | hnew
    · exact absurd hmessage (h.1 envelope term index hold hdest)
    · rw [List.map_singleton, List.mem_singleton] at hnew
      rw [hnew] at hmessage
      cases hmessage
  · intro m read hlead hread hsender hid
    by_cases hm : m = n
    · rw [hm, Cluster.act_nodes_self] at hlead
      exact absurd hlead hrole
    · rw [Cluster.act_nodes_of_ne _ _ hm] at hlead hread
      exact absurd hid (h.2 m read hlead hread hsender)
  · intro index hready
    rw [Cluster.act_nodes_self] at hready
    simp [Table.insert] at hready

/-- A read forwarded while no answer to its number is around covers everything
committed when it was asked. -/
theorem forwarded_read_covers_commits {B : List Member}
    {configs : NodeId -> Config} {c d : Cluster} {n : NodeId} {r : Nat}
    (hc : FixedRun (start B configs) c)
    (hrole : (c.nodes n).role ≠ Role.leader) (hfresh : Unanswered c n)
    (hd : FixedRun (c.next (Event.readIndex n)) d)
    (hready : (d.nodes n).readState (c.nodes n).readIndex.2.1 =
      ReadState.ready r) (m : NodeId) : (c.nodes m).commitIndex <= r := by
  rcases (related_start B configs).run hc with ⟨a, _, ha⟩
  rcases ha.act ((ha.nodes n).readIndex ha.inv) with ⟨a', haa, ha'⟩
  cases hleader : (c.nodes n).leaderId with
  | none =>
      have hrefused : (c.nodes n).readIndex.2.1 = ReadRequest.refused := by
        unfold Node.readIndex
        rw [if_neg hrole, hleader]
      rw [hrefused] at hready
      cases hready
  | some leader =>
      have hanswered : Answered c.bootstrap a a' n ((c.nodes n).nextRead + 1)
          (c.next (Event.readIndex n)) :=
        answered_of_unanswered hrole hleader hfresh
      rcases hanswered.run (c := c.next (Event.readIndex n)) ha.inv ha' haa hd
        with ⟨b, _, _, hlast⟩
      rw [readIndex_forwarded hrole hleader] at hready
      have hanswer : (d.nodes n).forwarded ((c.nodes n).nextRead + 1) =
          some (Answer.ready r) := by
        unfold Node.readState at hready
        simp only at hready
        split at hready
        · next heq =>
            cases hready
            exact heq
        · split at hready <;> cases hready
        · cases hready
      exact (hlast.ready r hanswer).commitIndex_le (ha.nodes m)

def isReadIndexReply : Message -> Bool
  | Message.readIndexReply _ _ _ => true
  | _ => false

def pairAnswers : List Event :=
  [Event.deliver ⟨2, 1, Message.readIndex 1 1⟩,
   Event.deliver ⟨1, 2, Message.appendEntries 1 1 1 [] 1 1⟩,
   Event.deliver ⟨2, 1, Message.appendEntriesReply 1 true 1 0 none 1⟩]

theorem forwarded_read_covers_commits_pair :
    (pairMid.nodes 2).readIndex.2.1 = ReadRequest.forwarded 1 1 ∧
      forall m, (pairMid.nodes m).commitIndex <= 1 := by
  have hruns := fixedRun_around pairMembers (fun _ => {}) [1, 2] pairCommits
    (Event.readIndex 2)
    (pairAnswers ++
      [Event.deliver ⟨1, 2, Message.readIndexReply 1 1 (some 1)⟩])
    (by decide +kernel) (by decide +kernel) (by decide +kernel)
  refine ⟨by decide +kernel, ?_⟩
  intro m
  refine forwarded_read_covers_commits hruns.1 (n := 2) (by decide +kernel) ?_
    hruns.2 (by decide +kernel) m
  refine ⟨?_, ?_⟩
  · intro envelope term index hmem _ hmessage
    have hnone : forall sent, sent ∈ (pairCommits.foldl next pair).network ->
        isReadIndexReply sent.message = false := by decide +kernel
    have := hnone envelope hmem
    rw [hmessage] at this
    cases this
  · intro k read hrole hread
    by_cases hk : k ∈ [1, 2]
    · have hempty : forall k, k ∈ [1, 2] ->
          ((pairCommits.foldl next pair).nodes k).remoteReads = [] := by
        decide +kernel
      change read ∈ ((pairCommits.foldl next pair).nodes k).remoteReads at hread
      rw [hempty k hk] at hread
      cases hread
    · change read ∈ ((pairCommits.foldl next pair).nodes k).remoteReads at hread
      rw [nodes_of_replays [1, 2] pairCommits (by decide +kernel) hk]
        at hread
      cases hread

/-- The answer stays in the network while a second entry commits, node 2
restarts, and node 2 hears from node 1 again. -/
def pairForgets : List Event :=
  pairCommits ++ [Event.readIndex 2] ++ pairAnswers ++
    [Event.deliver ⟨2, 1, Message.appendEntriesReply 1 true 2 0 none 0⟩,
     Event.restart 2 {},
     Event.deliver ⟨1, 2, Message.appendEntries 1 1 1 [] 1 1⟩]

/-- The answer to the first incarnation is taken for one to the second: the read
is allowed at index 1, with index 2 committed when it was asked. -/
theorem forwarded_read_takes_stale_answer :
    exists c d : Cluster, FixedRun pair c ∧ (c.nodes 2).role ≠ Role.leader ∧
      FixedRun (c.next (Event.readIndex 2)) d ∧
      (d.nodes 2).readState (c.nodes 2).readIndex.2.1 = ReadState.ready 1 ∧
      (c.nodes 1).commitIndex = 2 := by
  have hruns := fixedRun_around pairMembers (fun _ => {}) [1, 2] pairForgets
    (Event.readIndex 2)
    [Event.deliver ⟨1, 2, Message.readIndexReply 1 1 (some 1)⟩]
    (by decide +kernel) (by decide +kernel) (by decide +kernel)
  exact ⟨_, _, hruns.1, by decide +kernel, hruns.2, by decide +kernel,
    by decide +kernel⟩

end Raft
end Minicask
