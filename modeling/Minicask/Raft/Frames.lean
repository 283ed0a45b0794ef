import Minicask.Raft.Node

/-!
# What an operation leaves alone

Most of what a node does never touches its snapshot or how far it has handed its
log over, and only ever adds to the log.  The exceptions are a message with
entries, which may cut the log back, and the last piece of a snapshot.
-/

namespace Minicask
namespace Raft

/-!
# Reloading the membership

The membership changes, and on a leader the tables of its replicas.
-/

theorem reloadMembership_eq (n : Node) :
    exists nextIndex matchIndex snapshotProgress,
      n.reloadMembership = { n with
        peers := (Node.votersOf n.membershipInForce.1).filter (fun v => v != n.id)
        voters := Node.votersOf n.membershipInForce.1
        replicas := n.replicasOf n.membershipInForce.1 n.membershipInForce.2
        members := n.membershipInForce.1
        membershipIndex := n.membershipInForce.2
        nextIndex := nextIndex
        matchIndex := matchIndex
        snapshotProgress := snapshotProgress } := by
  unfold Node.reloadMembership
  dsimp only
  split
  · exact ⟨_, _, _, rfl⟩
  · exact ⟨n.nextIndex, n.matchIndex, n.snapshotProgress, rfl⟩

section Reloading

variable (n : Node)

theorem storage_reloadMembership : n.reloadMembership.storage = n.storage := by
  rcases reloadMembership_eq n with ⟨_, _, _, heq⟩
  rw [heq]

theorem role_reloadMembership : n.reloadMembership.role = n.role := by
  rcases reloadMembership_eq n with ⟨_, _, _, heq⟩
  rw [heq]

theorem id_reloadMembership : n.reloadMembership.id = n.id := by
  rcases reloadMembership_eq n with ⟨_, _, _, heq⟩
  rw [heq]

theorem config_reloadMembership : n.reloadMembership.config = n.config := by
  rcases reloadMembership_eq n with ⟨_, _, _, heq⟩
  rw [heq]

theorem bootstrap_reloadMembership : n.reloadMembership.bootstrap = n.bootstrap := by
  rcases reloadMembership_eq n with ⟨_, _, _, heq⟩
  rw [heq]

theorem incoming_reloadMembership : n.reloadMembership.incoming = n.incoming := by
  rcases reloadMembership_eq n with ⟨_, _, _, heq⟩
  rw [heq]

theorem commitIndex_reloadMembership : n.reloadMembership.commitIndex =
    n.commitIndex := by
  rcases reloadMembership_eq n with ⟨_, _, _, heq⟩
  rw [heq]

theorem lastApplied_reloadMembership : n.reloadMembership.lastApplied =
    n.lastApplied := by
  rcases reloadMembership_eq n with ⟨_, _, _, heq⟩
  rw [heq]

theorem members_reloadMembership : n.reloadMembership.members =
    n.membershipInForce.1 := by
  rcases reloadMembership_eq n with ⟨_, _, _, heq⟩
  rw [heq]

theorem replicas_reloadMembership : n.reloadMembership.replicas =
    n.replicasOf n.membershipInForce.1 n.membershipInForce.2 := by
  rcases reloadMembership_eq n with ⟨_, _, _, heq⟩
  rw [heq]

theorem lastIndex_reloadMembership : n.reloadMembership.lastIndex = n.lastIndex := by
  unfold Node.lastIndex
  rw [storage_reloadMembership]

end Reloading

/-!
# Committing and broadcasting

A leader may raise its commit index, and before it broadcasts it may look its
membership up again.
-/

theorem maybeCommit_cases (n : Node) :
    n.maybeCommit = n ∨
      (n.majorityIndex > n.commitIndex ∧
        n.storage.termAt n.majorityIndex = some n.term ∧
        n.maybeCommit = { n with commitIndex := n.majorityIndex }) := by
  unfold Node.maybeCommit
  split
  · exact Or.inl rfl
  · split
    · next hcommit => exact Or.inr ⟨hcommit.1, hcommit.2, rfl⟩
    · exact Or.inl rfl

theorem maybeCommit_eq (n : Node) :
    exists index, n.maybeCommit = { n with commitIndex := index } := by
  rcases maybeCommit_cases n with hsame | ⟨_, _, hhigher⟩
  · exact ⟨n.commitIndex, hsame⟩
  · exact ⟨n.majorityIndex, hhigher⟩

theorem storage_maybeCommit (n : Node) : n.maybeCommit.storage = n.storage := by
  rcases maybeCommit_eq n with ⟨_, heq⟩
  rw [heq]

theorem role_maybeCommit (n : Node) : n.maybeCommit.role = n.role := by
  rcases maybeCommit_eq n with ⟨_, heq⟩
  rw [heq]

theorem matchIndex_maybeCommit (n : Node) :
    n.maybeCommit.matchIndex = n.matchIndex := by
  rcases maybeCommit_eq n with ⟨_, heq⟩
  rw [heq]

theorem broadcastAppend_eq (n : Node) :
    exists n', (n = n' ∨ n.reloadMembership = n') ∧
      n.broadcastAppend = (n', n'.replicas.map n'.appendMessageFor) := by
  unfold Node.broadcastAppend
  dsimp only
  split
  · exact ⟨_, Or.inr rfl, rfl⟩
  · exact ⟨_, Or.inl rfl, rfl⟩

theorem storage_broadcastAppend (n : Node) :
    n.broadcastAppend.1.storage = n.storage := by
  rcases broadcastAppend_eq n with ⟨_, rfl | rfl, heq⟩
  · rw [heq]
  · rw [heq, storage_reloadMembership]

theorem role_broadcastAppend (n : Node) :
    n.broadcastAppend.1.role = n.role := by
  rcases broadcastAppend_eq n with ⟨_, rfl | rfl, heq⟩
  · rw [heq]
  · rw [heq, role_reloadMembership]

namespace Node

/-- The snapshot, and how far the log was handed over, are as they were. -/
structure Settled (n n' : Node) : Prop where
  base : n'.storage.log.base = n.storage.log.base
  snapshot : n'.storage.snapshot = n.storage.snapshot
  lastApplied : n'.lastApplied = n.lastApplied

/-- Nothing but additions to the log. -/
structure Steady (n n' : Node) : Prop extends Settled n n' where
  entries : n.storage.log.entries <+: n'.storage.log.entries

theorem Settled.trans {a b c : Node} (h : Settled a b) (h' : Settled b c) :
    Settled a c :=
  ⟨h'.base.trans h.base, h'.snapshot.trans h.snapshot,
    h'.lastApplied.trans h.lastApplied⟩

theorem Steady.refl (n : Node) : Steady n n :=
  ⟨⟨rfl, rfl, rfl⟩, List.prefix_refl _⟩

theorem Steady.trans {a b c : Node} (h : Steady a b) (h' : Steady b c) :
    Steady a c :=
  ⟨h.toSettled.trans h'.toSettled, h.entries.trans h'.entries⟩

/-- Whatever is not storage, and not how far the log was handed over, does not
matter. -/
theorem steady_of_eq {n n' : Node} (hlog : n'.storage.log = n.storage.log)
    (hsnapshot : n'.storage.snapshot = n.storage.snapshot)
    (happlied : n'.lastApplied = n.lastApplied) : Steady n n' := by
  refine ⟨⟨by rw [hlog], hsnapshot, happlied⟩, ?_⟩
  rw [hlog]

theorem Steady.after {a b c : Node} (h : Steady b c)
    (hlog : b.storage.log = a.storage.log)
    (hsnapshot : b.storage.snapshot = a.storage.snapshot)
    (happlied : b.lastApplied = a.lastApplied) : Steady a c :=
  (steady_of_eq hlog hsnapshot happlied).trans h

theorem steady_resetElectionTimer (n : Node) :
    Steady n n.resetElectionTimer :=
  steady_of_eq rfl rfl rfl

theorem steady_reloadMembership (n : Node) : Steady n n.reloadMembership := by
  rcases reloadMembership_eq n with ⟨_, _, _, heq⟩
  rw [heq]
  exact steady_of_eq rfl rfl rfl

theorem steady_broadcastAppend (n : Node) : Steady n n.broadcastAppend.1 := by
  rcases broadcastAppend_eq n with ⟨_, rfl | rfl, heq⟩
  · rw [heq]
    exact Steady.refl n
  · rw [heq]
    exact steady_reloadMembership n

theorem steady_maybeCommit (n : Node) : Steady n n.maybeCommit := by
  rcases maybeCommit_eq n with ⟨_, heq⟩
  rw [heq]
  exact steady_of_eq rfl rfl rfl

theorem steady_append (n : Node) (es : List Entry) :
    Steady n { n with storage := n.storage.append es } := by
  have hlog : (n.storage.append es).log =
      { n.storage.log with entries := n.storage.log.entries ++ es } :=
    foldl_push es n.storage.log
  refine ⟨⟨?_, rfl, rfl⟩, ?_⟩
  · show (n.storage.append es).log.base = _
    rw [hlog]
  · show _ <+: (n.storage.append es).log.entries
    rw [hlog]
    exact List.prefix_append _ _

theorem steady_appendLocal (n : Node) (command : Command) :
    Steady n (n.appendLocal command).1 := by
  unfold appendLocal
  dsimp only
  refine Steady.trans ?_ (steady_maybeCommit _)
  split
  · exact (steady_append n _).trans (steady_reloadMembership _)
  · exact steady_append n _

/-!
# Elections
-/

theorem steady_becomeFollower (n : Node) (term : Nat) (leader : Option NodeId) :
    Steady n (n.becomeFollower term leader) := by
  unfold becomeFollower
  refine Steady.trans ?_ (steady_resetElectionTimer _)
  by_cases hterm : term = n.term
  · simp only [if_pos hterm]
    exact steady_of_eq rfl rfl rfl
  · simp only [if_neg hterm]
    exact steady_of_eq rfl rfl rfl

theorem steady_becomeLeader (n : Node) : Steady n n.becomeLeader.1 := by
  have hstart : forall new : Node, new.storage = n.storage ->
      new.lastApplied = n.lastApplied ->
      Steady n (broadcastAppend { (new.appendLocal Command.noop).1 with
        leaderStart := (new.appendLocal Command.noop).2 }).1 := by
    intro new hstorage happlied
    have hnew : Steady n new :=
      steady_of_eq (by rw [hstorage]) (by rw [hstorage]) happlied
    have happend := steady_appendLocal new Command.noop
    exact (hnew.trans happend).trans
      ((steady_broadcastAppend _).after rfl rfl rfl)
  exact hstart _ rfl rfl

theorem steady_becomeCandidate (n : Node) : Steady n n.becomeCandidate.1 := by
  unfold becomeCandidate
  dsimp only
  split
  · exact (steady_becomeLeader _).after rfl rfl rfl
  · exact steady_of_eq rfl rfl rfl

theorem steady_becomePreCandidate (n : Node) :
    Steady n n.becomePreCandidate.1 := by
  unfold becomePreCandidate
  dsimp only
  split
  · exact (steady_becomeCandidate _).after rfl rfl rfl
  · exact steady_of_eq rfl rfl rfl

theorem steady_handlePreVoteReply (n : Node) (sender : NodeId) (term : Nat)
    (granted : Bool) :
    Steady n (n.handlePreVoteReply sender term granted).1 := by
  unfold handlePreVoteReply
  dsimp only
  split
  · split
    · split
      · exact (steady_becomeCandidate _).after rfl rfl rfl
      · exact steady_of_eq rfl rfl rfl
    · exact Steady.refl n
  · split
    · exact steady_becomeFollower n _ _
    · exact Steady.refl n

theorem steady_handleRequestVote (n : Node) (sender : NodeId)
    (lastLogIndex lastLogTerm : Nat) :
    Steady n (n.handleRequestVote sender lastLogIndex lastLogTerm).1 := by
  unfold handleRequestVote
  dsimp only
  generalize (_ && n.storage.isUpToDate lastLogIndex lastLogTerm) = granted
  cases granted with
  | true => exact steady_of_eq rfl rfl rfl
  | false => exact Steady.refl n

theorem steady_handleVoteReply (n : Node) (sender : NodeId) (term : Nat)
    (granted : Bool) : Steady n (n.handleVoteReply sender term granted).1 := by
  unfold handleVoteReply
  dsimp only
  split
  · exact Steady.refl n
  · split
    · split
      · exact (steady_becomeLeader _).after rfl rfl rfl
      · exact steady_of_eq rfl rfl rfl
    · exact Steady.refl n

/-!
# Reads and replies
-/

theorem steady_handleReadIndex (n : Node) (sender : NodeId) (id : Nat) :
    Steady n (n.handleReadIndex sender id).1 := by
  unfold handleReadIndex
  split
  · exact Steady.refl n
  · exact steady_of_eq rfl rfl rfl

theorem steady_readIndex (n : Node) : Steady n n.readIndex.1 := by
  unfold readIndex
  split
  · exact steady_of_eq rfl rfl rfl
  · split
    · exact steady_of_eq rfl rfl rfl
    · exact Steady.refl n

theorem steady_forgetRead (n : Node) (request : ReadRequest) :
    Steady n (n.forgetRead request) := by
  cases request with
  | localRead => exact Steady.refl n
  | forwarded => exact steady_of_eq rfl rfl rfl
  | refused => exact Steady.refl n

theorem steady_handleReadIndexReply (n : Node) (id : Nat)
    (index : Option Nat) : Steady n (n.handleReadIndexReply id index) := by
  unfold handleReadIndexReply
  split
  · exact steady_of_eq rfl rfl rfl
  · exact Steady.refl n

theorem steady_heardRound {n n' : Node} {sender : NodeId} {term seq : Nat}
    {actions : List Action}
    (h : n.heardRound sender term seq = some (n', actions)) : Steady n n' := by
  unfold heardRound at h
  dsimp only at h
  split at h
  · cases h
  · split at h
    · cases h
      exact steady_of_eq rfl rfl rfl
    · cases h
      exact steady_of_eq rfl rfl rfl

theorem steady_handleAppendReply (n : Node) (sender : NodeId) (success : Bool)
    (matchIndex conflictIndex : Nat) (conflictTerm : Option Nat) :
    Steady n (n.handleAppendReply sender success matchIndex conflictIndex
      conflictTerm).1 := by
  unfold handleAppendReply
  dsimp only
  split
  · split
    · exact (steady_maybeCommit _).after rfl rfl rfl
    · exact Steady.refl n
  · exact steady_of_eq rfl rfl rfl

theorem steady_handleSnapshotReply (n : Node) (sender : NodeId)
    (lastIndex nextOffset : Nat) (done : Bool) :
    Steady n (n.handleSnapshotReply sender lastIndex nextOffset done).1 := by
  unfold handleSnapshotReply
  dsimp only
  split
  · split
    · exact (steady_maybeCommit _).after rfl rfl rfl
    · exact steady_of_eq rfl rfl rfl
  · exact steady_of_eq rfl rfl rfl

/-!
# Proposals and time
-/

theorem steady_propose {n n' : Node} {command : Bytes} {index : Nat}
    {actions : List Action}
    (h : n.propose command = Except.ok (n', index, actions)) :
    Steady n n' := by
  unfold propose at h
  dsimp only at h
  split at h
  · cases h
  · split at h
    · cases h
    · cases h
      exact (steady_appendLocal n _).trans (steady_broadcastAppend _)

theorem steady_proposeBatch {n n' : Node} {commands : List Bytes}
    {answers : List (Except ProposeError Nat)} {actions : List Action}
    (h : n.proposeBatch commands = Except.ok (n', answers, actions)) :
    Steady n n' := by
  unfold proposeBatch at h
  dsimp only at h
  split at h
  · cases h
  · split at h
    · cases h
      exact Steady.refl n
    · cases h
      exact ((steady_append n _).trans (steady_maybeCommit _)).trans
        (steady_broadcastAppend _)

theorem steady_proposeMembership {n n' : Node} {members : List Member}
    {index : Nat} {actions : List Action}
    (h : n.proposeMembership members = Except.ok (n', index, actions)) :
    Steady n n' := by
  unfold proposeMembership at h
  dsimp only at h
  repeat' split at h
  all_goals cases h
  exact (steady_appendLocal n _).trans (steady_broadcastAppend _)

theorem steady_maybePromote (n : Node) : Steady n n.maybePromote.1 := by
  unfold maybePromote
  dsimp only
  split
  · exact Steady.refl n
  · split
    · exact Steady.refl n
    · split
      · next hpropose => exact steady_proposeMembership hpropose
      · exact Steady.refl n

theorem steady_checkQuorum (n : Node) : Steady n n.checkQuorum := by
  unfold checkQuorum
  dsimp only
  split
  · split
    · exact (steady_becomeFollower _ _ _).after rfl rfl rfl
    · exact steady_of_eq rfl rfl rfl
  · exact steady_of_eq rfl rfl rfl

theorem steady_tick (n : Node) : Steady n n.tick.1 := by
  unfold tick
  split
  · split
    · exact steady_becomeFollower n _ _
    · dsimp only
      refine Steady.trans ?_ (steady_checkQuorum _)
      refine Steady.trans ?_ (steady_maybePromote _)
      split
      · exact (steady_broadcastAppend _).after rfl rfl rfl
      · exact steady_of_eq rfl rfl rfl
  · dsimp only
    split
    · split
      · exact (steady_becomePreCandidate _).after rfl rfl rfl
      · exact steady_of_eq rfl rfl rfl
    · exact steady_of_eq rfl rfl rfl

theorem steady_campaign (n : Node) : Steady n n.campaign.1 := by
  unfold campaign
  split
  · exact steady_becomeCandidate n
  · exact Steady.refl n

/-!
# Messages
-/

theorem settled_acceptEntries (n : Node) (prevLogIndex : Nat)
    (entries : List Entry) :
    Settled n (n.acceptEntries prevLogIndex entries) := by
  have hstorage : forall storage : MemStorage,
      storage.log.base = n.storage.log.base ->
      storage.snapshot = n.storage.snapshot -> forall fresh,
      Settled n { n with storage := storage.append fresh } := by
    intro storage hbase hsnapshot fresh
    refine ⟨?_, hsnapshot, rfl⟩
    show (fresh.foldl EntryLog.push storage.log).base = _
    rw [foldl_push]
    exact hbase
  unfold acceptEntries
  cases hmatching : matching n.storage (prevLogIndex + 1) entries with
  | mk appendFrom conflict =>
      dsimp only
      cases conflict with
      | none =>
          dsimp only
          split
          · exact (hstorage n.storage rfl rfl _).trans
              (steady_reloadMembership _).toSettled
          · exact hstorage n.storage rfl rfl _
      | some index =>
          exact (hstorage (n.storage.truncateFrom index) rfl rfl _).trans
            (steady_reloadMembership _).toSettled

theorem settled_handleAppendEntries (n : Node) (sender : NodeId)
    (prevLogIndex prevLogTerm : Nat) (entries : List Entry)
    (leaderCommit seq : Nat) :
    Settled n (n.handleAppendEntries sender prevLogIndex prevLogTerm entries
      leaderCommit seq).1 := by
  have hreset : Settled n (resetElectionTimer { n with
      role := Role.follower
      leaderId := some sender }) :=
    ⟨rfl, rfl, rfl⟩
  unfold handleAppendEntries
  dsimp only
  split
  · exact hreset
  · split
    · split <;> exact hreset
    · refine hreset.trans ?_
      split
      · exact ⟨(settled_acceptEntries _ _ _).base,
          (settled_acceptEntries _ _ _).snapshot,
          (settled_acceptEntries _ _ _).lastApplied⟩
      · exact settled_acceptEntries _ _ _

/-- What a message does to the snapshot: nothing, apart from handing over what
the snapshot covers already, or a newer one takes its place. -/
inductive Received (n n' : Node) : Prop where
  | same (index : Nat)
      (covered : index <= n.storage.log.base.index)
      (base : n'.storage.log.base = n.storage.log.base)
      (snapshot : n'.storage.snapshot = n.storage.snapshot)
      (lastApplied : n'.lastApplied = max n.lastApplied index)
  | newer
      (newer : n.storage.log.base.index < n'.storage.log.base.index)
      (lastApplied : n'.lastApplied =
        max n.lastApplied n'.storage.log.base.index)

theorem Settled.received {n n' : Node} (h : Settled n n') : Received n n' :=
  Received.same 0 (Nat.zero_le _) h.base h.snapshot
    (by rw [h.lastApplied, Nat.max_eq_left (Nat.zero_le _)])

theorem Settled.trans_received {a b c : Node} (h : Settled a b)
    (h' : Received b c) : Received a c := by
  cases h' with
  | same index covered base snapshot lastApplied =>
      exact Received.same index (h.base ▸ covered) (base.trans h.base)
        (snapshot.trans h.snapshot) (h.lastApplied ▸ lastApplied)
  | newer newer lastApplied =>
      exact Received.newer (h.base ▸ newer) (h.lastApplied ▸ lastApplied)

theorem continuing_about (n : Node) (sender : NodeId) (about : SnapshotMeta)
    (members : Option (List Member)) :
    ((n.continuing sender about).getD
      (MemStorage.newSnapshot about members)).about = about := by
  unfold continuing
  split
  · split
    · next hsame => exact hsame.2
    · rfl
  · rfl

theorem received_installReceived (n : Node) {sink : MemSnapshot}
    {about : SnapshotMeta} (habout : sink.about = about) :
    Received n (n.installReceived sink about) := by
  have hreload := (steady_reloadMembership { n with
    incoming := none
    storage := n.storage.installSnapshot sink }).toSettled
  have hbase : (n.installReceived sink about).storage.log.base =
      (n.storage.installSnapshot sink).log.base := hreload.base
  have hsnapshot : (n.installReceived sink about).storage.snapshot =
      (n.storage.installSnapshot sink).snapshot := hreload.snapshot
  have hlast : (n.installReceived sink about).lastApplied =
      max n.lastApplied about.index := by
    rw [← hreload.lastApplied]
    rfl
  unfold MemStorage.installSnapshot at hbase hsnapshot
  rcases Nat.lt_or_ge n.storage.log.base.index about.index with hlt | hge
  · have hcompact : (n.storage.log.compact sink.about).1 = true ∧
        (n.storage.log.compact sink.about).2.base = about := by
      unfold EntryLog.compact
      rw [habout, if_neg (Nat.not_le_of_lt hlt)]
      exact ⟨rfl, rfl⟩
    rcases hresult : n.storage.log.compact sink.about with ⟨flag, log⟩
    rw [hresult] at hcompact hbase
    rcases hcompact with ⟨hflag, hlog⟩
    subst hflag
    have hnew := hbase.trans hlog
    refine Received.newer ?_ ?_
    · rw [hnew]
      exact hlt
    · rw [hlast, hnew]
  · have hcompact : n.storage.log.compact sink.about =
        (false, n.storage.log) := by
      unfold EntryLog.compact
      rw [habout, if_pos hge]
    rw [hcompact] at hbase hsnapshot
    exact Received.same about.index hge hbase hsnapshot hlast

theorem received_handleInstallSnapshot (n : Node) (sender : NodeId)
    (about : SnapshotMeta) (offset : Nat) (data : Bytes) (done : Bool)
    (seq : Nat) (members : Option (List Member)) :
    Received n (n.handleInstallSnapshot sender about offset data done seq
      members).1 := by
  have hreset : Settled n (resetElectionTimer { n with
      role := Role.follower
      leaderId := some sender }) :=
    ⟨rfl, rfl, rfl⟩
  have hquiet : forall n' : Node, n'.storage = n.storage ->
      n'.lastApplied = n.lastApplied -> Received n n' := by
    intro n' hstorage happlied
    exact Settled.received ⟨by rw [hstorage], by rw [hstorage], happlied⟩
  unfold handleInstallSnapshot
  dsimp only
  split
  · exact hquiet _ rfl rfl
  · split
    · exact hquiet _ rfl rfl
    · split
      · exact hquiet _ rfl rfl
      · split
        · exact hquiet _ rfl rfl
        · refine hreset.trans_received (received_installReceived _ ?_)
          exact continuing_about _ sender about members

/-- No other message comes near the snapshot. -/
theorem settled_handle (n : Node) (sender : NodeId) {message : Message}
    (h : forall term lastIndex lastTerm offset data done seq members,
      message ≠ Message.installSnapshot term lastIndex lastTerm offset data
        done seq members) :
    Settled n (n.handle sender message).1 := by
  cases message with
  | preVote => exact (Steady.refl n).toSettled
  | preVoteReply => exact (Steady.refl n).toSettled
  | requestVote => exact (steady_handleRequestVote n _ _ _).toSettled
  | requestVoteReply => exact (steady_handleVoteReply n _ _ _).toSettled
  | appendEntries => exact settled_handleAppendEntries n _ _ _ _ _ _
  | installSnapshot => exact absurd rfl (h _ _ _ _ _ _ _ _)
  | installSnapshotReply term lastIndex nextOffset done seq =>
      unfold handle
      dsimp only
      split
      · exact (Steady.refl n).toSettled
      · next hheard =>
          exact ((steady_heardRound hheard).trans
            (steady_handleSnapshotReply _ _ _ _ _)).toSettled
  | appendEntriesReply term success matchIndex conflictIndex conflictTerm seq =>
      unfold handle
      dsimp only
      split
      · exact (Steady.refl n).toSettled
      · next hheard =>
          exact ((steady_heardRound hheard).trans
            (steady_handleAppendReply _ _ _ _ _ _)).toSettled
  | readIndex => exact (steady_handleReadIndex n _ _).toSettled
  | readIndexReply => exact (steady_handleReadIndexReply n _ _).toSettled

theorem received_handle (n : Node) (sender : NodeId) (message : Message) :
    Received n (n.handle sender message).1 := by
  cases message with
  | installSnapshot =>
      exact received_handleInstallSnapshot n _ _ _ _ _ _ _
  | _ =>
      apply Settled.received
      apply settled_handle
      intros
      nofun

theorem received_step (n : Node) (sender : NodeId) (message : Message) :
    Received n (n.step sender message).1 := by
  have hsame := (Steady.refl n).toSettled.received
  unfold step
  split
  · exact hsame
  · split
    · exact hsame
    · exact (steady_handlePreVoteReply n _ _ _).toSettled.received
    · split
      · exact (steady_becomeFollower n _ _).toSettled.trans_received
          (received_handle _ _ _)
      · split
        · exact hsame
        · exact received_handle n _ _

theorem settled_step (n : Node) (sender : NodeId) {message : Message}
    (h : forall term lastIndex lastTerm offset data done seq members,
      message ≠ Message.installSnapshot term lastIndex lastTerm offset data
        done seq members) :
    Settled n (n.step sender message).1 := by
  have hsame := (Steady.refl n).toSettled
  unfold step
  split
  · exact hsame
  · split
    · exact hsame
    · exact (steady_handlePreVoteReply n _ _ _).toSettled
    · split
      · exact (steady_becomeFollower n _ _).toSettled.trans
          (settled_handle _ _ h)
      · split
        · exact hsame
        · exact settled_handle n _ h

end Node

/-!
# What of a message lies past the snapshot
-/

section PastSnapshot

variable {s : MemStorage} {prevLogIndex prevLogTerm : Nat} {entries : List Entry}

theorem pastSnapshot_none
    (h : Node.pastSnapshot s prevLogIndex prevLogTerm entries = none) :
    prevLogIndex + entries.length <= s.snapshotMeta.index := by
  unfold Node.pastSnapshot at h
  dsimp only at h
  split at h
  · split at h
    · omega
    · cases h
  · cases h

theorem pastSnapshot_some {prev term : Nat} {rest : List Entry}
    (h : Node.pastSnapshot s prevLogIndex prevLogTerm entries =
      some (prev, term, rest)) :
    (s.snapshotMeta.index <= prevLogIndex ∧ prev = prevLogIndex ∧
      term = prevLogTerm ∧ rest = entries) ∨
    (prevLogIndex < s.snapshotMeta.index ∧
      s.snapshotMeta.index - prevLogIndex < entries.length ∧
      prev = s.snapshotMeta.index ∧ term = s.snapshotMeta.term ∧
      rest = entries.drop (s.snapshotMeta.index - prevLogIndex)) := by
  unfold Node.pastSnapshot at h
  dsimp only at h
  split at h
  · next hbefore =>
      split at h
      · cases h
      · next hskip =>
          cases h
          exact Or.inr ⟨hbefore, Nat.lt_of_not_le hskip, rfl, rfl, rfl⟩
  · next hpast =>
      cases h
      exact Or.inl ⟨Nat.le_of_not_lt hpast, rfl, rfl, rfl⟩

/-- The end of a message is the same whether or not its beginning is in the
snapshot, and is not before the snapshot's. -/
theorem pastSnapshot_end {prev term : Nat} {rest : List Entry}
    (h : Node.pastSnapshot s prevLogIndex prevLogTerm entries =
      some (prev, term, rest)) :
    prev + rest.length = prevLogIndex + entries.length ∧
      s.snapshotMeta.index <= prev := by
  rcases pastSnapshot_some h with
    ⟨hpast, rfl, rfl, rfl⟩ | ⟨hbefore, hskip, rfl, rfl, rfl⟩
  · exact ⟨rfl, hpast⟩
  · rw [List.length_drop]
    exact ⟨by omega, Nat.le_refl _⟩

theorem pastSnapshot_suffix {prev term : Nat} {rest : List Entry}
    (h : Node.pastSnapshot s prevLogIndex prevLogTerm entries =
      some (prev, term, rest)) : rest <:+ entries := by
  rcases pastSnapshot_some h with
    ⟨_, rfl, rfl, rfl⟩ | ⟨_, _, rfl, rfl, rfl⟩
  · exact List.suffix_refl _
  · exact List.drop_suffix _ _

end PastSnapshot

/-!
# Taking office
-/

/-- The commit rule does not look at where the leader started. -/
theorem maybeCommit_leaderStart (node : Node) (start : Nat) :
    Node.maybeCommit { node with leaderStart := start } =
      { node.maybeCommit with leaderStart := start } := by
  have hmajority : Node.majorityIndex { node with leaderStart := start } =
      node.majorityIndex := rfl
  unfold Node.maybeCommit
  rw [hmajority]
  by_cases hempty : node.voters.isEmpty = true
  · rw [if_pos hempty, if_pos hempty]
  · rw [if_neg hempty, if_neg hempty]
    by_cases hcond : node.majorityIndex > node.commitIndex ∧
        node.storage.termAt node.majorityIndex = some node.term
    · rw [if_pos hcond]
      exact if_pos hcond
    · rw [if_neg hcond]
      exact if_neg hcond

def crowned (node : Node) : Node :=
  { node with
    role := Role.leader
    leaderId := some node.id
    heartbeatElapsed := 0
    electionElapsed := 0
    active := ∅
    snapshotProgress := Table.empty
    acked := Table.empty
    remoteReads := []
    nextIndex := node.replicas.foldl
      (fun t p => t.insert p (node.storage.lastIndex + 1)) Table.empty
    matchIndex := node.replicas.foldl (fun t p => t.insert p 0) Table.empty
    leaderStart := node.storage.lastIndex + 1 }

theorem becomeLeader_eq (node : Node) :
    node.becomeLeader = (Node.maybeCommit { crowned node with
      storage := node.storage.append
        [{ term := node.term
           index := node.storage.lastIndex + 1
           command := Command.noop }] }).broadcastAppend := by
  unfold Node.becomeLeader Node.appendLocal
  simp only [Command.isConfig, Bool.false_eq_true, if_false]
  rw [← maybeCommit_leaderStart]
  rfl

/-!
# Tables
-/

namespace Table

theorem foldl_insert {value : Type} (keys : List Nat) (x : value) (t : Table value)
    (k : Nat) :
    keys.foldl (fun t p => t.insert p x) t k =
      if k ∈ keys then some x else t k := by
  induction keys generalizing t with
  | nil => rfl
  | cons key keys ih =>
      rw [List.foldl_cons, ih]
      by_cases hlater : k ∈ keys
      · rw [if_pos hlater, if_pos (List.mem_cons_of_mem key hlater)]
      · rw [if_neg hlater]
        unfold insert
        by_cases hkey : k = key
        · rw [if_pos hkey, if_pos (List.mem_cons.mpr (Or.inl hkey))]
        · rw [if_neg hkey, if_neg (by simp [hkey, hlater])]

theorem foldl_orInsert {value : Type} (keys : List Nat) (x : value)
    (t : Table value) (k : Nat) :
    keys.foldl (fun t p => t.orInsert p x) t k =
      if k ∈ keys then some ((t k).getD x) else t k := by
  induction keys generalizing t with
  | nil => rfl
  | cons key keys ih =>
      have hone : t.orInsert key x k =
          if k = key then some ((t k).getD x) else t k := by
        unfold orInsert
        by_cases hkey : k = key
        · subst hkey
          rw [if_pos rfl]
          cases hk : t k with
          | none =>
              dsimp only [insert]
              rw [if_pos rfl]
              rfl
          | some y => exact hk
        · rw [if_neg hkey]
          cases t key with
          | none =>
              dsimp only [insert]
              rw [if_neg hkey]
          | some y => rfl
      rw [List.foldl_cons, ih, hone]
      by_cases hkey : k = key
      · rw [if_pos hkey, if_pos (List.mem_cons.mpr (Or.inl hkey))]
        by_cases hlater : k ∈ keys
        · rw [if_pos hlater, Option.getD_some]
        · rw [if_neg hlater]
      · rw [if_neg hkey]
        by_cases hlater : k ∈ keys
        · rw [if_pos hlater, if_pos (List.mem_cons_of_mem key hlater)]
        · rw [if_neg hlater, if_neg (by simp [hkey, hlater])]

end Table

end Raft
end Minicask
