import Mathlib.Logic.Relation
import Minicask.Raft.Frames

/-!
# What a node can do

Every operation of a node, put together from a few moves: entries appended by a
leader, a commit index raised, a message with entries, a piece of a snapshot, and
steps that touch neither the log nor the membership.  What the moves keep, every
operation keeps.
-/

namespace Minicask
namespace Raft

/-- The part of a node that its log, its membership and its snapshots come to. -/
structure Core where
  id : NodeId
  bootstrap : List Member
  config : Config
  members : List Member
  membershipIndex : Nat
  voters : List NodeId
  peers : List NodeId
  replicas : List NodeId
  log : EntryLog
  snapshot : Bytes
  snapshotMembers : Option (List Member)
  commitIndex : Nat
  lastApplied : Nat
  incoming : Option (NodeId × MemSnapshot)

def Node.core (n : Node) : Core where
  id := n.id
  bootstrap := n.bootstrap
  config := n.config
  members := n.members
  membershipIndex := n.membershipIndex
  voters := n.voters
  peers := n.peers
  replicas := n.replicas
  log := n.storage.log
  snapshot := n.storage.snapshot
  snapshotMembers := n.storage.snapshotMembers
  commitIndex := n.commitIndex
  lastApplied := n.lastApplied
  incoming := n.incoming

/-- The core stays, no term is taken back, and nobody takes office. -/
structure Idle (n n' : Node) : Prop where
  core : n'.core = n.core
  term : n.term <= n'.term
  leader : n'.role = Role.leader ->
    n.role = Role.leader ∧ n'.term = n.term ∧ n'.leaderStart = n.leaderStart

/-- What reaches a node from outside: messages, depending on what the node has come to,
and memberships proposed to it. -/
structure Inputs where
  heard : Core -> NodeId -> Message -> Prop
  offered : List Member -> Prop

/-- Entries a leader may append: of its term, from its last index on, and of a size
it takes. -/
structure Fresh (n : Node) (es : List Entry) : Prop where
  leader : n.role = Role.leader
  index : forall k e, es[k]? = some e -> e.index = n.lastIndex + 1 + k
  term : forall e, e ∈ es -> e.term = n.term
  data : forall e, e ∈ es -> exists bytes, e.command = Command.data bytes ∧
    bytes.length + entryOverhead <= n.config.maxEntryBytes

/-- A membership `proposeMembership` accepts: one that was offered, or the one in
force with a learner promoted. -/
structure Admitted (inputs : Inputs) (n : Node) (members : List Member) : Prop where
  leader : n.role = Role.leader
  ready : n.readyToServe = true
  committed : n.membershipIndex <= n.commitIndex
  distinct : (members.map Member.id).Nodup
  voters : ((members.filter (fun m => !m.learner)).map Member.id).toFinset ≠ ∅
  one : (n.voters.toFinset \
      ((members.filter (fun m => !m.learner)).map Member.id).toFinset ∪
    ((members.filter (fun m => !m.learner)).map Member.id).toFinset \
      n.voters.toFinset).card <= 1
  source : inputs.offered members ∨ exists position,
    members = n.members.modify position (fun m => { m with learner := false })

inductive Move (inputs : Inputs) (n : Node) : Node -> Prop where
  | idle {n' : Node} (h : Idle n n') : Move inputs n n'
  | reload : Move inputs n n.reloadMembership
  | lead :
      Move inputs n { n with
        role := Role.leader
        leaderStart := n.lastIndex + 1
        storage := n.storage.append
          [{ term := n.term
             index := n.lastIndex + 1
             command := Command.noop }] }
  | extend (es : List Entry) (h : Fresh n es) :
      Move inputs n { n with storage := n.storage.append es }
  | configure (members : List Member) (h : Admitted inputs n members) :
      Move inputs n (Node.reloadMembership { n with
        storage := n.storage.append
          [{ term := n.term
             index := n.lastIndex + 1
             command := Command.config members }] })
  | commit (index : Nat) (hleader : n.role = Role.leader)
      (hhigher : n.commitIndex < index)
      (hheld : n.storage.termAt index = some n.term) :
      Move inputs n { n with commitIndex := index }
  | entries (sender : NodeId) (prevLogIndex prevLogTerm : Nat)
      (entries : List Entry) (leaderCommit seq : Nat)
      (hheard : inputs.heard n.core sender (Message.appendEntries n.term
        prevLogIndex prevLogTerm entries leaderCommit seq)) :
      Move inputs n (n.handleAppendEntries sender prevLogIndex prevLogTerm entries
        leaderCommit seq).1
  | snapshot (sender : NodeId) (about : SnapshotMeta) (offset : Nat)
      (data : Bytes) (done : Bool) (seq : Nat) (members : Option (List Member))
      (hheard : inputs.heard n.core sender (Message.installSnapshot n.term
        about.index about.term offset data done seq members)) :
      Move inputs n (n.handleInstallSnapshot sender about offset data done seq
        members).1

abbrev Moves (inputs : Inputs) : Node -> Node -> Prop :=
  Relation.ReflTransGen (Move inputs)

/-- A message a node in this state can send. -/
inductive Sent (n : Node) : Action -> Prop where
  | append (peer : NodeId) (hleader : n.role = Role.leader) :
      Sent n (n.appendMessageFor peer)
  | probe (peer : NodeId) (seq : Nat) (hleader : n.role = Role.leader)
      (hpast : ¬ n.nextFor peer <= n.storage.snapshotMeta.index) :
      Sent n
        { dest := peer
          message := Message.appendEntries n.term (n.nextFor peer - 1)
            ((n.storage.termAt (n.nextFor peer - 1)).getD 0) [] n.commitIndex
            seq }
  | plain (action : Action) (h : action.message.carriesBytes = false) :
      Sent n action

/-- An operation that went by moves, and sent what a node on the way can send. -/
structure Ran (inputs : Inputs) (n : Node) (result : Node × List Action) :
    Prop where
  moves : Moves inputs n result.1
  sent : forall action, action ∈ result.2 ->
    exists between, Moves inputs n between ∧ Sent between action

/-!
# Putting moves together
-/

section Rules

variable {inputs : Inputs} {n n' : Node} {actions : List Action}

theorem Idle.moves (h : Idle n n') : Moves inputs n n' :=
  Relation.ReflTransGen.single (Move.idle h)

theorem idle_of_eq (hcore : n'.core = n.core) (hterm : n'.term = n.term)
    (hrole : n'.role = n.role) (hstart : n'.leaderStart = n.leaderStart) :
    Idle n n' :=
  ⟨hcore, Nat.le_of_eq hterm.symm, fun h => ⟨hrole ▸ h, hterm, hstart⟩⟩

theorem idle_of_not_leader (hcore : n'.core = n.core) (hterm : n.term <= n'.term)
    (hrole : n'.role ≠ Role.leader) : Idle n n' :=
  ⟨hcore, hterm, fun h => absurd h hrole⟩

theorem Ran.quiet (h : Moves inputs n n') : Ran inputs n (n', []) :=
  ⟨h, fun _ hmem => by cases hmem⟩

theorem Ran.idle (h : Idle n n') : Ran inputs n (n', []) :=
  Ran.quiet h.moves

theorem Ran.same (n : Node) : Ran inputs n (n, []) :=
  Ran.quiet Relation.ReflTransGen.refl

theorem Ran.sends (h : Moves inputs n n')
    (hsent : forall action, action ∈ actions -> Sent n' action) :
    Ran inputs n (n', actions) :=
  ⟨h, fun action hmem => ⟨n', h, hsent action hmem⟩⟩

theorem Ran.plain (h : Moves inputs n n')
    (hplain : forall action, action ∈ actions ->
      action.message.carriesBytes = false) :
    Ran inputs n (n', actions) :=
  Ran.sends h (fun action hmem => Sent.plain action (hplain action hmem))

theorem Ran.answer (h : Moves inputs n n') {action : Action}
    (hplain : action.message.carriesBytes = false) :
    Ran inputs n (n', [action]) :=
  Ran.plain h (fun _ hmem => List.mem_singleton.mp hmem ▸ hplain)

theorem Ran.after {middle : Node} {result : Node × List Action}
    (h : Moves inputs n middle) (hran : Ran inputs middle result) :
    Ran inputs n result where
  moves := h.trans hran.moves
  sent action hmem := by
    rcases hran.sent action hmem with ⟨between, hbetween, hsent⟩
    exact ⟨between, h.trans hbetween, hsent⟩

theorem Ran.append {result : Node × List Action} (h : Ran inputs n (n', actions))
    (hran : Ran inputs n' result) :
    Ran inputs n (result.1, actions ++ result.2) where
  moves := h.moves.trans hran.moves
  sent action hmem := by
    rcases List.mem_append.mp hmem with hfirst | hsecond
    · exact h.sent action hfirst
    · exact (Ran.after h.moves hran).sent action hsecond

theorem Ran.then {last : Node} (h : Ran inputs n (n', actions))
    (hlast : Moves inputs n' last) : Ran inputs n (last, actions) :=
  ⟨h.moves.trans hlast, h.sent⟩

end Rules

/-!
# Replication and elections
-/

section Operations

variable {inputs : Inputs}

theorem ran_broadcastAppend {n : Node} (hleader : n.role = Role.leader) :
    Ran inputs n n.broadcastAppend := by
  rcases broadcastAppend_eq n with ⟨n', hn', heq⟩
  have hmoves : Moves inputs n n' ∧ n'.role = Role.leader := by
    rcases hn' with rfl | rfl
    · exact ⟨Relation.ReflTransGen.refl, hleader⟩
    · exact ⟨Relation.ReflTransGen.single Move.reload,
        (role_reloadMembership n).trans hleader⟩
  rw [heq]
  apply Ran.sends hmoves.1
  intro action hmem
  rcases List.mem_map.mp hmem with ⟨peer, _, rfl⟩
  exact Sent.append peer hmoves.2

theorem moves_maybeCommit {n : Node} (hleader : n.role = Role.leader) :
    Moves inputs n n.maybeCommit := by
  rcases maybeCommit_cases n with hsame | ⟨hhigher, hterm, heq⟩
  · rw [hsame]
  · rw [heq]
    exact Relation.ReflTransGen.single (Move.commit _ hleader hhigher hterm)

theorem idle_becomeFollower {n : Node} {term : Nat} (hterm : n.term <= term)
    (leader : Option NodeId) : Idle n (n.becomeFollower term leader) := by
  have hrole : (n.becomeFollower term leader).role ≠ Role.leader := nofun
  unfold Node.becomeFollower at hrole ⊢
  by_cases hsame : term = n.term
  · rw [if_pos hsame] at hrole ⊢
    exact idle_of_not_leader rfl (Nat.le_refl _) hrole
  · rw [if_neg hsame] at hrole ⊢
    exact idle_of_not_leader rfl hterm hrole

theorem ran_becomeLeader (n : Node) : Ran inputs n n.becomeLeader := by
  have hlead : Moves inputs n { crowned n with
      storage := n.storage.append
        [{ term := n.term
           index := n.storage.lastIndex + 1
           command := Command.noop }] } := by
    refine (Relation.ReflTransGen.single Move.lead).trans (Idle.moves ?_)
    apply idle_of_eq <;> rfl
  rw [becomeLeader_eq]
  refine Ran.after (hlead.trans (moves_maybeCommit ?_)) (ran_broadcastAppend ?_)
  · rfl
  · rw [role_maybeCommit]
    rfl

theorem ran_requests (n : Node) (peers : List NodeId)
    (message : Message) (h : message.carriesBytes = false) :
    Ran inputs n (n, peers.map (fun peer =>
      { dest := peer, message := message })) := by
  refine Ran.plain Relation.ReflTransGen.refl ?_
  intro action hmem
  rcases List.mem_map.mp hmem with ⟨peer, _, rfl⟩
  exact h

theorem ran_becomeCandidate (n : Node) : Ran inputs n n.becomeCandidate := by
  have hstand : forall n' : Node, n'.core = n.core -> n.term <= n'.term ->
      n'.role = Role.candidate -> Moves inputs n n' := by
    intro n' hcore hterm hrole
    refine (idle_of_not_leader hcore hterm ?_).moves
    rw [hrole]
    nofun
  unfold Node.becomeCandidate
  dsimp only
  split
  · refine Ran.after (hstand _ ?_ ?_ ?_) (ran_becomeLeader _)
    · rfl
    · exact Nat.le_succ n.term
    · rfl
  · refine Ran.after (hstand _ ?_ ?_ ?_) (ran_requests _ _ _ ?_)
    · rfl
    · exact Nat.le_succ n.term
    · rfl
    · rfl

theorem ran_becomePreCandidate (n : Node) :
    Ran inputs n n.becomePreCandidate := by
  have hstand : forall n' : Node, n'.core = n.core -> n'.term = n.term ->
      n'.role = Role.preCandidate -> Moves inputs n n' := by
    intro n' hcore hterm hrole
    refine (idle_of_not_leader hcore (Nat.le_of_eq hterm.symm) ?_).moves
    rw [hrole]
    nofun
  unfold Node.becomePreCandidate
  dsimp only
  split
  · refine Ran.after (hstand _ ?_ ?_ ?_) (ran_becomeCandidate _) <;> rfl
  · refine Ran.after (hstand _ ?_ ?_ ?_) (ran_requests _ _ _ ?_) <;> rfl

theorem ran_handlePreVoteReply (n : Node) (sender : NodeId) (term : Nat)
    (granted : Bool) :
    Ran inputs n (n.handlePreVoteReply sender term granted) := by
  unfold Node.handlePreVoteReply
  dsimp only
  split
  · split
    · split
      · refine Ran.after (Idle.moves ?_) (ran_becomeCandidate _)
        apply idle_of_eq <;> rfl
      · apply Ran.idle
        apply idle_of_eq <;> rfl
    · exact Ran.same n
  · split
    · next hterm =>
        exact Ran.idle (idle_becomeFollower (Nat.le_of_lt hterm) none)
    · exact Ran.same n

theorem ran_handleRequestVote (n : Node) (sender : NodeId)
    (lastLogIndex lastLogTerm : Nat) :
    Ran inputs n (n.handleRequestVote sender lastLogIndex lastLogTerm) := by
  unfold Node.handleRequestVote
  dsimp only
  generalize (_ && n.storage.isUpToDate lastLogIndex lastLogTerm) = granted
  cases granted with
  | true =>
      refine Ran.answer (Idle.moves ?_) rfl
      apply idle_of_eq <;> rfl
  | false => exact Ran.answer Relation.ReflTransGen.refl rfl

theorem ran_handleVoteReply (n : Node) (sender : NodeId) (term : Nat)
    (granted : Bool) :
    Ran inputs n (n.handleVoteReply sender term granted) := by
  unfold Node.handleVoteReply
  dsimp only
  split
  · exact Ran.same n
  · split
    · split
      · refine Ran.after (Idle.moves ?_) (ran_becomeLeader _)
        apply idle_of_eq <;> rfl
      · apply Ran.idle
        apply idle_of_eq <;> rfl
    · exact Ran.same n

/-!
# Reads and replies
-/

theorem ran_openReadRound {n n' : Node} (hleader : n.role = Role.leader)
    (h : Idle n n') : Ran inputs n (n', n.openReadRound.2.1) := by
  refine ⟨h.moves, ?_⟩
  intro action hmem
  unfold Node.openReadRound at hmem
  rcases List.mem_map.mp hmem with ⟨peer, hpeer, rfl⟩
  have hpast : ¬ n.nextFor peer <= n.storage.snapshotMeta.index := by
    have hfilter := (List.mem_filter.mp hpeer).2
    rwa [Bool.not_eq_true', decide_eq_false_iff_not] at hfilter
  exact ⟨n, Relation.ReflTransGen.refl, Sent.probe peer _ hleader hpast⟩

theorem ran_handleReadIndex (n : Node) (sender : NodeId) (id : Nat) :
    Ran inputs n (n.handleReadIndex sender id) := by
  unfold Node.handleReadIndex
  split
  · exact Ran.answer Relation.ReflTransGen.refl rfl
  · next hrole =>
      refine ran_openReadRound (not_not.mp hrole) ?_
      apply idle_of_eq <;> rfl

theorem ran_readIndex (n : Node) :
    Ran inputs n (n.readIndex.1, n.readIndex.2.2) := by
  unfold Node.readIndex
  split
  · next hrole =>
      refine ran_openReadRound hrole ?_
      apply idle_of_eq <;> rfl
  · split
    · refine Ran.answer (Idle.moves ?_) rfl
      apply idle_of_eq <;> rfl
    · exact Ran.same n

theorem ran_forgetRead (n : Node) (request : ReadRequest) :
    Ran inputs n (n.forgetRead request, []) := by
  cases request with
  | localRead => exact Ran.same n
  | forwarded =>
      apply Ran.idle
      apply idle_of_eq <;> rfl
  | refused => exact Ran.same n

theorem ran_handleReadIndexReply (n : Node) (id : Nat) (index : Option Nat) :
    Ran inputs n (n.handleReadIndexReply id index, []) := by
  unfold Node.handleReadIndexReply
  split
  · apply Ran.idle
    apply idle_of_eq <;> rfl
  · exact Ran.same n

theorem plain_releaseReads (n : Node) : forall action,
    action ∈ n.releaseReads.2 -> action.message.carriesBytes = false := by
  intro action haction
  rcases List.mem_map.mp haction with ⟨_, _, rfl⟩
  rfl

theorem heardRound_leads {n n' : Node} {sender : NodeId} {term seq : Nat}
    {released : List Action}
    (h : n.heardRound sender term seq = some (n', released)) :
    n'.role = Role.leader ∧ forall action, action ∈ released ->
      action.message.carriesBytes = false := by
  unfold Node.heardRound at h
  dsimp only at h
  split at h
  · cases h
  · next hcond =>
      rw [not_or, not_not] at hcond
      split at h
      · cases h
        exact ⟨hcond.1, plain_releaseReads _⟩
      · cases h
        exact ⟨hcond.1, fun _ hin => absurd hin List.not_mem_nil⟩

theorem ran_heardRound {n n' : Node} {sender : NodeId} {term seq : Nat}
    {released : List Action}
    (h : n.heardRound sender term seq = some (n', released)) :
    Ran inputs n (n', released) := by
  apply Ran.plain (Idle.moves ?_) (heardRound_leads h).2
  unfold Node.heardRound at h
  dsimp only at h
  split at h
  · cases h
  · split at h
    · cases h
      apply idle_of_eq <;> rfl
    · cases h
      apply idle_of_eq <;> rfl

theorem ran_handleAppendReply {n : Node} (hleader : n.role = Role.leader)
    (sender : NodeId) (success : Bool) (matchIndex conflictIndex : Nat)
    (conflictTerm : Option Nat) :
    Ran inputs n (n.handleAppendReply sender success matchIndex conflictIndex
      conflictTerm) := by
  have hsend : forall n' : Node, n'.role = Role.leader ->
      forall action, action ∈ [n'.appendMessageFor sender] -> Sent n' action := by
    intro n' hrole action hmem
    rw [List.mem_singleton.mp hmem]
    exact Sent.append sender hrole
  unfold Node.handleAppendReply
  dsimp only
  split
  · split
    · have hmoves : Moves inputs n (Node.maybeCommit { n with
          matchIndex := n.matchIndex.insert sender matchIndex
          nextIndex := n.nextIndex.insert sender (matchIndex + 1) }) := by
        refine (Idle.moves ?_).trans (moves_maybeCommit hleader)
        apply idle_of_eq <;> rfl
      refine Ran.sends hmoves ?_
      split
      · exact hsend _ ((role_maybeCommit _).trans hleader)
      · nofun
    · exact Ran.same n
  · refine Ran.sends (Idle.moves ?_) (hsend _ hleader)
    apply idle_of_eq <;> rfl

theorem ran_handleSnapshotReply {n : Node} (hleader : n.role = Role.leader)
    (sender : NodeId) (lastIndex nextOffset : Nat) (done : Bool) :
    Ran inputs n (n.handleSnapshotReply sender lastIndex nextOffset done) := by
  have hsend : forall n' : Node, n'.role = Role.leader ->
      forall action, action ∈ [n'.appendMessageFor sender] -> Sent n' action := by
    intro n' hrole action hmem
    rw [List.mem_singleton.mp hmem]
    exact Sent.append sender hrole
  have hsends : forall n' : Node, n'.role = Role.leader ->
      forall action, action ∈ (if (n'.nextIndex sender).getD 0 <=
        n'.storage.lastIndex then [n'.appendMessageFor sender] else []) ->
        Sent n' action := by
    intro n' hrole
    split
    · exact hsend n' hrole
    · nofun
  unfold Node.handleSnapshotReply
  dsimp only
  split
  · split
    · refine Ran.sends (((Idle.moves ?_).trans (moves_maybeCommit ?_)))
        (hsends _ ?_)
      · apply idle_of_eq <;> rfl
      · exact hleader
      · rw [role_maybeCommit]
        exact hleader
    · refine Ran.sends (Idle.moves ?_) (hsends _ hleader)
      apply idle_of_eq <;> rfl
  · refine Ran.sends (Idle.moves ?_) (hsend _ hleader)
    apply idle_of_eq <;> rfl

/-!
# Messages
-/

theorem plain_handleAppendEntries (n : Node) (sender : NodeId)
    (prevLogIndex prevLogTerm : Nat) (entries : List Entry)
    (leaderCommit seq : Nat) {action : Action}
    (hmem : action ∈ (n.handleAppendEntries sender prevLogIndex prevLogTerm
      entries leaderCommit seq).2) : action.message.carriesBytes = false := by
  unfold Node.handleAppendEntries at hmem
  dsimp only at hmem
  split at hmem
  · rw [List.mem_singleton.mp hmem]
    rfl
  · split at hmem
    · split at hmem
      all_goals
        rw [List.mem_singleton.mp hmem]
        rfl
    · rw [List.mem_singleton.mp hmem]
      rfl

theorem plain_handleInstallSnapshot (n : Node) (sender : NodeId)
    (about : SnapshotMeta) (offset : Nat) (data : Bytes) (done : Bool)
    (seq : Nat) (members : Option (List Member)) {action : Action}
    (hmem : action ∈ (n.handleInstallSnapshot sender about offset data done seq
      members).2) : action.message.carriesBytes = false := by
  unfold Node.handleInstallSnapshot at hmem
  dsimp only at hmem
  split at hmem
  · rw [List.mem_singleton.mp hmem]
    rfl
  · split at hmem
    · rw [List.mem_singleton.mp hmem]
      rfl
    · split at hmem
      · rw [List.mem_singleton.mp hmem]
        rfl
      · split at hmem
        all_goals
          rw [List.mem_singleton.mp hmem]
          rfl

theorem ran_handle (n : Node) {sender : NodeId} {message : Message}
    (hheard : inputs.heard n.core sender message)
    (hterm : message.isRequest = true -> message.term = n.term) :
    Ran inputs n (n.handle sender message) := by
  cases message with
  | preVote => exact Ran.same n
  | preVoteReply => exact Ran.same n
  | requestVote => exact ran_handleRequestVote n _ _ _
  | requestVoteReply => exact ran_handleVoteReply n _ _ _
  | appendEntries term prevLogIndex prevLogTerm entries leaderCommit seq =>
      obtain rfl : term = n.term := hterm rfl
      exact Ran.plain
        (Relation.ReflTransGen.single (Move.entries _ _ _ _ _ _ hheard))
        (fun _ hmem => plain_handleAppendEntries n _ _ _ _ _ _ hmem)
  | installSnapshot term lastIndex lastTerm offset data done seq members =>
      obtain rfl : term = n.term := hterm rfl
      exact Ran.plain
        (Relation.ReflTransGen.single (Move.snapshot _
          { index := lastIndex, term := lastTerm } _ _ _ _ _ hheard))
        (fun _ hmem => plain_handleInstallSnapshot n _ _ _ _ _ _ _ hmem)
  | installSnapshotReply term lastIndex nextOffset done seq =>
      unfold Node.handle
      dsimp only
      split
      · exact Ran.same n
      · next hround =>
          have hleader := (heardRound_leads hround).1
          exact (ran_heardRound hround).append (ran_handleSnapshotReply hleader _ _ _ _)
  | appendEntriesReply term success matchIndex conflictIndex conflictTerm seq =>
      unfold Node.handle
      dsimp only
      split
      · exact Ran.same n
      · next hround =>
          have hleader := (heardRound_leads hround).1
          exact (ran_heardRound hround).append (ran_handleAppendReply hleader _ _ _ _ _)
  | readIndex => exact ran_handleReadIndex n _ _
  | readIndexReply => exact ran_handleReadIndexReply n _ _

theorem term_becomeFollower (n : Node) (term : Nat) (leader : Option NodeId) :
    (n.becomeFollower term leader).term = term := by
  unfold Node.becomeFollower
  by_cases hsame : term = n.term
  · rw [if_pos hsame]
    exact hsame.symm
  · rw [if_neg hsame]
    rfl

theorem ran_step (n : Node) {sender : NodeId} {message : Message}
    (hheard : inputs.heard n.core sender message) :
    Ran inputs n (n.step sender message) := by
  unfold Node.step
  split
  · refine Ran.answer Relation.ReflTransGen.refl ?_
    unfold Node.refuseVote
    dsimp only
    split <;> rfl
  · split
    · exact Ran.answer Relation.ReflTransGen.refl rfl
    · exact ran_handlePreVoteReply n _ _ _
    · split
      · next hhigher =>
          have hidle := idle_becomeFollower (Nat.le_of_lt hhigher) none
          refine Ran.after hidle.moves (ran_handle _ ?_ ?_)
          · rw [hidle.core]
            exact hheard
          · intro _
            rw [term_becomeFollower]
      · next hhigher =>
          split
          · refine Ran.answer Relation.ReflTransGen.refl ?_
            unfold Node.replyStale
            dsimp only
            split <;> rfl
          · next hstale =>
              refine ran_handle n hheard ?_
              intro hrequest
              rw [hrequest, Bool.and_true, decide_eq_true_eq] at hstale
              omega

/-!
# Proposals
-/

theorem moves_append {n : Node} {es : List Entry} (h : Fresh n es) :
    Moves inputs n (Node.maybeCommit
      { n with storage := n.storage.append es }) :=
  (Relation.ReflTransGen.single (Move.extend es h)).trans
    (moves_maybeCommit h.leader)

theorem ran_propose {n n' : Node} {command : Bytes} {index : Nat}
    {actions : List Action}
    (h : n.propose command = Except.ok (n', index, actions)) :
    Ran inputs n (n', actions) := by
  unfold Node.propose at h
  dsimp only at h
  split at h
  · cases h
  · next hrole =>
      split at h
      · cases h
      · next hsize =>
          obtain ⟨rfl, _, rfl⟩ : _ ∧ _ ∧ _ := by
            simpa only [Except.ok.injEq, Prod.mk.injEq] using h
          have hfresh : Fresh n
              [{ term := n.term
                 index := n.storage.lastIndex + 1
                 command := Command.data command }] := by
            refine ⟨not_not.mp hrole, ?_, ?_, ?_⟩
            · intro k e hk
              cases k with
              | zero =>
                  obtain rfl := Option.some.inj hk
                  rfl
              | succ k => cases hk
            · intro e he
              rw [List.mem_singleton.mp he]
            · intro e he
              rw [List.mem_singleton.mp he]
              exact ⟨command, rfl, Nat.le_of_not_gt hsize⟩
          refine Ran.after (moves_append hfresh) (ran_broadcastAppend ?_)
          rw [role_maybeCommit]
          exact not_not.mp hrole

/-- The entries of a batch follow the last one, and each fits. -/
theorem batchEntries_spec (term maxEntryBytes : Nat) (commands : List Bytes)
    (next : Nat) :
    (forall k e, (Node.batchEntries term maxEntryBytes next commands).1[k]? =
        some e -> e.index = next + k) ∧
      forall e, e ∈ (Node.batchEntries term maxEntryBytes next commands).1 ->
        e.term = term ∧ exists bytes, e.command = Command.data bytes ∧
          bytes.length + entryOverhead <= maxEntryBytes := by
  induction commands generalizing next with
  | nil =>
      constructor
      · intro k e hk
        cases hk
      · intro e he
        cases he
  | cons command commands ih =>
      unfold Node.batchEntries
      dsimp only
      split
      · exact ih next
      · next hsize =>
          obtain ⟨hindex, hdata⟩ := ih (next + 1)
          constructor
          · intro k e hk
            cases k with
            | zero =>
                obtain rfl := Option.some.inj hk
                rfl
            | succ k =>
                rw [hindex k e hk]
                omega
          · intro e he
            rcases List.mem_cons.mp he with rfl | hrest
            · exact ⟨rfl, command, rfl, Nat.le_of_not_gt hsize⟩
            · exact hdata e hrest

theorem ran_proposeBatch {n n' : Node} {commands : List Bytes}
    {answers : List (Except ProposeError Nat)} {actions : List Action}
    (h : n.proposeBatch commands = Except.ok (n', answers, actions)) :
    Ran inputs n (n', actions) := by
  unfold Node.proposeBatch at h
  dsimp only at h
  split at h
  · cases h
  · next hrole =>
      obtain ⟨hindex, hdata⟩ := batchEntries_spec n.term n.config.maxEntryBytes
        commands (n.storage.lastIndex + 1)
      split at h
      · obtain ⟨rfl, _, rfl⟩ : _ ∧ _ ∧ _ := by
          simpa only [Except.ok.injEq, Prod.mk.injEq] using h
        exact Ran.same n
      · obtain ⟨rfl, _, rfl⟩ : _ ∧ _ ∧ _ := by
          simpa only [Except.ok.injEq, Prod.mk.injEq] using h
        refine Ran.after (moves_append
          ⟨not_not.mp hrole, hindex, fun e he => (hdata e he).1,
            fun e he => (hdata e he).2⟩) (ran_broadcastAppend ?_)
        rw [role_maybeCommit]
        exact not_not.mp hrole

/-- What `proposeMembership` checked. -/
theorem proposeMembership_ok {n n' : Node} {members : List Member} {index : Nat}
    {actions : List Action}
    (h : n.proposeMembership members = Except.ok (n', index, actions))
    (hsource : inputs.offered members ∨ exists position,
      members = n.members.modify position (fun m => { m with learner := false })) :
    Admitted inputs n members ∧
      (n', actions) =
        (n.appendLocal (Command.config members)).1.broadcastAppend ∧
      index = n.lastIndex + 1 := by
  unfold Node.proposeMembership at h
  dsimp only at h
  split at h
  · cases h
  · next hrole =>
      split at h
      · cases h
      · next hready =>
          split at h
          · cases h
          · next hcommitted =>
              split at h
              · cases h
              · next hdistinct =>
                  split at h
                  · cases h
                  · next hvoters =>
                      split at h
                      · cases h
                      · next hone =>
                          obtain ⟨rfl, rfl, rfl⟩ : _ ∧ _ ∧ _ := by
                            simpa only [Except.ok.injEq, Prod.mk.injEq] using h
                          refine ⟨⟨not_not.mp hrole, ?_,
                            Nat.le_of_not_gt hcommitted, ?_, hvoters,
                            Nat.le_of_not_gt hone, hsource⟩, rfl, rfl⟩
                          · simpa using hready
                          · have hcard := not_not.mp hdistinct
                            rw [← List.length_map (f := Member.id),
                              List.card_toFinset] at hcard
                            exact List.dedup_eq_self.mp
                              ((List.dedup_sublist _).eq_of_length hcard)

theorem ran_proposeMembership {n n' : Node} {members : List Member} {index : Nat}
    {actions : List Action}
    (h : n.proposeMembership members = Except.ok (n', index, actions))
    (hsource : inputs.offered members ∨ exists position,
      members = n.members.modify position (fun m => { m with learner := false })) :
    Ran inputs n (n', actions) := by
  obtain ⟨hadmitted, hresult, _⟩ := proposeMembership_ok h hsource
  have hleader : (Node.reloadMembership { n with
      storage := n.storage.append
        [{ term := n.term
           index := n.storage.lastIndex + 1
           command := Command.config members }] }).role = Role.leader := by
    rw [role_reloadMembership]
    exact hadmitted.leader
  rw [hresult]
  refine Ran.after ((Relation.ReflTransGen.single
    (Move.configure members hadmitted)).trans (moves_maybeCommit hleader))
    (ran_broadcastAppend ?_)
  exact (role_maybeCommit _).trans hleader

theorem ran_maybePromote (n : Node) : Ran inputs n n.maybePromote := by
  unfold Node.maybePromote
  dsimp only
  split
  · exact Ran.same n
  · split
    · exact Ran.same n
    · split
      · next hpropose =>
          exact ran_proposeMembership hpropose (Or.inr ⟨_, rfl⟩)
      · exact Ran.same n

/-!
# Time
-/

theorem idle_checkQuorum (n : Node) : Idle n n.checkQuorum := by
  unfold Node.checkQuorum
  dsimp only
  split
  · split
    · have hfollow := idle_becomeFollower (n := { n with
        electionElapsed := n.electionElapsed + 1
        active := ∅ }) (Nat.le_refl _) none
      exact ⟨hfollow.core, hfollow.term, hfollow.leader⟩
    · apply idle_of_eq <;> rfl
  · apply idle_of_eq <;> rfl

theorem ran_tick (n : Node) : Ran inputs n n.tick := by
  unfold Node.tick
  split
  · next hrole =>
      split
      · exact Ran.idle (idle_becomeFollower (Nat.le_refl _) none)
      · dsimp only
        refine Ran.append ?_ ((ran_maybePromote _).then
          (idle_checkQuorum _).moves)
        split
        · refine Ran.after (Idle.moves ?_) (ran_broadcastAppend ?_)
          · apply idle_of_eq <;> rfl
          · exact hrole
        · apply Ran.idle
          apply idle_of_eq <;> rfl
  · dsimp only
    split
    · split
      · refine Ran.after (Idle.moves ?_) (ran_becomePreCandidate _)
        apply idle_of_eq <;> rfl
      · apply Ran.idle
        apply idle_of_not_leader
        · rfl
        · exact Nat.le_refl _
        · nofun
    · apply Ran.idle
      apply idle_of_eq <;> rfl

theorem ran_campaign (n : Node) : Ran inputs n n.campaign := by
  unfold Node.campaign
  split
  · exact ran_becomeCandidate n
  · exact Ran.same n

theorem ran_preVote (n : Node) : Ran inputs n n.preVote := by
  unfold Node.preVote
  split
  · exact ran_becomePreCandidate n
  · exact Ran.same n

/-!
# What a message with entries can do
-/

/-- Cut the log back to a conflict, append what is new, and look the membership up
again if it may have moved. -/
theorem acceptEntries_cases (n : Node) (prevLogIndex : Nat) (entries : List Entry) :
    exists appendFrom conflict,
      Node.matching n.storage (prevLogIndex + 1) entries =
          (appendFrom, conflict) ∧
        let storage :=
          (match conflict with
            | some index => n.storage.truncateFrom index
            | none => n.storage).append (entries.drop appendFrom)
        (n.acceptEntries prevLogIndex entries =
            Node.reloadMembership { n with storage := storage } ∨
          conflict = none ∧
            (forall e, e ∈ entries.drop appendFrom ->
              e.command.isConfig = false) ∧
            n.acceptEntries prevLogIndex entries =
              { n with storage := storage }) := by
  rcases hmatching : Node.matching n.storage (prevLogIndex + 1) entries with
    ⟨appendFrom, conflict⟩
  refine ⟨appendFrom, conflict, rfl, ?_⟩
  unfold Node.acceptEntries
  rw [hmatching]
  dsimp only
  split
  · exact Or.inl rfl
  · next hquiet =>
      rw [Bool.or_eq_true, not_or] at hquiet
      refine Or.inr ⟨?_, ?_, rfl⟩
      · cases conflict with
        | none => rfl
        | some index => exact absurd rfl hquiet.1
      · intro e he
        have hany := hquiet.2
        rw [List.any_eq_true, not_exists] at hany
        exact Bool.eq_false_iff.mpr (fun hconfig => hany e ⟨he, hconfig⟩)

/-- A message with entries changes nothing, or what it brings is accepted and the
commit index follows the leader's. -/
theorem handleAppendEntries_cases (n : Node) (sender : NodeId)
    (prevLogIndex prevLogTerm : Nat) (entries : List Entry)
    (leaderCommit seq : Nat) :
    Idle n (n.handleAppendEntries sender prevLogIndex prevLogTerm entries
        leaderCommit seq).1 ∨
      exists middle prev term rest, Idle n middle ∧
        middle.storage = n.storage ∧
        Node.pastSnapshot n.storage prevLogIndex prevLogTerm entries =
          some (prev, term, rest) ∧
        n.storage.termAt prev = some term ∧
        (n.handleAppendEntries sender prevLogIndex prevLogTerm entries
          leaderCommit seq).1 =
          { middle.acceptEntries prev rest with
            commitIndex :=
              if leaderCommit > (middle.acceptEntries prev rest).commitIndex then
                min leaderCommit (prev + rest.length)
              else (middle.acceptEntries prev rest).commitIndex } := by
  have hidle : Idle n (Node.resetElectionTimer { n with
      role := Role.follower
      leaderId := some sender }) := by
    apply idle_of_not_leader
    · rfl
    · exact Nat.le_refl _
    · nofun
  unfold Node.handleAppendEntries
  dsimp only
  split
  · exact Or.inl hidle
  · next prev term rest hpast =>
      split
      · split <;> exact Or.inl hidle
      · next hterm =>
          refine Or.inr ⟨_, prev, term, rest, hidle, rfl, hpast,
            not_not.mp hterm, ?_⟩
          split <;> rfl

/-!
# What a piece of a snapshot can do
-/

/-- A piece leaves the log alone and may be kept, or it is the last one and the
snapshot is installed. -/
theorem handleInstallSnapshot_cases (n : Node) (sender : NodeId)
    (about : SnapshotMeta) (offset : Nat) (data : Bytes) (done : Bool) (seq : Nat)
    (members : Option (List Member)) :
    exists middle, Idle n middle ∧ middle.storage = n.storage ∧
      let sink := (n.continuing sender about).getD
        (MemStorage.newSnapshot about members)
      let result := (n.handleInstallSnapshot sender about offset data done seq
        members).1
      result = middle ∨
        result = { middle with incoming := none } ∨
        (n.commitIndex < about.index ∧
          (result = { middle with incoming := some (sender, sink) } ∨
            offset = sink.written ∧
              (result = { middle with
                  incoming := some (sender, sink.writeAll data) } ∨
                done = true ∧
                  result = middle.installReceived (sink.writeAll data)
                    about))) := by
  refine ⟨Node.resetElectionTimer { n with
      role := Role.follower
      leaderId := some sender }, ?_, rfl, ?_⟩
  · apply idle_of_not_leader
    · rfl
    · exact Nat.le_refl _
    · nofun
  · unfold Node.handleInstallSnapshot
    dsimp only
    split
    · exact Or.inr (Or.inl rfl)
    · next hnewer =>
        split
        · exact Or.inl rfl
        · refine Or.inr (Or.inr ⟨Nat.lt_of_not_le hnewer, ?_⟩)
          split
          · exact Or.inl rfl
          · next hoffset =>
              refine Or.inr ⟨not_not.mp hoffset, ?_⟩
              split
              · exact Or.inl rfl
              · next hdone =>
                  exact Or.inr ⟨by simpa using hdone, rfl⟩

end Operations

end Raft
end Minicask
