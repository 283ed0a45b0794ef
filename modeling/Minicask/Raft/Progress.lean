import Minicask.Raft.CommitIndex

/-!
# Progress of a follower

What a leader sends a follower starts at the index it takes the follower's log to
continue at.  An answer to it moves the leader's view of the follower forward, unless a
late refusal has moved that index back below what the follower is known to hold.
-/

namespace Minicask
namespace Raft

/-!
# One exchange
-/

def Message.isPositive : Message -> Bool
  | Message.appendEntriesReply _ success _ _ _ _ => success
  | Message.installSnapshotReply _ _ _ done _ => done
  | _ => false

def Node.matchFor (n : Node) (peer : NodeId) : Nat :=
  (n.matchIndex peer).getD 0

/-- How far what a leader sends a follower goes: to the end of its snapshot, or to the
end of the batch or of the follower's own snapshot. -/
def Node.reach (leader follower : Node) (peer : NodeId) : Nat :=
  if leader.nextFor peer <= leader.storage.snapshotMeta.index then
    leader.storage.snapshotMeta.index
  else
    max (leader.nextFor peer - 1 +
        (leader.storage.entriesWithin (leader.nextFor peer)
          leader.config.maxAppendBytes).length)
      follower.storage.snapshotMeta.index

/-- A leader and a follower of one term, the follower behind, and its answer to what
the leader would send it now. -/
structure Exchange (leader follower : Node) (sender peer : NodeId)
    (reply : Message) : Prop where
  leads : leader.role = Role.leader
  replica : peer ∈ leader.replicas
  term : follower.term = leader.term
  behind : leader.matchFor peer < leader.lastIndex
  answered : { dest := sender, message := reply } ∈
    (follower.step sender (leader.appendMessageFor peer).message).2
  positive : reply.isPositive = true

inductive Conflict (s : MemStorage) (prevLogIndex : Nat) :
    Nat -> Option Nat -> Prop where
  | short (h : s.termAt prevLogIndex = none) :
      Conflict s prevLogIndex (s.lastIndex + 1) none
  | diverges (t : Nat) (h : s.termAt prevLogIndex = some t) :
      Conflict s prevLogIndex (s.firstIndexOfTerm t) (some t)

/-- A message with entries gets one answer, with how far it goes, unless it is refused,
and a refusal leaves the log alone. -/
theorem handleAppendEntries_answers (n : Node) (sender : NodeId)
    (prevLogIndex prevLogTerm : Nat) (entries : List Entry)
    (leaderCommit seq : Nat) :
    (exists n', n.handleAppendEntries sender prevLogIndex prevLogTerm entries
        leaderCommit seq =
      (n', [{ dest := sender
              message := Message.appendEntriesReply n.term true
                (max (prevLogIndex + entries.length) n.storage.snapshotMeta.index)
                0 none seq }])) ∨
    exists n' conflictIndex conflictTerm,
      n.handleAppendEntries sender prevLogIndex prevLogTerm entries leaderCommit
          seq =
        (n', [{ dest := sender
                message := Message.appendEntriesReply n.term false 0
                  conflictIndex conflictTerm seq }]) ∧
      n'.storage = n.storage ∧
      n.storage.snapshotMeta.index <= prevLogIndex ∧
      n.storage.termAt prevLogIndex ≠ some prevLogTerm ∧
      Conflict n.storage prevLogIndex conflictIndex conflictTerm := by
  unfold Node.handleAppendEntries
  dsimp only
  generalize hm : Node.resetElectionTimer { n with
    role := Role.follower
    leaderId := some sender } = m
  have hstorage : m.storage = n.storage := by
    rw [← hm]
    rfl
  have hterm : m.term = n.term := by
    rw [← hm]
    rfl
  rw [hstorage, hterm]
  cases hpast : Node.pastSnapshot n.storage prevLogIndex prevLogTerm entries with
  | none =>
      rw [Nat.max_eq_right (pastSnapshot_none hpast)]
      exact Or.inl ⟨_, rfl⟩
  | some past =>
      rcases past with ⟨prev, prevTerm, rest⟩
      rcases pastSnapshot_end hpast with ⟨hend, hbase⟩
      dsimp only
      by_cases hmatches : n.storage.termAt prev ≠ some prevTerm
      · rw [if_pos hmatches]
        right
        rcases pastSnapshot_some hpast with
          ⟨hlow, rfl, rfl, rfl⟩ | ⟨_, _, rfl, rfl, rfl⟩
        · cases hlocal : n.storage.termAt prev with
          | none =>
              exact ⟨_, _, _, rfl, hstorage, hlow, hlocal ▸ hmatches,
                Conflict.short hlocal⟩
          | some t =>
              exact ⟨_, _, _, rfl, hstorage, hlow, hlocal ▸ hmatches,
                Conflict.diverges t hlocal⟩
        · -- The snapshot's own index has the snapshot's term.
          exact absurd (if_pos rfl) hmatches
      · rw [if_neg hmatches, ← hend,
          Nat.max_eq_left (Nat.le_trans hbase (Nat.le_add_right _ _))]
        exact Or.inl ⟨_, rfl⟩

theorem handleAppendEntries_answer (n : Node) (sender : NodeId)
    (prevLogIndex prevLogTerm : Nat) (entries : List Entry)
    (leaderCommit seq : Nat) {action : Action}
    (hmem : action ∈ (n.handleAppendEntries sender prevLogIndex prevLogTerm entries
      leaderCommit seq).2) (hpositive : action.message.isPositive = true) :
    action.message = Message.appendEntriesReply n.term true
      (max (prevLogIndex + entries.length) n.storage.snapshotMeta.index) 0 none
      seq := by
  rcases handleAppendEntries_answers n sender prevLogIndex prevLogTerm entries
    leaderCommit seq with ⟨_, hanswer⟩ | ⟨_, _, _, hanswer, _⟩
  · rw [hanswer, List.mem_singleton] at hmem
    rw [hmem]
  · rw [hanswer, List.mem_singleton] at hmem
    rw [hmem] at hpositive
    cases hpositive

theorem handleInstallSnapshot_answer (n : Node) (sender : NodeId)
    (about : SnapshotMeta) (offset : Nat) (data : Bytes) (done : Bool) (seq : Nat)
    (members : Option (List Member)) {action : Action}
    (hmem : action ∈ (n.handleInstallSnapshot sender about offset data done seq
      members).2) (hpositive : action.message.isPositive = true) :
    exists nextOffset, action.message =
      Message.installSnapshotReply n.term about.index nextOffset true seq := by
  unfold Node.handleInstallSnapshot at hmem
  dsimp only at hmem
  split at hmem
  · rw [List.mem_singleton.mp hmem]
    exact ⟨0, rfl⟩
  · split at hmem
    · rw [List.mem_singleton.mp hmem] at hpositive
      cases hpositive
    · split at hmem
      · rw [List.mem_singleton.mp hmem] at hpositive
        cases hpositive
      · split at hmem
        · rw [List.mem_singleton.mp hmem] at hpositive
          cases hpositive
        · rw [List.mem_singleton.mp hmem]
          exact ⟨_, rfl⟩

/-- A message of the node's own term that is no vote request goes to its handler. -/
theorem step_current {n : Node} {sender : NodeId} {message : Message}
    (hvote : message.isVoteRequest = false) (hprevote : message.carriesBytes = true ∨
      message.isPositive = true) (hterm : message.term = n.term) :
    n.step sender message = n.handle sender message := by
  unfold Node.step
  rw [hvote, Bool.false_and, Bool.false_and, if_neg Bool.false_ne_true]
  split
  · cases hvote
  · rcases hprevote with hcarries | hpositive
    · cases hcarries
    · cases hpositive
  · rw [hterm, if_neg (Nat.lt_irrefl _), if_neg]
    rw [Bool.and_eq_true, decide_eq_true_eq]
    exact fun h => Nat.lt_irrefl _ h.1

theorem heardRound_current {n : Node} (hrole : n.role = Role.leader)
    (sender : NodeId) (seq : Nat) :
    exists n' released, n.heardRound sender n.term seq = some (n', released) ∧
      n'.matchIndex = n.matchIndex ∧ n'.nextIndex = n.nextIndex ∧
      n'.role = n.role ∧ n'.storage = n.storage := by
  unfold Node.heardRound
  rw [if_neg (by rw [hrole]; simp)]
  dsimp only
  split
  · exact ⟨_, _, rfl, rfl, rfl, rfl, rfl⟩
  · exact ⟨_, _, rfl, rfl, rfl, rfl, rfl⟩

theorem matchFor_raised {n n' : Node} {peer : NodeId} {index : Nat}
    (hmatch : n'.matchIndex = n.matchIndex.insert peer index)
    (hhigher : n.matchFor peer < index) :
    n'.maybeCommit.matchFor peer = max (n.matchFor peer) index := by
  rw [Nat.max_eq_right (Nat.le_of_lt hhigher), Node.matchFor, matchIndex_maybeCommit,
    hmatch, Table.insert, if_pos rfl, Option.getD_some]

theorem matchFor_handleAppendReply (n : Node) (peer : NodeId)
    (index conflictIndex : Nat) (conflictTerm : Option Nat) :
    (n.handleAppendReply peer true index conflictIndex conflictTerm).1.matchFor
      peer = max (n.matchFor peer) index := by
  unfold Node.handleAppendReply
  rw [if_pos rfl]
  split
  · next hhigher => exact matchFor_raised rfl hhigher
  · next hlower => exact (Nat.max_eq_left (Nat.le_of_not_gt hlower)).symm

theorem matchFor_handleSnapshotReply (n : Node) (peer : NodeId)
    (index nextOffset : Nat) :
    (n.handleSnapshotReply peer index nextOffset true).1.matchFor peer =
      max (n.matchFor peer) index := by
  unfold Node.handleSnapshotReply
  dsimp only
  rw [if_pos rfl]
  split
  · next hhigher => exact matchFor_raised rfl hhigher
  · next hlower => exact (Nat.max_eq_left (Nat.le_of_not_gt hlower)).symm

theorem matchFor_appendReply {n : Node} (hrole : n.role = Role.leader)
    (peer : NodeId) (index conflictIndex : Nat) (conflictTerm : Option Nat)
    (seq : Nat) :
    (n.step peer (Message.appendEntriesReply n.term true index conflictIndex
      conflictTerm seq)).1.matchFor peer = max (n.matchFor peer) index := by
  rw [step_current rfl (Or.inr rfl) rfl]
  obtain ⟨n', released, hheard, hmatch, _⟩ := heardRound_current hrole peer seq
  unfold Node.handle
  dsimp only
  rw [hheard]
  refine (matchFor_handleAppendReply n' peer index conflictIndex
    conflictTerm).trans ?_
  unfold Node.matchFor
  rw [hmatch]

theorem matchFor_snapshotReply {n : Node} (hrole : n.role = Role.leader)
    (peer : NodeId) (index nextOffset seq : Nat) :
    (n.step peer (Message.installSnapshotReply n.term index nextOffset true
      seq)).1.matchFor peer = max (n.matchFor peer) index := by
  rw [step_current rfl (Or.inr rfl) rfl]
  obtain ⟨n', released, hheard, hmatch, _⟩ := heardRound_current hrole peer seq
  unfold Node.handle
  dsimp only
  rw [hheard]
  refine (matchFor_handleSnapshotReply n' peer index nextOffset).trans ?_
  unfold Node.matchFor
  rw [hmatch]

/-- After an exchange the leader knows of the higher of what it knew and what it
sent. -/
theorem Exchange.matchFor {leader follower : Node} {sender peer : NodeId}
    {reply : Message} (h : Exchange leader follower sender peer reply) :
    (leader.step peer reply).1.matchFor peer =
      max (leader.matchFor peer) (leader.reach follower peer) := by
  have hanswered := h.answered
  unfold Node.reach
  unfold Node.appendMessageFor at hanswered
  dsimp only at hanswered
  split at hanswered
  · next hsnapshot =>
      rw [if_pos hsnapshot]
      rw [step_current rfl (Or.inl rfl) (by exact h.term.symm)] at hanswered
      obtain ⟨nextOffset, heq⟩ := handleInstallSnapshot_answer _ _ _ _ _ _ _ _
        hanswered h.positive
      dsimp only at heq
      rw [heq, h.term]
      exact matchFor_snapshotReply h.leads peer _ _ _
  · next hentries =>
      rw [if_neg hentries]
      rw [step_current rfl (Or.inl rfl) (by exact h.term.symm)] at hanswered
      have heq := handleAppendEntries_answer _ _ _ _ _ _ _ hanswered h.positive
      dsimp only at heq
      rw [heq, h.term]
      exact matchFor_appendReply h.leads peer _ _ _ _

/-!
# Where a follower's log continues

Past what the follower is known to hold, until a late refusal says otherwise.
-/

structure Paced (n : Node) : Prop where
  missing : forall p, n.nextIndex p = none -> n.matchIndex p = none
  ahead : forall p next, n.nextIndex p = some next -> n.matchFor p < next

/-- Where a refusal moves a follower back to. -/
def Node.rewound (n : Node) (conflictIndex : Nat) (conflictTerm : Option Nat) :
    Nat :=
  max (match conflictTerm with
    | some t =>
        match n.storage.lastIndexOfTerm t with
        | some i => i + 1
        | none => conflictIndex
    | none => conflictIndex) 1

/-- A refusal that moves a follower back to an index it is known to hold. -/
def Rewinds (n : Node) (sender : NodeId) : Message -> Prop
  | Message.appendEntriesReply term success _ conflictIndex conflictTerm _ =>
      success = false ∧ n.role = Role.leader ∧ term = n.term ∧
        n.rewound conflictIndex conflictTerm <= n.matchFor sender
  | _ => False

/-- Past what it is known to hold, what is sent to a follower that is behind reaches
beyond that. -/
theorem Paced.reach {leader : Node} (h : Paced leader)
    (hfollows : Follows leader.storage.log.base.index leader.storage.log.entries)
    (follower : Node) {peer : NodeId}
    (hbehind : leader.matchFor peer < leader.lastIndex) :
    leader.matchFor peer < leader.reach follower peer := by
  have hnext : leader.matchFor peer < leader.nextFor peer := by
    unfold Node.nextFor
    cases hpeer : leader.nextIndex peer with
    | none => exact Nat.lt_succ_of_lt hbehind
    | some next => exact h.ahead peer next hpeer
  unfold Node.reach
  split
  · next hsnapshot => exact Nat.lt_of_lt_of_le hnext hsnapshot
  · next hentries =>
      have hbase : leader.storage.log.base.index < leader.nextFor peer :=
        Nat.lt_of_not_le hentries
      have hlast : leader.lastIndex = leader.storage.log.base.index +
          leader.storage.log.entries.length := hfollows.lastIndex
      obtain ⟨k, hk, hpos⟩ := MemStorage.entriesWithin_follows hfollows hbase
        leader.config.maxAppendBytes
      apply Nat.lt_of_lt_of_le _ (Nat.le_max_left _ _)
      rcases Nat.lt_or_ge leader.lastIndex (leader.nextFor peer) with hpast | hheld
      · omega
      · have hk0 := hpos hheld
        rw [hk, List.length_take, List.length_drop]
        omega

section Tables

variable {n n' : Node}

theorem Paced.of_eq (h : Paced n) (hnext : n'.nextIndex = n.nextIndex)
    (hmatch : n'.matchIndex = n.matchIndex) : Paced n' := by
  constructor
  · rw [hnext, hmatch]
    exact h.missing
  · unfold Node.matchFor
    rw [hnext, hmatch]
    exact h.ahead

/-- A replica that comes in starts at the end of the log, with nothing known. -/
theorem paced_reloadMembership (h : Paced n) : Paced n.reloadMembership := by
  unfold Node.reloadMembership
  dsimp only
  split
  · constructor
    · intro p
      dsimp only [Table.retain]
      split
      · rw [Table.foldl_orInsert, Table.foldl_orInsert]
        split
        · nofun
        · exact h.missing p
      · exact fun _ => rfl
    · intro p next
      unfold Node.matchFor
      dsimp only [Table.retain]
      split
      · rw [Table.foldl_orInsert, Table.foldl_orInsert]
        split
        · intro hsome
          rw [← Option.some.inj hsome, Option.getD_some]
          cases hp : n.nextIndex p with
          | none =>
              rw [h.missing p hp]
              exact Nat.succ_pos _
          | some old => exact h.ahead p old hp
        · exact h.ahead p next
      · nofun
  · exact h.of_eq rfl rfl

theorem paced_broadcastAppend (h : Paced n) : Paced n.broadcastAppend.1 := by
  rcases broadcastAppend_eq n with ⟨_, rfl | rfl, heq⟩
  · rw [heq]
    exact h
  · rw [heq]
    exact paced_reloadMembership h

theorem paced_maybeCommit (h : Paced n) : Paced n.maybeCommit := by
  rcases maybeCommit_eq n with ⟨_, heq⟩
  rw [heq]
  exact h.of_eq rfl rfl

theorem paced_crowned (n : Node) : Paced (crowned n) := by
  constructor
  · intro p hnone
    have hnext : (if p ∈ n.replicas then some (n.storage.lastIndex + 1)
        else none) = none :=
      (Table.foldl_insert n.replicas _ Table.empty p).symm.trans hnone
    refine (Table.foldl_insert n.replicas 0 Table.empty p).trans ?_
    split at hnext
    · cases hnext
    · next hother => rw [if_neg hother]; rfl
  · intro p next hsome
    have hnext : (if p ∈ n.replicas then some (n.storage.lastIndex + 1)
        else none) = some next :=
      (Table.foldl_insert n.replicas _ Table.empty p).symm.trans hsome
    have hmatch := Table.foldl_insert n.replicas 0 Table.empty p
    split at hnext
    · next hreplica =>
        rw [if_pos hreplica] at hmatch
        show ((n.replicas.foldl _ Table.empty) p).getD 0 < next
        rw [hmatch, ← Option.some.inj hnext]
        exact Nat.succ_pos _
    · cases hnext

theorem paced_becomeLeader (n : Node) : Paced n.becomeLeader.1 := by
  rw [becomeLeader_eq]
  refine paced_broadcastAppend (paced_maybeCommit ?_)
  exact (paced_crowned n).of_eq rfl rfl

theorem paced_becomeFollower (h : Paced n) (term : Nat) (leader : Option NodeId) :
    Paced (n.becomeFollower term leader) :=
  h.of_eq rfl rfl

theorem paced_becomeCandidate (h : Paced n) : Paced n.becomeCandidate.1 := by
  unfold Node.becomeCandidate
  dsimp only
  split
  · exact paced_becomeLeader _
  · exact h.of_eq rfl rfl

theorem paced_becomePreCandidate (h : Paced n) : Paced n.becomePreCandidate.1 := by
  unfold Node.becomePreCandidate
  dsimp only
  split
  · exact paced_becomeCandidate (h.of_eq rfl rfl)
  · exact h.of_eq rfl rfl

theorem paced_appendLocal (h : Paced n) (command : Command) :
    Paced (n.appendLocal command).1 := by
  unfold Node.appendLocal
  dsimp only
  refine paced_maybeCommit ?_
  split
  · exact paced_reloadMembership (h.of_eq rfl rfl)
  · exact h.of_eq rfl rfl

theorem paced_handlePreVoteReply (h : Paced n) (sender : NodeId) (term : Nat)
    (granted : Bool) : Paced (n.handlePreVoteReply sender term granted).1 := by
  unfold Node.handlePreVoteReply
  dsimp only
  split
  · split
    · split
      · exact paced_becomeCandidate (h.of_eq rfl rfl)
      · exact h.of_eq rfl rfl
    · exact h
  · split
    · exact paced_becomeFollower h term none
    · exact h

theorem paced_handleRequestVote (h : Paced n) (sender : NodeId)
    (lastLogIndex lastLogTerm : Nat) :
    Paced (n.handleRequestVote sender lastLogIndex lastLogTerm).1 := by
  unfold Node.handleRequestVote
  dsimp only
  generalize (_ && n.storage.isUpToDate lastLogIndex lastLogTerm) = granted
  cases granted with
  | true => exact h.of_eq rfl rfl
  | false => exact h

theorem paced_handleVoteReply (h : Paced n) (sender : NodeId) (term : Nat)
    (granted : Bool) : Paced (n.handleVoteReply sender term granted).1 := by
  unfold Node.handleVoteReply
  dsimp only
  split
  · exact h
  · split
    · split
      · exact paced_becomeLeader _
      · exact h.of_eq rfl rfl
    · exact h

theorem paced_acceptEntries (h : Paced n) (prev : Nat) (entries : List Entry) :
    Paced (n.acceptEntries prev entries) := by
  obtain ⟨appendFrom, conflict, _, hreload | ⟨_, _, hsame⟩⟩ :=
    acceptEntries_cases n prev entries
  · rw [hreload]
    exact paced_reloadMembership (h.of_eq rfl rfl)
  · rw [hsame]
    exact h.of_eq rfl rfl

theorem paced_handleAppendEntries (h : Paced n) (sender : NodeId)
    (prevLogIndex prevLogTerm : Nat) (entries : List Entry)
    (leaderCommit seq : Nat) :
    Paced (n.handleAppendEntries sender prevLogIndex prevLogTerm entries
      leaderCommit seq).1 := by
  unfold Node.handleAppendEntries
  dsimp only
  split
  · exact h.of_eq rfl rfl
  · split
    · split <;> exact h.of_eq rfl rfl
    · have haccepted : forall middle : Node, Paced middle -> forall prev rest,
          Paced (if leaderCommit > (middle.acceptEntries prev rest).commitIndex then
            { middle.acceptEntries prev rest with
              commitIndex := min leaderCommit (prev + rest.length) }
            else middle.acceptEntries prev rest) := by
        intro middle hmiddle prev rest
        split
        · exact (paced_acceptEntries hmiddle prev rest).of_eq rfl rfl
        · exact paced_acceptEntries hmiddle prev rest
      apply haccepted
      exact h.of_eq rfl rfl

theorem paced_handleInstallSnapshot (h : Paced n) (sender : NodeId)
    (about : SnapshotMeta) (offset : Nat) (data : Bytes) (done : Bool) (seq : Nat)
    (members : Option (List Member)) :
    Paced (n.handleInstallSnapshot sender about offset data done seq members).1 := by
  unfold Node.handleInstallSnapshot
  dsimp only
  split
  · exact h.of_eq rfl rfl
  · split
    · exact h.of_eq rfl rfl
    · split
      · exact h.of_eq rfl rfl
      · split
        · exact h.of_eq rfl rfl
        · unfold Node.installReceived
          dsimp only
          have hreload : Paced (Node.reloadMembership { Node.resetElectionTimer
              { n with role := Role.follower, leaderId := some sender } with
              incoming := none
              storage := n.storage.installSnapshot
                (((n.continuing sender about).getD
                  (MemStorage.newSnapshot about members)).writeAll data) }) := by
            apply paced_reloadMembership
            exact h.of_eq rfl rfl
          exact hreload.of_eq rfl rfl

theorem paced_handleReadIndex (h : Paced n) (sender : NodeId) (id : Nat) :
    Paced (n.handleReadIndex sender id).1 := by
  unfold Node.handleReadIndex
  split
  · exact h
  · exact h.of_eq rfl rfl

theorem paced_readIndex (h : Paced n) : Paced n.readIndex.1 := by
  unfold Node.readIndex
  split
  · exact h.of_eq rfl rfl
  · split
    · exact h.of_eq rfl rfl
    · exact h

theorem paced_forgetRead (h : Paced n) (request : ReadRequest) :
    Paced (n.forgetRead request) := by
  cases request with
  | localRead => exact h
  | forwarded => exact h.of_eq rfl rfl
  | refused => exact h

theorem paced_handleReadIndexReply (h : Paced n) (id : Nat) (index : Option Nat) :
    Paced (n.handleReadIndexReply id index) := by
  unfold Node.handleReadIndexReply
  split
  · exact h.of_eq rfl rfl
  · exact h

theorem paced_matched (h : Paced n) (peer : NodeId) (index : Nat)
    (hnext : n'.nextIndex = n.nextIndex.insert peer (index + 1))
    (hmatch : n'.matchIndex = n.matchIndex.insert peer index) : Paced n' := by
  constructor
  · intro p
    rw [hnext, hmatch]
    dsimp only [Table.insert]
    split
    · nofun
    · exact h.missing p
  · intro p next
    unfold Node.matchFor
    rw [hnext, hmatch]
    dsimp only [Table.insert]
    split
    · intro hsome
      rw [← Option.some.inj hsome]
      exact Nat.lt_succ_self index
    · exact h.ahead p next

theorem paced_handleSnapshotReply (h : Paced n) (sender : NodeId)
    (lastIndex nextOffset : Nat) (done : Bool) :
    Paced (n.handleSnapshotReply sender lastIndex nextOffset done).1 := by
  unfold Node.handleSnapshotReply
  dsimp only
  split
  · split
    · exact paced_maybeCommit (paced_matched h sender lastIndex rfl rfl)
    · exact h.of_eq rfl rfl
  · exact h.of_eq rfl rfl

theorem paced_handleAppendReply (h : Paced n) (sender : NodeId) (success : Bool)
    (matchIndex conflictIndex : Nat) (conflictTerm : Option Nat)
    (hrewound : success = false ->
      n.matchFor sender < n.rewound conflictIndex conflictTerm) :
    Paced (n.handleAppendReply sender success matchIndex conflictIndex
      conflictTerm).1 := by
  unfold Node.handleAppendReply
  dsimp only
  split
  · split
    · exact paced_maybeCommit (paced_matched h sender matchIndex rfl rfl)
    · exact h
  · next hrefused =>
      have hpast := hrewound (Bool.eq_false_iff.mpr hrefused)
      constructor
      · intro p
        dsimp only [Table.insert]
        split
        · nofun
        · exact h.missing p
      · intro p next
        unfold Node.matchFor
        dsimp only [Table.insert]
        split
        · next hp =>
            intro hsome
            rw [hp, ← Option.some.inj hsome]
            exact hpast
        · exact h.ahead p next

/-- A round that is heard leaves the tables alone. -/
theorem heardRound_tables {sender : NodeId} {term seq : Nat}
    {released : List Action}
    (hheard : n.heardRound sender term seq = some (n', released)) :
    n.role = Role.leader ∧ term = n.term ∧ n'.nextIndex = n.nextIndex ∧
      n'.matchIndex = n.matchIndex ∧ n'.storage = n.storage := by
  unfold Node.heardRound at hheard
  dsimp only at hheard
  split at hheard
  · cases hheard
  · next hcurrent =>
      rw [not_or, not_not, not_not] at hcurrent
      split at hheard
      · obtain ⟨rfl, _⟩ := Prod.mk.inj (Option.some.inj hheard)
        exact ⟨hcurrent.1, hcurrent.2, rfl, rfl, rfl⟩
      · obtain ⟨rfl, _⟩ := Prod.mk.inj (Option.some.inj hheard)
        exact ⟨hcurrent.1, hcurrent.2, rfl, rfl, rfl⟩

theorem paced_handle (h : Paced n) {sender : NodeId} {message : Message}
    (hrewinds : ¬ Rewinds n sender message) : Paced (n.handle sender message).1 := by
  cases message with
  | preVote => exact h
  | preVoteReply => exact h
  | requestVote => exact paced_handleRequestVote h _ _ _
  | requestVoteReply => exact paced_handleVoteReply h _ _ _
  | appendEntries => exact paced_handleAppendEntries h _ _ _ _ _ _
  | installSnapshot => exact paced_handleInstallSnapshot h _ _ _ _ _ _ _
  | readIndex => exact paced_handleReadIndex h _ _
  | readIndexReply => exact paced_handleReadIndexReply h _ _
  | installSnapshotReply term lastIndex nextOffset done seq =>
      unfold Node.handle
      dsimp only
      split
      · exact h
      · next hround =>
          obtain ⟨_, _, hnext, hmatch, _⟩ := heardRound_tables hround
          exact paced_handleSnapshotReply (h.of_eq hnext hmatch) _ _ _ _
  | appendEntriesReply term success matchIndex conflictIndex conflictTerm seq =>
      unfold Node.handle
      dsimp only
      split
      · exact h
      · next hround =>
          obtain ⟨hrole, hterm, hnext, hmatch, hstorage⟩ := heardRound_tables hround
          refine paced_handleAppendReply (h.of_eq hnext hmatch) _ _ _ _ _ ?_
          intro hrefused
          by_contra hback
          refine hrewinds ⟨hrefused, hrole, hterm, ?_⟩
          unfold Node.rewound Node.matchFor at hback ⊢
          rw [hstorage, hmatch] at hback
          exact Nat.le_of_not_lt hback

theorem paced_step (h : Paced n) {sender : NodeId} {message : Message}
    (hrewinds : ¬ Rewinds n sender message) : Paced (n.step sender message).1 := by
  unfold Node.step
  split
  · exact h
  · split
    · exact h
    · exact paced_handlePreVoteReply h _ _ _
    · split
      · next hhigher =>
          refine paced_handle (paced_becomeFollower h _ none) ?_
          intro hback
          cases message with
          | appendEntriesReply => exact absurd hback.2.1 nofun
          | _ => exact hback
      · split
        · exact h
        · exact paced_handle h hrewinds

/-!
# Proposals and time
-/

theorem paced_propose (h : Paced n) {command : Bytes} {index : Nat}
    {actions : List Action}
    (hok : n.propose command = Except.ok (n', index, actions)) : Paced n' := by
  unfold Node.propose at hok
  dsimp only at hok
  split at hok
  · cases hok
  · split at hok
    · cases hok
    · cases hok
      exact paced_broadcastAppend (paced_appendLocal h _)

theorem paced_proposeBatch (h : Paced n) {commands : List Bytes}
    {answers : List (Except ProposeError Nat)} {actions : List Action}
    (hok : n.proposeBatch commands = Except.ok (n', answers, actions)) :
    Paced n' := by
  unfold Node.proposeBatch at hok
  dsimp only at hok
  split at hok
  · cases hok
  · split at hok
    · cases hok
      exact h
    · cases hok
      exact paced_broadcastAppend (paced_maybeCommit (h.of_eq rfl rfl))

theorem paced_proposeMembership (h : Paced n) {members : List Member}
    {index : Nat} {actions : List Action}
    (hok : n.proposeMembership members = Except.ok (n', index, actions)) :
    Paced n' := by
  unfold Node.proposeMembership at hok
  dsimp only at hok
  repeat' split at hok
  all_goals cases hok
  exact paced_broadcastAppend (paced_appendLocal h _)

theorem paced_maybePromote (h : Paced n) : Paced n.maybePromote.1 := by
  unfold Node.maybePromote
  dsimp only
  split
  · exact h
  · split
    · exact h
    · split
      · next hpropose => exact paced_proposeMembership h hpropose
      · exact h

theorem paced_checkQuorum (h : Paced n) : Paced n.checkQuorum := by
  unfold Node.checkQuorum
  dsimp only
  split
  · split
    · exact h.of_eq rfl rfl
    · exact h.of_eq rfl rfl
  · exact h.of_eq rfl rfl

theorem paced_tick (h : Paced n) : Paced n.tick.1 := by
  unfold Node.tick
  split
  · split
    · exact paced_becomeFollower h _ none
    · dsimp only
      refine paced_checkQuorum (paced_maybePromote ?_)
      split
      · exact paced_broadcastAppend (h.of_eq rfl rfl)
      · exact h.of_eq rfl rfl
  · dsimp only
    split
    · split
      · exact paced_becomePreCandidate (h.of_eq rfl rfl)
      · exact h.of_eq rfl rfl
    · exact h.of_eq rfl rfl

end Tables

/-!
# Runs
-/

/-- No refusal moves a follower back to what it is known to hold. -/
def Unrewound (host : Host) : Operation -> Prop
  | Operation.receive sender message => ¬ Rewinds host.node sender message
  | _ => True

theorem paced_start (id : NodeId) (bootstrap : List Member) (config : Config)
    (storage : MemStorage) :
    Paced (Host.start id bootstrap config storage).node := by
  unfold Host.start Node.withMembers
  dsimp only
  apply paced_reloadMembership
  exact ⟨fun _ _ => rfl, nofun⟩

theorem paced_accepted {host : Host} (h : Paced host.node) {answer : Type}
    {result : Except ProposeError (Node × answer × List Action)}
    (hok : forall n x actions, result = Except.ok (n, x, actions) -> Paced n) :
    Paced (host.accepted result).1.node := by
  cases result with
  | error e => exact h
  | ok answered =>
      obtain ⟨n, x, actions⟩ := answered
      exact hok n x actions rfl

theorem paced_run {host : Host} {operation : Operation} (h : Paced host.node)
    (hunrewound : Unrewound host operation) :
    Paced (host.run operation).1.node := by
  cases operation with
  | tick => exact paced_tick h
  | campaign =>
      show Paced host.node.campaign.1
      unfold Node.campaign
      split
      · exact paced_becomeCandidate h
      · exact h
  | preVote =>
      show Paced host.node.preVote.1
      unfold Node.preVote
      split
      · exact paced_becomePreCandidate h
      · exact h
  | propose command => exact paced_accepted h (fun _ _ _ hok => paced_propose h hok)
  | proposeBatch commands =>
      exact paced_accepted h (fun _ _ _ hok => paced_proposeBatch h hok)
  | proposeMembership members =>
      exact paced_accepted h (fun _ _ _ hok => paced_proposeMembership h hok)
  | setAutoPromote on => exact h.of_eq rfl rfl
  | readIndex => exact paced_readIndex h
  | forgetRead request => exact paced_forgetRead h request
  | receive sender message => exact paced_step h hunrewound
  | takeCommitted => exact h.of_eq rfl rfl
  | beginCompaction index =>
      show Paced (Host.run host (Operation.beginCompaction index)).1.node
      unfold Host.run
      dsimp only
      split <;> exact h
  | finishCompaction sink data =>
      show Paced (host.node.finishCompaction (sink.writeAll data)).1
      unfold Node.finishCompaction
      split
      · exact h
      · exact h.of_eq rfl rfl
  | restart config => exact paced_start _ _ _ _

theorem Network.paced {bootstraps : NodeId -> List Member}
    {configs : NodeId -> Config} {net : Network}
    (hrun : Network.Run (fun net n operation => Unrewound (net.hosts n) operation)
      (Network.start bootstraps configs) net) (n : NodeId) :
    Paced (net.hosts n).node := by
  refine hrun.keeps (fun net => forall n, Paced (net.hosts n).node) ?_ ?_ n
  · intro net m operation hpaced _ hunrewound
    exact @Network.forall_next net m operation (fun _ host => Paced host.node) hpaced
      (paced_run (hpaced m) hunrewound)
  · intro m
    exact paced_start m _ _ _

/-- In a run in which no refusal moves a follower back to what it is known to hold, every
answer to what a leader sends a follower that is behind moves it on.  In any state of any
run, an answer moves it on exactly if what was sent reaches past what is known. -/
theorem replication_progresses (bootstraps : NodeId -> List Member)
    (configs : NodeId -> Config) (net : Network) (leader peer : NodeId)
    (reply : Message) :
    (Network.Run (fun net n operation => Unrewound (net.hosts n) operation)
        (Network.start bootstraps configs) net ->
      Exchange (net.hosts leader).node (net.hosts peer).node leader peer reply ->
        (net.hosts leader).node.matchFor peer <
          ((net.hosts leader).node.step peer reply).1.matchFor peer) ∧
      (Network.Run (fun _ _ _ => True) (Network.start bootstraps configs) net ->
        Exchange (net.hosts leader).node (net.hosts peer).node leader peer reply ->
          ((net.hosts leader).node.matchFor peer <
              ((net.hosts leader).node.step peer reply).1.matchFor peer ↔
            (net.hosts leader).node.matchFor peer <
              (net.hosts leader).node.reach (net.hosts peer).node peer)) := by
  constructor
  · intro hrun hexchange
    have hgapless := (Network.gapless_start bootstraps configs).run hrun
    have hreach := (Network.paced hrun leader).reach (hgapless.logs leader)
      (net.hosts peer).node hexchange.behind
    rw [hexchange.matchFor]
    exact Nat.lt_of_lt_of_le hreach (Nat.le_max_right _ _)
  · intro _ hexchange
    rw [hexchange.matchFor]
    omega

def smallBatches : NodeId -> Config :=
  fun _ => { maxAppendBytes := 1 }

/-- Node 1 leads a second term.  Node 2 refuses its first message, takes the first
entry when it is sent, and the refusal arrives again. -/
def refusedTwice : List (NodeId × Operation) :=
  [(1, Operation.campaign),
    (3, Operation.receive 1 (Message.requestVote 1 0 0)),
    (1, Operation.receive 3 (Message.requestVoteReply 1 true)),
    (1, Operation.campaign),
    (2, Operation.receive 1 (Message.requestVote 2 1 1)),
    (1, Operation.receive 2 (Message.requestVoteReply 2 true)),
    (2, Operation.receive 1 (Message.appendEntries 2 1 1
      [{ term := 2, index := 2, command := Command.noop }] 0 0)),
    (1, Operation.receive 2 (Message.appendEntriesReply 2 false 0 1 none 0)),
    (2, Operation.receive 1 (Message.appendEntries 2 0 0
      [{ term := 1, index := 1, command := Command.noop }] 0 0)),
    (1, Operation.receive 2 (Message.appendEntriesReply 2 true 1 0 none 0)),
    (1, Operation.receive 2 (Message.appendEntriesReply 2 false 0 1 none 0))]

def wedged : Network :=
  (Network.start (fun _ => founders) smallBatches).replay refusedTwice

/-- Node 2 is sent its first entry again, says again that it has it, and the leader
learns nothing. -/
theorem replication_wedges :
    ¬ forall net leader peer reply,
      Network.Run (fun _ _ _ => True)
          (Network.start (fun _ => founders) smallBatches) net ->
        Exchange (net.hosts leader).node (net.hosts peer).node leader peer reply ->
          (net.hosts leader).node.matchFor peer <
            ((net.hosts leader).node.step peer reply).1.matchFor peer := by
  intro hall
  have hrun : Network.Run (fun _ _ _ => True)
      (Network.start (fun _ => founders) smallBatches) wedged :=
    Network.run_of_replays refusedTwice (fun _ _ _ _ => trivial) (by decide +kernel) _
      (Network.Run.refl _)
  have hexchange : Exchange (wedged.hosts 1).node (wedged.hosts 2).node 1 2
      (Message.appendEntriesReply 2 true 1 0 none 0) :=
    ⟨by decide +kernel, by decide +kernel, by decide +kernel, by decide +kernel,
      by decide +kernel, by decide +kernel⟩
  have hmoved := hall wedged 1 2 _ hrun hexchange
  exact absurd hmoved (by decide +kernel)

def elected : List (NodeId × Operation) :=
  [(1, Operation.campaign),
    (2, Operation.receive 1 (Message.requestVote 1 0 0)),
    (1, Operation.receive 2 (Message.requestVoteReply 1 true))]

def leading : Network :=
  (Network.start (fun _ => founders) smallBatches).replay elected

/-- A new leader's first entry is answered. -/
theorem replication_progresses_elected :
    (leading.hosts 1).node.matchFor 2 = 0 ∧
      (leading.hosts 1).node.matchFor 2 <
        ((leading.hosts 1).node.step 2 (Message.appendEntriesReply 1 true 1 0 none
          0)).1.matchFor 2 := by
  have hcampaign : Network.Run (fun net n operation =>
      Unrewound (net.hosts n) operation)
      (Network.start (fun _ => founders) smallBatches)
      ((Network.start (fun _ => founders) smallBatches).replay (elected.take 1)) :=
    Network.Run.tail 1 Operation.campaign (Network.Run.refl _) ⟨trivial, trivial⟩
      trivial
  have hvote := Network.Run.tail 2
    (Operation.receive 1 (Message.requestVote 1 0 0)) hcampaign
    ⟨trivial, by decide +kernel⟩ id
  have hleads : Network.Run (fun net n operation =>
      Unrewound (net.hosts n) operation)
      (Network.start (fun _ => founders) smallBatches) leading :=
    Network.Run.tail 1 (Operation.receive 2 (Message.requestVoteReply 1 true)) hvote
      ⟨trivial, by decide +kernel⟩ id
  refine ⟨by decide +kernel, (replication_progresses _ _ _ 1 2 _).1 hleads ?_⟩
  exact ⟨by decide +kernel, by decide +kernel, by decide +kernel, by decide +kernel,
    by decide +kernel, by decide +kernel⟩

end Raft
end Minicask
