import Minicask.Raft.Refinement.Leader

/-!
# Elections as protocol steps

Standing, voting and winning.  The one case that is not a plain protocol step is
a vote in a term that has its leader already, which the history keeps without a
ballot.
-/

namespace Minicask
namespace Raft

open Consensus

section Election

variable {B : List Member} {a b : Past} {n : NodeId} {node : Node}

theorem StorageOk.save {s : MemStorage} (h : StorageOk B a n s)
    (hext : Extends a b) (hlog : b.log n = a.log n) {state : HardState}
    (hterm : state.term = b.term n)
    (hvote : state.votedFor = b.vote n (b.term n)) :
    StorageOk B b n (s.saveHardState state) where
  term := hterm
  vote := hvote
  shows := by
    rw [hlog]
    exact h.shows
  base := by
    rw [hlog]
    exact h.base.mono hext (hext.term n)
  members := h.members

theorem NodeOk.saved (h : NodeOk B a n node) (hext : Extends a b)
    (hlog : b.log n = a.log n) (state : HardState)
    (hterm : state.term = b.term n)
    (hvote : state.votedFor = b.vote n (b.term n))
    (hcandidate : node.role = Role.candidate -> CandidateOk b n node.votes)
    (hleader : node.role ≠ Role.leader) :
    NodeOk B b n
      { node with storage := node.storage.saveHardState state } := by
  refine { h with
    storage := h.storage.save hext hlog hterm hvote
    commit := ?_
    applied := ?_
    candidate := hcandidate
    leader := fun hrole => absurd hrole hleader }
  · rw [hlog]
    exact h.commit.mono hext (hext.term n)
  · rw [hlog]
    exact h.applied.mono hext (hext.term n)

theorem vote_eq_none_of_term_lt (hinv : Inv (setting B) a) {T : Nat}
    (hT : a.term n < T) : a.vote n T = none := by
  cases hv : a.vote n T with
  | none => rfl
  | some c =>
      have := hinv.voteTerm n T c hv
      omega

theorem NodeOk.follow (h : NodeOk B a n node) (leader : Option NodeId)
    (votes active : Finset NodeId) (reads : List RemoteRead) :
    NodeOk B a n { node with
      role := Role.follower
      leaderId := leader
      votes := votes
      active := active
      remoteReads := reads } := by
  refine { h with candidate := ?_, leader := ?_ }
  · intro hrole
    cases hrole
  · intro hrole
    cases hrole

theorem NodeOk.becomeFollower (hinv : Inv (setting B) a)
    (h : NodeOk B a n node) {T : Nat} (hT : node.term <= T)
    (leader : Option NodeId) :
    exists b, Steps (setting B) n a b ∧
      NodeOk B b n (node.becomeFollower T leader) ∧ b.term n = T := by
  have hterm := h.term_eq
  have hfollow := h.follow leader ∅ ∅ []
  rcases Nat.lt_or_eq_of_le hT with hlt | heq
  · have hbump : a.term n < T := by omega
    have hstep : Step (setting B) n a _ := Step.bump hbump
    have hext := hinv.step_extends hstep
    have hsaved := hfollow.saved hext rfl
      { term := T, votedFor := none } (by simp)
      (by simp [vote_eq_none_of_term_lt hinv hbump])
      (fun hrole => by cases hrole) (fun hrole => by cases hrole)
    refine ⟨_, Relation.ReflTransGen.single hstep, ?_, by simp⟩
    unfold Node.becomeFollower
    rw [if_neg (by omega)]
    exact { hsaved with }
  · refine ⟨a, Relation.ReflTransGen.refl, ?_, by omega⟩
    unfold Node.becomeFollower
    rw [if_pos heq.symm]
    exact { hfollow with }

/-!
# Winning
-/

/-- A majority of votes means that nobody has won the term yet. -/
theorem CandidateOk.open_of_majority (hinv : Inv (setting B) a)
    {votes : Finset NodeId} (h : CandidateOk a n votes)
    (hquorum : Majority (Node.votersOf B) { v | v ∈ votes }) :
    a.leader (a.term n) = none := by
  cases hlead : a.leader (a.term n) with
  | none => rfl
  | some c =>
      rcases hinv.elected _ c hlead with ⟨helectors, hall⟩
      rcases Majority.meets hquorum helectors with ⟨v, hv, hvc⟩
      have hn := h.votes v hv
      rw [(hall v hvc).1] at hn
      rw [hn] at hlead
      exact absurd hlead h.notLeader

theorem crowned_tables {replicas : List NodeId} {x : Nat} {v k : Nat}
    (h : replicas.foldl (fun t p => Table.insert t p x) Table.empty v =
      some k) : k = x := by
  rcases Table.foldl_eq_some (fun t key k y hy =>
    (Table.insert_eq_some hy).elim (fun hnew => Or.inr hnew.2) Or.inl)
    _ h with hempty | hx
  · cases hempty
  · exact hx

theorem NodeOk.becomeLeader (hinv : Inv (setting B) a) (h : NodeOk B a n node)
    (hrole : node.role = Role.candidate)
    (hquorum : node.hasQuorum node.votes = true) :
    Simulated B a n node.becomeLeader := by
  have hc := h.candidate hrole
  have hmajority := majority_of_hasQuorum hquorum
  rw [h.voters] at hmajority
  have hopen := hc.open_of_majority hinv hmajority
  have hcommit : a.commit (a.term n) = 0 := by
    by_contra hne
    rcases hinv.leader_of_commit (Nat.pos_of_ne_zero hne) with ⟨c, hlead⟩
    rw [hopen] at hlead
    cases hlead
  have helect : Step (setting B) n a _ :=
    Step.elect hopen (hc.ballot hopen) hmajority (by
      intro w hw
      exact ⟨hc.votes w hw, hinv.voteBallot w _ n (hc.votes w hw) hopen⟩)
  have hinvb := hinv.step helect
  have hraise : Step (setting B) n _ _ :=
    Step.raise (s := node.seq) (by simp) (by
      simp only
      rw [(hinv.closed _ hopen).2]
      exact Nat.zero_le _) (a := { a with
        leader := Function.update a.leader (a.term n) (some n)
        electors := Function.update a.electors (a.term n)
          { v | v ∈ node.votes }
        record := Function.update a.record (a.term n) (a.log n)
        start := Function.update a.start (a.term n) (a.log n).length
        acked := setCell a.acked n (a.term n) (a.log n).length })
  have hext := (hinv.step_extends helect).trans (hinvb.step_extends hraise)
  rw [becomeLeader_eq]
  refine Simulated.after (Relation.ReflTransGen.head helect
    (Relation.ReflTransGen.single hraise)) ?_
  refine NodeOk.appendCommitBroadcast (hinvb.step hraise)
    (?_ : NodeOk B _ n (crowned node)) rfl _ (appendable_one Command.noop rfl)
  refine { h with
    storage := { h.storage with base := h.storage.base.mono hext (le_refl _) }
    commit := h.commit.mono hext (le_refl _)
    applied := h.applied.mono hext (le_refl _)
    candidate := fun hcand => by cases hcand
    leader := ?_ }
  intro _
  constructor
  · simp
  · exact hc.self
  · intro v k hk
    rw [crowned_tables hk]
    exact Nat.zero_le _
  · intro p k hk
    have hnext := crowned_tables hk
    rw [h.lastIndex] at hnext
    simp only
    omega
  · simp only
    rw [hcommit]
    exact Nat.zero_le _
  · simp [crowned, h.lastIndex]
  · simp [crowned]
  · intro v s hs
    cases hs

/-!
# Standing
-/

/-- A node that moves on a term and votes for itself.  The term may have a
leader already, and then the vote is not a ballot. -/
theorem exists_stand (hinv : Inv (setting B) a) :
    exists b, Steps (setting B) n a b ∧ Extends a b ∧ b.log n = a.log n ∧
      b.term n = a.term n + 1 ∧ CandidateOk b n {n} := by
  have hbump : Step (setting B) n a _ := Step.bump (Nat.lt_succ_self (a.term n))
  have hinvb := hinv.step hbump
  have hextb := hinv.step_extends hbump
  have hfree := vote_eq_none_of_term_lt hinv (Nat.lt_succ_self (a.term n))
  have hnot : a.leader (a.term n + 1) ≠ some n := by
    intro hlead
    have := hinv.leaderTerm _ n hlead
    omega
  cases hlead : a.leader (a.term n + 1) with
  | none =>
      have hstand : Step (setting B) n _ _ :=
        Step.stand (v := n) (a := { a with
          term := Function.update a.term n (a.term n + 1) })
          (by simp [hfree]) (by simp [hlead])
      refine ⟨_, Relation.ReflTransGen.head hbump
        (Relation.ReflTransGen.single hstand),
        hextb.trans (hinvb.step_extends hstand), rfl, by simp, ?_⟩
      constructor
      · simp
      · simp [hlead]
      · intro _
        simp
      · intro v hv
        rw [Finset.mem_singleton.mp hv]
        simp
  | some c =>
      have hlate : Step (setting B) n _ _ :=
        Step.lateVote (v := n) (c := n) (a := { a with
          term := Function.update a.term n (a.term n + 1) })
          (by simp [hfree]) (by simp [hlead])
      refine ⟨_, Relation.ReflTransGen.head hbump
        (Relation.ReflTransGen.single hlate),
        hextb.trans (hinvb.step_extends hlate), rfl, by simp, ?_⟩
      constructor
      · simp
      · simpa using hnot
      · intro hopen
        simp [hlead] at hopen
      · intro v hv
        rw [Finset.mem_singleton.mp hv]
        simp

theorem NodeOk.becomeCandidate (hinv : Inv (setting B) a)
    (h : NodeOk B a n node) : Simulated B a n node.becomeCandidate := by
  rcases exists_stand (n := n) hinv with ⟨b, hsteps, hext, hlog, hterm, hcand⟩
  have hinvb := hinv.steps hsteps
  have hnode : NodeOk B b n (Node.resetElectionTimer { node with
      role := Role.candidate
      leaderId := none
      remoteReads := []
      storage := node.storage.saveHardState
        { term := node.term + 1, votedFor := some node.id }
      votes := {node.id} }) := by
    refine { h with
      storage := ?_
      commit := ?_
      applied := ?_
      candidate := ?_
      leader := ?_ }
    · apply h.storage.save hext hlog
      · rw [hterm, h.term_eq]
      · rw [hcand.self, h.id]
    · rw [hlog]
      exact h.commit.mono hext (hext.term n)
    · rw [hlog]
      exact h.applied.mono hext (hext.term n)
    · intro _
      simp only [Node.resetElectionTimer, h.id]
      exact hcand
    · intro hrole
      cases hrole
  unfold Node.becomeCandidate
  simp only
  split
  · next hquorum =>
      exact (hnode.becomeLeader hinvb rfl hquorum).after hsteps
  · refine Simulated.after hsteps ⟨b, Relation.ReflTransGen.refl, hnode, ?_⟩
    intro action haction
    rcases List.mem_map.mp haction with ⟨peer, _, heq⟩
    rw [← heq]
    unfold MsgOk
    simp only
    rw [h.term_eq, ← hterm]
    refine ⟨hcand.self, ?_⟩
    intro hopen
    exact ⟨b.log n, hcand.ballot hopen, hnode.lastIndex,
      MemStorage.lastTerm_of_shows hnode.storage.shows⟩

theorem NodeOk.becomePreCandidate (hinv : Inv (setting B) a)
    (h : NodeOk B a n node) : Simulated B a n node.becomePreCandidate := by
  have hnode : NodeOk B a n (Node.resetElectionTimer { node with
      role := Role.preCandidate
      leaderId := none
      remoteReads := []
      votes := {node.id} }) := by
    refine { h with candidate := ?_, leader := ?_ }
    · intro hrole
      cases hrole
    · intro hrole
      cases hrole
  unfold Node.becomePreCandidate
  simp only
  split
  · exact hnode.becomeCandidate hinv
  · refine ⟨a, Relation.ReflTransGen.refl, hnode, ?_⟩
    intro action haction
    rcases List.mem_map.mp haction with ⟨peer, _, heq⟩
    rw [← heq]
    trivial

/-!
# Voting
-/

theorem NodeOk.handlePreVoteReply (hinv : Inv (setting B) a)
    (h : NodeOk B a n node) (sender : NodeId) (term : Nat) (granted : Bool) :
    Simulated B a n (node.handlePreVoteReply sender term granted) := by
  unfold Node.handlePreVoteReply
  split
  · split
    · next hcond =>
        have hnode : NodeOk B a n
            { node with votes := insert sender node.votes } := by
          refine { h with candidate := ?_ }
          intro hrole
          simp only at hrole
          rw [hcond.1] at hrole
          cases hrole
        simp only
        split
        · exact hnode.becomeCandidate hinv
        · exact simulated_quiet hnode
    · exact simulated_quiet h
  · split
    · next hlater =>
        rcases h.becomeFollower hinv (Nat.le_of_lt hlater) none with
          ⟨b, hsteps, hb, _⟩
        exact (simulated_quiet hb).after hsteps
    · exact simulated_quiet h

theorem NodeOk.handleVoteReply (hinv : Inv (setting B) a)
    (h : NodeOk B a n node) {sender : NodeId} {term : Nat} {granted : Bool}
    (hmsg : granted = true -> a.vote sender term = some n) :
    Simulated B a n (node.handleVoteReply sender term granted) := by
  unfold Node.handleVoteReply
  split
  · exact simulated_quiet h
  next hcond =>
    rw [not_or, not_not, not_not] at hcond
    rcases hcond with ⟨hrole, hterm⟩
    split
    · next hgranted =>
        have hvote := hmsg hgranted
        rw [hterm, h.term_eq] at hvote
        have hnode : NodeOk B a n
            { node with votes := insert sender node.votes } := by
          refine { h with candidate := ?_ }
          intro _
          have hc := h.candidate hrole
          refine { hc with votes := ?_ }
          intro v hv
          rcases Finset.mem_insert.mp hv with hsender | hold
          · rw [hsender]
            exact hvote
          · exact hc.votes v hold
        simp only
        split
        · next hquorum => exact hnode.becomeLeader hinv hrole hquorum
        · exact simulated_quiet hnode
    · exact simulated_quiet h

/-- A first vote in a term, for a candidate whose log is good enough. -/
theorem NodeOk.vote (hinv : Inv (setting B) a) (h : NodeOk B a n node)
    (hrole : node.role ≠ Role.leader) {sender : NodeId}
    {lastLogIndex lastLogTerm : Nat} (hfree : a.vote n (a.term n) = none)
    (hmsg : MsgOk B a
      { sender := sender
        dest := n
        message := Message.requestVote (a.term n) lastLogIndex lastLogTerm })
    (hup : node.storage.isUpToDate lastLogIndex lastLogTerm = true) :
    exists b, Steps (setting B) n a b ∧ NodeOk B b n { node with
        storage := node.storage.saveHardState
          { term := node.term, votedFor := some sender } } ∧
      b.vote n (a.term n) = some sender := by
  rcases hmsg with ⟨hself, hballot⟩
  have hcandidate : node.role ≠ Role.candidate := by
    intro hc
    have := (h.candidate hc).self
    rw [hfree] at this
    cases this
  cases hlead : a.leader (a.term n) with
  | none =>
      rcases hballot hlead with ⟨l, hl, hindex, hterm⟩
      have hstep : Step (setting B) n a _ :=
        Step.grant hfree hlead hself hl (by
          rw [MemStorage.isUpToDate_iff h.storage.shows] at hup
          unfold Setting.UpToDate
          rw [lastStamp_eq_wholeTerm, lastStamp_eq_wholeTerm, ← hterm,
            ← hindex]
          exact hup)
      refine ⟨_, Relation.ReflTransGen.single hstep, ?_, by simp⟩
      exact h.saved (hinv.step_extends hstep) rfl _ h.term_eq (by simp)
        (fun hc => absurd hc hcandidate) hrole
  | some c =>
      have hstep : Step (setting B) n a _ :=
        Step.lateVote (c := sender) hfree (by rw [hlead]; simp)
      refine ⟨_, Relation.ReflTransGen.single hstep, ?_, by simp⟩
      exact h.saved (hinv.step_extends hstep) rfl _ h.term_eq (by simp)
        (fun hc => absurd hc hcandidate) hrole

theorem NodeOk.handleRequestVote (hinv : Inv (setting B) a)
    (h : NodeOk B a n node) {sender : NodeId} {lastLogIndex lastLogTerm : Nat}
    (hmsg : MsgOk B a
      { sender := sender
        dest := n
        message := Message.requestVote node.term lastLogIndex lastLogTerm }) :
    Simulated B a n
      (node.handleRequestVote sender lastLogIndex lastLogTerm) := by
  have hvoted : node.storage.hardState.votedFor = a.vote n (a.term n) :=
    h.storage.vote
  rw [h.term_eq] at hmsg
  unfold Node.handleRequestVote
  simp only
  cases hup : node.storage.isUpToDate lastLogIndex lastLogTerm with
  | false =>
      simp only [Bool.and_false, Bool.false_eq_true, if_false]
      exact simulated_one h (fun hgranted => by cases hgranted)
  | true =>
      simp only [Bool.and_true]
      cases hfor : node.storage.hardState.votedFor with
      | none =>
          rw [hfor] at hvoted
          simp only [if_true]
          have hrole : node.role ≠ Role.leader := by
            intro hleading
            rw [(h.leader hleading).self] at hvoted
            cases hvoted
          rcases h.vote hinv hrole hvoted.symm hmsg hup with
            ⟨b, hsteps, hb, hvote⟩
          refine Simulated.after hsteps (simulated_one { hb with } ?_)
          intro _
          change b.vote n node.term = some sender
          rw [h.term_eq]
          exact hvote
      | some v =>
          rw [hfor] at hvoted
          simp only
          split
          · next hsame =>
              -- The vote was cast before, and is written down once more.
              have hv : v = sender := by simpa using hsame
              rw [hv] at hfor hvoted
              have hstate : ({ term := node.storage.hardState.term
                               votedFor := some sender } : HardState) =
                  node.storage.hardState := by
                rw [← hfor]
              rw [hstate]
              refine simulated_one { h with } ?_
              intro _
              change a.vote n node.term = some sender
              rw [h.term_eq]
              exact hvoted.symm
          · next hother =>
              refine simulated_one h ?_
              intro hgranted
              exact absurd hgranted hother

end Election

end Raft
end Minicask
