import Mathlib.Data.List.Count
import Minicask.Consensus.Completeness
import Minicask.Raft.Cluster
import Minicask.Raft.Frames
import Minicask.Raft.LogView

/-!
# What a node and a message say about the protocol

The nodes of a cluster whose membership never changes take part in the agreement
protocol of `Consensus`.  `NodeOk` ties the state of one node to the history, and
`MsgOk` says which fact of the history a message carries.  Both stay true while
other nodes take steps.
-/

namespace Minicask
namespace Raft

open Consensus

/-!
# Majorities
-/

def Majority (voters : List NodeId) (P : Set NodeId) : Prop :=
  exists ids : Finset NodeId, (forall v, v ∈ ids -> v ∈ P) ∧
    voters.length / 2 + 1 <= (voters.filter (· ∈ ids)).length

theorem Majority.mono {voters : List NodeId} {P Q : Set NodeId} (hPQ : P ⊆ Q)
    (h : Majority voters P) : Majority voters Q := by
  rcases h with ⟨ids, hsub, hcount⟩
  exact ⟨ids, fun v hv => hPQ (hsub v hv), hcount⟩

theorem filter_length_add_le (voters : List NodeId) {p q : NodeId -> Bool}
    (h : forall v, v ∈ voters -> ¬ (p v = true ∧ q v = true)) :
    (voters.filter p).length + (voters.filter q).length <= voters.length := by
  induction voters with
  | nil => simp
  | cons v rest ih =>
      have hrest := ih (fun w hw => h w (List.mem_cons_of_mem v hw))
      have hv := h v List.mem_cons_self
      simp only [List.filter_cons, List.length_cons]
      split <;> split <;> simp_all <;> omega

theorem Majority.meets {voters : List NodeId} {P Q : Set NodeId}
    (hP : Majority voters P) (hQ : Majority voters Q) :
    exists v, v ∈ P ∧ v ∈ Q := by
  rcases hP with ⟨p, hp, hpcount⟩
  rcases hQ with ⟨q, hq, hqcount⟩
  by_contra hdisjoint
  have hle := filter_length_add_le voters (p := (· ∈ p)) (q := (· ∈ q)) (by
    intro v _ hv
    simp only [decide_eq_true_eq] at hv
    exact hdisjoint ⟨v, hp v hv.1, hq v hv.2⟩)
  omega

theorem majority_of_hasQuorum {n : Node} {ids : Finset NodeId}
    (h : n.hasQuorum ids = true) : Majority n.voters { v | v ∈ ids } := by
  unfold Node.hasQuorum at h
  rw [Bool.and_eq_true] at h
  exact ⟨ids, fun _ hv => hv, of_decide_eq_true h.2⟩

def setting (bootstrap : List Member) : Setting NodeId Entry where
  stamp := Entry.term
  fits := fun i e => e.index = i + 1 ∧ e.command.isConfig = false
  Quorum := Majority (Node.votersOf bootstrap)
  quorum_mono := Majority.mono
  quorum_meets := Majority.meets

theorem stampAt_eq_wholeTerm (B : List Member) (l : List Entry) (i : Nat) :
    (setting B).stampAt l i = wholeTerm l i := by
  cases i <;> rfl

theorem lastStamp_eq_wholeTerm (B : List Member) (l : List Entry) :
    (setting B).lastStamp l = wholeTerm l l.length :=
  stampAt_eq_wholeTerm B l l.length

abbrev Past := History NodeId Entry

theorem indexed_of_chained {B : List Member} {a : Past} (h : Inv (setting B) a)
    {l : List Entry} (hl : Chained (setting B) a l) : Indexed l :=
  fun _ _ hi => (h.chained_fits hl hi).1

theorem not_config_of_chained {B : List Member} {a : Past}
    (h : Inv (setting B) a) {l : List Entry} (hl : Chained (setting B) a l)
    {e : Entry} (he : e ∈ l) : e.command.isConfig = false := by
  rcases List.mem_iff_getElem?.mp he with ⟨i, hi⟩
  exact (h.chained_fits hl hi).2

/-!
# Nodes
-/

/-- A membership a snapshot may carry while nothing changes it. -/
def Unchanged (B : List Member) (members : Option (List Member)) : Prop :=
  members = none ∨ members = some B

structure StorageOk (B : List Member) (a : Past) (n : NodeId)
    (s : MemStorage) : Prop where
  term : s.hardState.term = a.term n
  vote : s.hardState.votedFor = a.vote n (a.term n)
  shows : Shows (a.log n) s.log
  base : Committed a (a.term n) (a.log n) s.log.base.index
  members : Unchanged B s.snapshotMembers

structure CandidateOk (a : Past) (n : NodeId) (votes : Finset NodeId) :
    Prop where
  self : a.vote n (a.term n) = some n
  notLeader : a.leader (a.term n) ≠ some n
  ballot : a.leader (a.term n) = none ->
    a.ballot n (a.term n) = some (a.log n)
  votes : forall v, v ∈ votes -> a.vote v (a.term n) = some n

structure LeaderOk (a : Past) (n : NodeId) (matchIndex nextIndex : Table Nat)
    (commitIndex leaderStart seq : Nat) (acked : Table Nat) : Prop where
  leader : a.leader (a.term n) = some n
  self : a.vote n (a.term n) = some n
  matched : forall v k, matchIndex v = some k -> k <= a.acked v (a.term n)
  next : forall p k, nextIndex p = some k ->
    1 <= k ∧ k <= (a.log n).length + 1
  commit : a.commit (a.term n) <= commitIndex
  start : leaderStart = a.start (a.term n) + 1
  round : a.round (a.term n) = seq
  heard : forall v s, acked v = some s -> s <= a.heard v (a.term n)

structure NodeOk (B : List Member) (a : Past) (n : NodeId) (node : Node) :
    Prop where
  id : node.id = n
  bootstrap : node.bootstrap = B
  voters : node.voters = Node.votersOf B
  storage : StorageOk B a n node.storage
  commit : Committed a (a.term n) (a.log n) node.commitIndex
  applied : Committed a (a.term n) (a.log n) node.lastApplied
  candidate : node.role = Role.candidate -> CandidateOk a n node.votes
  leader : node.role = Role.leader -> LeaderOk a n node.matchIndex
    node.nextIndex node.commitIndex node.leaderStart node.seq node.acked
  incoming : forall origin sink, node.incoming = some (origin, sink) ->
    Unchanged B sink.members

/-- A snapshot a node has begun stands for a committed prefix of its log. -/
structure SinkOk (B : List Member) (a : Past) (n : NodeId)
    (sink : MemSnapshot) : Prop where
  committed : Committed a (a.term n) (a.log n) sink.about.index
  term : sink.about.term = wholeTerm (a.log n) sink.about.index
  members : Unchanged B sink.members

/-- The steps of others, and the answers a node gives, leave its own state
alone. -/
structure Still (n : NodeId) (a b : Past) : Prop where
  term : b.term n = a.term n
  log : b.log n = a.log n
  vote : b.vote n = a.vote n
  leader : forall T, b.leader T = some n -> a.leader T = some n
  commit : forall T, a.leader T = some n -> b.commit T = a.commit T
  round : forall T, a.leader T = some n -> b.round T = a.round T

theorem still_of_untouched {a b : Past} {n v : NodeId} (h : Untouched v a b)
    (hne : n ≠ v) : Still n a b where
  term := h.term n hne
  log := h.log n hne
  vote := h.vote n hne
  leader := by
    intro T hT
    rcases h.leader T n hT with hold | hv
    · exact hold
    · exact absurd hv hne
  commit := fun T hT => h.commit T n hT hne
  round := fun T hT => h.round T n hT hne

section Still

variable {B : List Member} {a b : Past} {n : NodeId}

theorem StorageOk.still {s : MemStorage} (h : StorageOk B a n s)
    (hext : Extends a b) (hst : Still n a b) : StorageOk B b n s := by
  refine ⟨?_, ?_, ?_, ?_, h.members⟩
  · rw [hst.term, h.term]
  · rw [hst.term, hst.vote, h.vote]
  · rw [hst.log]
    exact h.shows
  · rw [hst.term, hst.log]
    exact h.base.mono hext (le_refl _)

theorem CandidateOk.still {votes : Finset NodeId} (h : CandidateOk a n votes)
    (hext : Extends a b) (hst : Still n a b) : CandidateOk b n votes := by
  refine ⟨?_, ?_, ?_, ?_⟩
  · rw [hst.term]
    exact hext.vote n _ n h.self
  · rw [hst.term]
    intro hlead
    exact h.notLeader (hst.leader _ hlead)
  · rw [hst.term, hst.log]
    intro hopen
    exact hext.ballot n _ _ (h.ballot (hext.leader_open hopen))
  · rw [hst.term]
    intro w hw
    exact hext.vote w _ n (h.votes w hw)

theorem LeaderOk.still {matchIndex nextIndex acked : Table Nat}
    {commitIndex leaderStart seq : Nat}
    (h : LeaderOk a n matchIndex nextIndex commitIndex leaderStart seq acked)
    (hext : Extends a b) (hst : Still n a b) :
    LeaderOk b n matchIndex nextIndex commitIndex leaderStart seq acked := by
  refine ⟨?_, ?_, ?_, ?_, ?_, ?_, ?_, ?_⟩
  · rw [hst.term]
    exact hext.leader _ n h.leader
  · rw [hst.term]
    exact hext.vote n _ n h.self
  · rw [hst.term]
    intro w k hk
    exact (h.matched w k hk).trans (hext.acked w _)
  · rw [hst.log]
    exact h.next
  · rw [hst.term, hst.commit _ h.leader]
    exact h.commit
  · rw [hst.term, hext.start _ n h.leader]
    exact h.start
  · rw [hst.term, hst.round _ h.leader]
    exact h.round
  · rw [hst.term]
    intro w s hs
    exact (h.heard w s hs).trans (hext.heard w _)

theorem NodeOk.still {node : Node} (h : NodeOk B a n node)
    (hext : Extends a b) (hst : Still n a b) : NodeOk B b n node := by
  refine { h with
    storage := h.storage.still hext hst
    commit := ?_
    applied := ?_
    candidate := fun hrole => (h.candidate hrole).still hext hst
    leader := fun hrole => (h.leader hrole).still hext hst }
  · rw [hst.term, hst.log]
    exact h.commit.mono hext (le_refl _)
  · rw [hst.term, hst.log]
    exact h.applied.mono hext (le_refl _)

theorem SinkOk.still {sink : MemSnapshot} (h : SinkOk B a n sink)
    (hext : Extends a b) (hst : Still n a b) : SinkOk B b n sink := by
  refine ⟨?_, ?_, h.members⟩
  · rw [hst.term, hst.log]
    exact h.committed.mono hext (le_refl _)
  · rw [hst.log]
    exact h.term

end Still

/-!
# Messages
-/

/-- The fact of the history that a message carries.  Pre-votes and questions
about reads carry none. -/
def MsgOk (B : List Member) (a : Past) (envelope : Envelope) : Prop :=
  match envelope.message with
  | Message.requestVote T lastLogIndex lastLogTerm =>
      a.vote envelope.sender T = some envelope.sender ∧
        (a.leader T = none -> exists l, a.ballot envelope.sender T = some l ∧
          lastLogIndex = l.length ∧ lastLogTerm = wholeTerm l l.length)
  | Message.requestVoteReply T granted =>
      granted = true -> a.vote envelope.sender T = some envelope.dest
  | Message.appendEntries T prevLogIndex prevLogTerm entries leaderCommit seq =>
      a.leader T = some envelope.sender ∧
        prevLogIndex <= (a.record T).length ∧
        prevLogTerm = wholeTerm (a.record T) prevLogIndex ∧
        entries <+: (a.record T).drop prevLogIndex ∧
        Committed a T (a.record T) leaderCommit ∧ seq <= a.round T
  | Message.appendEntriesReply T success matchIndex conflictIndex _ seq =>
      (success = true -> matchIndex <= a.acked envelope.sender T) ∧
        (success = false -> conflictIndex <= (a.record T).length + 1) ∧
        seq <= a.heard envelope.sender T
  | Message.installSnapshot T lastIndex lastTerm _ _ _ seq members =>
      a.leader T = some envelope.sender ∧
        Committed a T (a.record T) lastIndex ∧
        lastTerm = wholeTerm (a.record T) lastIndex ∧
        Unchanged B members ∧ seq <= a.round T
  | Message.installSnapshotReply T lastIndex _ done seq =>
      (done = true -> lastIndex <= a.acked envelope.sender T) ∧
        seq <= a.heard envelope.sender T
  | _ => True

theorem wholeTerm_of_prefix {l r : List Entry} (h : l <+: r) {i : Nat}
    (hi : i <= l.length) : wholeTerm l i = wholeTerm r i := by
  rw [← stampAt_eq_wholeTerm [], ← stampAt_eq_wholeTerm []]
  exact (setting []).stampAt_of_isPrefix h hi

theorem drop_prefix_drop {l r : List Entry} (h : l <+: r) {i : Nat}
    (hi : i <= l.length) : l.drop i <+: r.drop i := by
  rcases h with ⟨rest, hr⟩
  rw [← hr, List.drop_append_of_le_length hi]
  exact List.prefix_append _ _

/-- A message that was true when sent stays true. -/
theorem MsgOk.mono {B : List Member} {a b : Past} {envelope : Envelope}
    (h : MsgOk B a envelope) (hext : Extends a b) : MsgOk B b envelope := by
  rcases envelope with ⟨sender, dest, message⟩
  cases message with
  | requestVote T lastLogIndex lastLogTerm =>
      rcases h with ⟨hself, hballot⟩
      refine ⟨hext.vote _ T _ hself, ?_⟩
      intro hopen
      rcases hballot (hext.leader_open hopen) with ⟨l, hl, hfacts⟩
      exact ⟨l, hext.ballot _ T l hl, hfacts⟩
  | requestVoteReply T granted =>
      intro hgranted
      exact hext.vote _ T _ (h hgranted)
  | appendEntries T prevLogIndex prevLogTerm entries leaderCommit seq =>
      rcases h with ⟨hlead, hprev, hterm, hentries, hcommit, hseq⟩
      have hrec := hext.record T
      refine ⟨hext.leader T _ hlead, hprev.trans hrec.length_le, ?_, ?_,
        hcommit.record_mono hext, hseq.trans (hext.round T)⟩
      · rw [hterm]
        exact wholeTerm_of_prefix hrec hprev
      · exact hentries.trans (drop_prefix_drop hrec hprev)
  | appendEntriesReply T success matchIndex conflictIndex conflictTerm seq =>
      rcases h with ⟨hmatch, hconflict, hseq⟩
      refine ⟨fun hs => (hmatch hs).trans (hext.acked _ T), ?_,
        hseq.trans (hext.heard _ T)⟩
      intro hs
      have hle := hconflict hs
      have hlen := (hext.record T).length_le
      omega
  | installSnapshot T lastIndex lastTerm offset data done seq members =>
      rcases h with ⟨hlead, hcommit, hterm, hmembers, hseq⟩
      refine ⟨hext.leader T _ hlead, hcommit.record_mono hext, ?_, hmembers,
        hseq.trans (hext.round T)⟩
      rw [hterm]
      exact wholeTerm_of_prefix (hext.record T) hcommit.1
  | installSnapshotReply T lastIndex nextOffset done seq =>
      rcases h with ⟨hdone, hseq⟩
      exact ⟨fun hd => (hdone hd).trans (hext.acked _ T),
        hseq.trans (hext.heard _ T)⟩
  | preVote term lastLogIndex lastLogTerm => trivial
  | preVoteReply term granted => trivial
  | readIndex term id => trivial
  | readIndexReply term id index => trivial

end Raft
end Minicask
