import Minicask.Raft.Safety

/-!
# Reads

A read is allowed once a majority has answered a round opened after it began.
A history covers an index when nothing it counts as committed lies above it, and
a confirmed round covers the history in which it was opened.
-/

namespace Minicask
namespace Raft

open Consensus Cluster

/-- Everything committed so far lies at or below the index. -/
def Covers (a : Past) (index : Nat) : Prop :=
  forall U, a.commit U <= index

theorem Covers.commitIndex_le {B : List Member} {a : Past} {n : NodeId}
    {node : Node} {index : Nat} (hcovers : Covers a index)
    (h : NodeOk B a n node) : node.commitIndex <= index := by
  rcases h.commit with ⟨_, U, _, hU, _⟩
  exact hU.trans (hcovers U)

theorem Covers.of_run {S : Setting NodeId Entry} {a b : Past} {index : Nat}
    (hinv : Inv S a) (hrun : Run S a b) (h : Covers b index) :
    Covers a index := by
  intro U
  exact ((hinv.run_extends hrun).2.commit U).trans (h U)

/-- A round that a leader opened at `a`, as it stands at `b`. -/
structure Opened (B : List Member) (a b : Past) (m : NodeId)
    (seq index : Nat) : Prop where
  run : Run (setting B) a b
  term : b.term m = a.term m
  leader : a.leader (a.term m) = some m
  round : a.round (a.term m) < seq
  commit : a.commit (a.term m) <= index
  start : a.start (a.term m) <= index

theorem Opened.covers {B : List Member} {a b : Past} {m : NodeId}
    {seq index : Nat} (hinv : Inv (setting B) a)
    (h : Opened B a b m seq index)
    (hquorum : (setting B).Quorum
      { w | w = m ∨ seq <= b.heard w (b.term m) }) : Covers a index := by
  intro U
  rcases Nat.eq_zero_or_pos (a.commit U) with hzero | hpos
  · omega
  · rw [h.term] at hquorum
    have hU := hinv.read_covers h.run rfl h.round hquorum hpos
    rcases Nat.lt_or_eq_of_le hU with hlt | heq
    · exact (hinv.commit_le_start hlt h.leader).trans h.start
    · rw [heq]
      exact h.commit

theorem NodeOk.opened {B : List Member} {a b : Past} {m : NodeId} {node : Node}
    (h : NodeOk B a m node) (hrole : node.role = Role.leader)
    (hrun : Run (setting B) a b) (hterm : b.term m = a.term m) :
    Opened B a b m (node.seq + 1) (max node.commitIndex node.leaderStart) := by
  have hl := h.leader hrole
  refine ⟨hrun, hterm, hl.leader, ?_, ?_, ?_⟩
  · rw [hl.round]
    exact Nat.lt_succ_self _
  · exact hl.commit.trans (le_max_left _ _)
  · have := hl.start
    omega

theorem NodeOk.roundConfirmed {B : List Member} {b : Past} {m : NodeId}
    {node : Node} (h : NodeOk B b m node) (hrole : node.role = Role.leader)
    {seq : Nat} (hconfirmed : node.roundConfirmed seq = true) :
    (setting B).Quorum { w | w = m ∨ seq <= b.heard w (b.term m) } := by
  have hmajority := majority_of_hasQuorum hconfirmed
  rw [h.voters] at hmajority
  refine hmajority.mono ?_
  intro w hw
  rw [Set.mem_ofPred_eq] at hw
  rcases Finset.mem_insert.mp hw with hself | hanswered
  · left
    rw [hself, h.id]
  · right
    have hacked := (List.mem_filter.mp (List.mem_toFinset.mp hanswered)).2
    cases hw : node.acked w with
    | none =>
        rw [hw] at hacked
        cases hacked
    | some s =>
        rw [hw] at hacked
        exact (of_decide_eq_true hacked).trans ((h.leader hrole).heard w s hw)

/-!
# Reads on the leader
-/

theorem local_read_covers_commits {B : List Member}
    {configs : NodeId -> Config} {c d : Cluster} {n : NodeId} {r : Nat}
    (hc : FixedRun (start B configs) c)
    (hrole : (c.nodes n).role = Role.leader)
    (hd : FixedRun (c.next (Event.readIndex n)) d)
    (hready : (d.nodes n).readState (c.nodes n).readIndex.2.1 =
      ReadState.ready r) (m : NodeId) : (c.nodes m).commitIndex <= r := by
  rcases (related_start B configs).run hc with ⟨a, _, ha⟩
  rcases ha.act ((ha.nodes n).readIndex ha.inv) with ⟨a', haa, ha'⟩
  rcases Related.run (c := c.next (Event.readIndex n)) ha' hd with ⟨b, hab, hb⟩
  have hrun : Run (setting c.bootstrap) a b :=
    Relation.ReflTransGen.trans haa hab
  have hrequest : (c.nodes n).readIndex.2.1 = ReadRequest.localRead
      (c.nodes n).term ((c.nodes n).seq + 1)
      (max (c.nodes n).commitIndex (c.nodes n).leaderStart) := by
    unfold Node.readIndex
    rw [if_pos hrole]
    rfl
  rw [hrequest] at hready
  unfold Node.readState at hready
  simp only at hready
  split at hready
  · cases hready
  next hcurrent =>
    rw [not_or, not_not, not_not] at hcurrent
    split at hready
    · next hconfirmed =>
        cases hready
        have hbootstrap : d.bootstrap = c.bootstrap :=
          (FixedRun.bootstrap hd).trans (next_bootstrap c _)
        have hnode := hb.nodes n
        rw [hbootstrap] at hnode
        have hterm : b.term n = a.term n := by
          rw [← hnode.term_eq, ← (ha.nodes n).term_eq]
          exact hcurrent.2
        have hopened := (ha.nodes n).opened hrole hrun hterm
        have hcovers := hopened.covers ha.inv
          (hnode.roundConfirmed hcurrent.1 hconfirmed)
        exact hcovers.commitIndex_le (ha.nodes m)
    · cases hready

def pairConfirms : List Event :=
  [Event.deliver ⟨1, 2, Message.appendEntries 1 1 1 [] 1 1⟩,
   Event.deliver ⟨2, 1, Message.appendEntriesReply 1 true 1 0 none 1⟩]

theorem local_read_covers_commits_pair :
    (pairMid.nodes 1).readIndex.2.1 = ReadRequest.localRead 1 1 1 ∧
      forall m, (pairMid.nodes m).commitIndex <= 1 := by
  have hruns : FixedRun pair pairMid ∧
      FixedRun (pairMid.next (Event.readIndex 1))
        (pairConfirms.foldl next (pairMid.next (Event.readIndex 1))) :=
    fixedRun_around pairMembers (fun _ => {}) [1, 2] pairCommits
      (Event.readIndex 1) pairConfirms (by decide +kernel) (by decide +kernel) (by decide +kernel)
  refine ⟨by decide +kernel, ?_⟩
  intro m
  exact local_read_covers_commits hruns.1 (n := 1) (by decide +kernel)
    hruns.2 (by decide +kernel) m

end Raft
end Minicask
