import Minicask.Raft.Reads
import Minicask.Replicated.Pairs

/-!
# What a fleet serves

At any two moments of a run all replicas are the fold of one log.  None fails at
anything it may be asked to do, and whatever any replica has applied when a leader is
asked for a read is there when the read is answered.
-/

namespace Minicask
namespace Replicated

open Raft Consensus

/-- At any two moments of any run of a fleet there is one log such that every running
replica's store is the fold of it, up to whatever the replica has applied.  All commands
in it were proposed, and no replica, stopped and started again or not, has gone back. -/
theorem replicas_share_one_log {B : List Member} {allowed : Bytes -> Prop}
    (hallowed : forall command, allowed command -> Writes command) {f g : Fleet}
    (hf : Fleet.Run B allowed Fleet.start f) (hg : Fleet.Run B allowed f g) :
    exists c : Committed, c.Short ∧ (forall i, (c.entry i).Allowed allowed) ∧
      f.Folds c ∧ g.Folds c ∧
      forall n, (f.hosts n).applied <= (g.hosts n).applied := by
  rcases (Tracked.start B allowed).run hallowed hf with ⟨a, known, _, _, ha, _⟩
  rcases ha.run hallowed hg with ⟨b, known', _, hmore, hb, hlater⟩
  rcases hb.learned.exists_log hb.traced.inv hallowed with
    ⟨c, hshort, hrecords, hcommands⟩
  refine ⟨c, hshort, hcommands, (ha.stands c hshort ?_).folds,
    (hb.stands c hshort hrecords).folds, hlater⟩
  exact fun i e hknown => hrecords i e (hmore i e hknown)

/-- A pair that has committed a put before one of the two is stopped, and once that one
is back and has applied it. -/
theorem replicas_share_one_log_pair :
    exists (f g : Fleet) (t : System) (c : Committed), c.Short ∧ f.Folds c ∧
      g.Folds c ∧ (f.hosts 1).applied = 2 ∧ (f.hosts 2).applied = 0 ∧
      g.hosts 2 = Stage.up t ∧ t.replica.applied = 2 ∧
      t.replica.get [7] = Except.ok (c.contents 2 [7]) := by
  let before := Sketch.pair.replay (pairElects ++ pairWrites)
  let later := [Gesture.restart 2, Gesture.readIndex 1] ++ pairHears
  have happlied : before.applied 1 = 2 ∧ before.applied 2 = 0 ∧
      (before.replay later).applied 2 = 2 := by decide +kernel
  rcases Sketch.exists_pair with ⟨_, _, hpair⟩
  rcases hpair.replay (pairElects ++ pairWrites) (by decide +kernel) with ⟨f, _, _, hf⟩
  rcases hf.replay later (by decide +kernel) with ⟨g, hrun, _, hg⟩
  rcases hf.hosts 1 (by decide) with ⟨s, hup, hs⟩
  rcases hf.hosts 2 (by decide) with ⟨s', hup', hs'⟩
  rcases hg.hosts 2 (by decide) with ⟨t, hback, ht⟩
  have ht := ht.applied.trans happlied.2.2
  rcases replicas_share_one_log OnlyPut.writes hf.run hrun with
    ⟨c, hshort, _, hbefore, hafter, _⟩
  have hget := (hafter 2 t hback).1 [7]
  rw [ht] at hget
  refine ⟨f, g, t, c, hshort, hbefore, hafter, ?_, ?_, hback, ht, hget⟩
  · rw [hup]
    exact hs.applied.trans happlied.1
  · rw [hup']
    exact hs'.applied.trans happlied.2.1

theorem readState_ready {r : ReplicatedStore} {request : ReadRequest} {i : Nat}
    (h : r.readState request = ReadState.ready i) :
    r.node.readState request = ReadState.ready i ∧ i <= r.applied := by
  unfold ReplicatedStore.readState at h
  split at h
  · next index hready =>
      split at h
      · cases h
      · next hreached =>
          cases h
          exact ⟨hready, Nat.le_of_not_lt hreached⟩
  · next hnever =>
      rw [h] at hnever
      exact absurd rfl (hnever i)

theorem readState_shown {node node' : Node} {applied i : Nat} {s t : System}
    (hs : Shown node applied s) (ht : Shown node' i t)
    (h : node'.readState node.readIndex.2.1 = ReadState.ready i) :
    t.replica.readState s.replica.readIndex.2.1 = ReadState.ready i := by
  have hrequest : s.replica.readIndex.2.1 = node.readIndex.2.1 := by
    rw [← hs.node]
    rfl
  unfold ReplicatedStore.readState
  rw [hrequest, ht.node, h, ht.applied]
  dsimp only
  rw [if_neg (Nat.lt_irrefl i)]

theorem localRead_ready {n : Node} {term seq index i : Nat}
    (h : n.readState (ReadRequest.localRead term seq index) = ReadState.ready i) :
    n.role = Role.leader ∧ n.term = term ∧ n.roundConfirmed seq = true ∧
      i = index := by
  unfold Node.readState at h
  dsimp only at h
  split at h
  · cases h
  · next hcurrent =>
      rw [not_or, not_not, not_not] at hcurrent
      split at h
      · next hconfirmed =>
          cases h
          exact ⟨hcurrent.1, hcurrent.2, hconfirmed, rfl⟩
      · cases h

/-- Everything that any replica had applied when a leader was asked for a read is in
what it reads, whatever has happened in between. -/
theorem leader_read_sees_all {B : List Member} {allowed : Bytes -> Prop}
    (hallowed : forall command, allowed command -> Writes command) {f g : Fleet}
    {n : NodeId} {s t : System} {i : Nat} (hf : Fleet.Run B allowed Fleet.start f)
    (hup : f.hosts n = Stage.up s) (hrole : s.replica.node.role = Role.leader)
    (hasked : Fleet.Step B allowed f (f.ask n s))
    (hg : Fleet.Run B allowed (f.ask n s) g) (hread : g.hosts n = Stage.up t)
    (hready : t.replica.readState s.replica.readIndex.2.1 = ReadState.ready i) :
    exists c : Committed, c.Short ∧ (forall j, (c.entry j).Allowed allowed) ∧
      f.Folds c ∧ (forall m, (f.hosts m).applied <= t.replica.applied) ∧
      forall k, t.replica.get k =
        Except.ok (c.contents t.replica.applied k) := by
  rcases (Tracked.start B allowed).run hallowed hf with ⟨a, known, _, _, ha, _⟩
  rcases ha.run hallowed (Relation.ReflTransGen.head hasked hg) with
    ⟨b, known', hrun, hmore, hb, _⟩
  have hasking := ha.traced.hosts n
  have hreading := hb.traced.hosts n
  rw [hup] at hasking
  rw [hread] at hreading
  have hrequest : s.replica.readIndex.2.1 = ReadRequest.localRead
      s.replica.node.term (s.replica.node.seq + 1)
      (max s.replica.node.commitIndex s.replica.node.leaderStart) := by
    unfold ReplicatedStore.readIndex Node.readIndex
    rw [if_pos hrole]
    rfl
  rw [hrequest] at hready
  rcases readState_ready hready with ⟨hready, hreached⟩
  rcases localRead_ready hready with ⟨hleads, hterm, hconfirmed, rfl⟩
  have hsame : b.term n = a.term n := by
    rw [← hreading.1.term_eq, ← hasking.1.term_eq]
    exact hterm
  have hcovers : Covers a _ := (hasking.1.opened hrole hrun hsame).covers
    ha.traced.inv (hreading.1.roundConfirmed hleads hconfirmed)
  rcases hb.learned.exists_log hb.traced.inv hallowed with
    ⟨c, hshort, hrecords, hcommands⟩
  refine ⟨c, hshort, hcommands, (ha.stands c hshort
    fun j e hknown => hrecords j e (hmore j e hknown)).folds, fun m => ?_, ?_⟩
  · rcases (ha.reached m).counted with ⟨U, hU⟩
    exact (hU.trans (hcovers U)).trans hreached
  · exact ((hb.stands c hshort hrecords).folds n t hread).1

theorem leader_read_sees_all_pair :
    exists (f g : Fleet) (s t : System) (c : Committed), c.Short ∧ f.Folds c ∧
      f.hosts 1 = Stage.up s ∧ g.hosts 1 = Stage.up t ∧
      t.replica.readState s.replica.readIndex.2.1 = ReadState.ready 2 ∧
      (forall m, (f.hosts m).applied <= 2) ∧
      t.replica.get [7] = Except.ok (c.contents 2 [7]) := by
  let asking := Sketch.pair.replay (pairElects ++ pairWrites ++ [Gesture.restart 2])
  let asked := asking.next (Gesture.readIndex 1)
  have hstate : (asking.nodes 1).role = Role.leader ∧
      asking.allows (Gesture.readIndex 1) = true ∧
      (asked.replay pairHears).applied 1 = 2 ∧
      ((asked.replay pairHears).nodes 1).readState
        (asking.nodes 1).readIndex.2.1 = ReadState.ready 2 := by decide +kernel
  rcases hstate with ⟨hrole, hallows, happlied, hready⟩
  rcases Sketch.exists_pair with ⟨_, _, hpair⟩
  rcases hpair.replay _ (by decide +kernel : Sketch.pair.replays
    (pairElects ++ pairWrites ++ [Gesture.restart 2]) = true) with ⟨f, _, _, hf⟩
  rcases hf.hosts 1 (by decide) with ⟨s, hup, hs⟩
  rcases hf.asks hup hs hallows with ⟨hasks, hasked⟩
  rcases hasked.replay pairHears (by decide +kernel) with ⟨g, hrun, _, hg⟩
  rcases hg.hosts 1 (by decide) with ⟨t, hread, ht⟩
  have hanswer : t.replica.readState s.replica.readIndex.2.1 = ReadState.ready 2 :=
    readState_shown hs (happlied ▸ ht) hready
  rcases leader_read_sees_all OnlyPut.writes hf.run hup (hs.node ▸ hrole) hasks hrun
    hread hanswer with ⟨c, hshort, _, hfolds, hreached, hget⟩
  have happlied := ht.applied.trans happlied
  rw [happlied] at hreached hget
  exact ⟨f, g, s, t, c, hshort, hfolds, hup, hread, hanswer, hreached, hget [7]⟩

end Replicated
end Minicask
