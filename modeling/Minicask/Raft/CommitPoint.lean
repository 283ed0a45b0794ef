import Mathlib.Order.Bounds.Defs
import Minicask.Raft.Follows
import Minicask.Raft.Node
import Minicask.Rankings

/-!
# The commit point

A leader takes the index in the middle of its voters' progress, and tests the term
there and nowhere else.  Terms go up with the index, so where that test fails it
fails at every index below.
-/

namespace Minicask
namespace Raft

/-- What a leader's log, voters and progress are like. -/
structure Node.Counting (n : Node) : Prop where
  follows : Follows n.storage.log.base.index n.storage.log.entries
  ascending : forall i j e e', n.storage.entry i = some e ->
    n.storage.entry j = some e' -> i <= j -> e.term <= e'.term
  current : forall i e, n.storage.entry i = some e -> e.term <= n.term
  distinct : n.voters.Nodup
  voters : n.voters ≠ []
  matched : forall v m, n.matchIndex v = some m -> m <= n.storage.lastIndex
  snapshot : n.storage.snapshotMeta.index <= n.commitIndex

/-- The voters that hold an index, as far as the leader knows. -/
def Node.holders (n : Node) (i : Nat) : Finset NodeId :=
  n.voters.toFinset.filter (fun v => i <= n.voterIndex v)

/-- An entry of the leader's own term that a majority of the voters hold. -/
def Node.Committable (n : Node) (i : Nat) : Prop :=
  (exists e, n.storage.entry i = some e ∧ e.term = n.term) ∧
    n.voters.length < 2 * (n.holders i).card

/-!
# The middle of the voters' progress
-/

theorem card_holders {n : Node} (hdistinct : n.voters.Nodup) (i : Nat) :
    (n.holders i).card = (n.voters.map n.voterIndex).countP (i <= ·) := by
  have hfilter : n.holders i =
      (n.voters.filter (fun v => decide (i <= n.voterIndex v))).toFinset := by
    rw [Node.holders, List.toFinset_filter]
    simp
  rw [hfilter, List.toFinset_card_of_nodup (hdistinct.filter _),
    List.countP_map, List.countP_eq_length_filter]
  rfl

theorem quorum_le {n : Node} (hvoters : n.voters ≠ []) :
    n.quorum - 1 < n.voters.length := by
  have hpos := List.length_pos_iff.mpr hvoters
  unfold Node.quorum
  omega

/-- A majority has come as far as the middle, and none any further. -/
theorem le_majorityIndex_iff {n : Node} (hdistinct : n.voters.Nodup)
    (hvoters : n.voters ≠ []) (i : Nat) :
    i <= n.majorityIndex ↔ n.voters.length < 2 * (n.holders i).card := by
  have hlength : ((n.voters.map n.voterIndex).insertionSort (· >= ·)).length =
      n.voters.length := by
    rw [List.length_insertionSort, List.length_map]
  have hplace : n.quorum - 1 <
      ((n.voters.map n.voterIndex).insertionSort (· >= ·)).length := by
    rw [hlength]
    exact quorum_le hvoters
  have hranked : ((n.voters.map n.voterIndex).insertionSort
      (· >= ·))[n.quorum - 1]? = some n.majorityIndex := by
    unfold Node.majorityIndex
    dsimp only
    rw [List.getElem?_eq_getElem hplace, Option.getD_some]
  rw [Rankings.le_ranked_iff hranked, card_holders hdistinct]
  unfold Node.quorum
  omega

theorem majorityIndex_le {n : Node} (h : n.Counting) :
    n.majorityIndex <= n.storage.lastIndex := by
  have hmost := (le_majorityIndex_iff h.distinct h.voters _).mp
    (Nat.le_refl n.majorityIndex)
  have hsome : (n.holders n.majorityIndex).Nonempty := by
    apply Finset.card_pos.mp
    omega
  rcases hsome with ⟨v, hv⟩
  have hreach : n.majorityIndex <= n.voterIndex v := (Finset.mem_filter.mp hv).2
  refine Nat.le_trans hreach ?_
  unfold Node.voterIndex
  split
  · exact Nat.le_refl _
  · cases hmatch : n.matchIndex v with
    | none => exact Nat.zero_le _
    | some m => exact h.matched v m hmatch

/-- Every index past the snapshot has an entry. -/
theorem Node.Counting.entry {n : Node} (h : n.Counting) {i : Nat}
    (hlow : n.commitIndex < i) (hhigh : i <= n.storage.lastIndex) :
    exists e, n.storage.entry i = some e ∧
      n.storage.termAt i = some e.term := by
  have hbase : n.storage.log.base.index < i :=
    Nat.lt_of_le_of_lt h.snapshot hlow
  have hlast : n.storage.lastIndex =
      n.storage.log.base.index + n.storage.log.entries.length :=
    h.follows.lastIndex
  have hplace : i - n.storage.log.base.index - 1 <
      n.storage.log.entries.length := by
    omega
  have hentry : n.storage.entry i =
      some n.storage.log.entries[i - n.storage.log.base.index - 1] := by
    show n.storage.log.entry i = _
    rw [h.follows.entry, if_pos hbase]
    exact List.getElem?_eq_getElem hplace
  refine ⟨_, hentry, ?_⟩
  show n.storage.log.termAt i = _
  rw [h.follows.termAt_eq hbase, List.getElem?_eq_getElem hplace]
  rfl

/-!
# What is committed
-/

theorem committable_majorityIndex {n : Node} (h : n.Counting)
    (hlow : n.commitIndex < n.majorityIndex)
    (hterm : n.storage.termAt n.majorityIndex = some n.term) :
    n.Committable n.majorityIndex := by
  rcases h.entry hlow (majorityIndex_le h) with ⟨e, hentry, heq⟩
  rw [heq] at hterm
  constructor
  · exact ⟨e, hentry, Option.some.inj hterm⟩
  · exact (le_majorityIndex_iff h.distinct h.voters _).mp (Nat.le_refl _)

/-- Above an entry of the leader's term every entry is of that term. -/
theorem termAt_majorityIndex {n : Node} (h : n.Counting) {i : Nat}
    (hi : n.Committable i) (hlow : n.commitIndex < n.majorityIndex) :
    n.storage.termAt n.majorityIndex = some n.term := by
  rcases hi with ⟨⟨e, hentry, hterm⟩, hheld⟩
  have hbelow := (le_majorityIndex_iff h.distinct h.voters i).mpr hheld
  rcases h.entry hlow (majorityIndex_le h) with ⟨top, htop, heq⟩
  have hup : e.term <= top.term :=
    h.ascending i n.majorityIndex e top hentry htop hbelow
  have hcap := h.current n.majorityIndex top htop
  rw [heq]
  exact congrArg some (Nat.le_antisymm hcap (hterm ▸ hup))

structure SameVotes (n n' : Node) : Prop where
  id : n'.id = n.id
  voters : n'.voters = n.voters
  storage : n'.storage = n.storage
  commit : n'.commitIndex = n.commitIndex
  matched : forall v, v ∈ n.voters -> n'.matchIndex v = n.matchIndex v

theorem SameVotes.majorityIndex {n n' : Node} (h : SameVotes n n') :
    n'.majorityIndex = n.majorityIndex := by
  have hprogress : n'.voters.map n'.voterIndex = n.voters.map n.voterIndex := by
    rw [h.voters]
    apply List.map_congr_left
    intro v hv
    unfold Node.voterIndex
    rw [h.id, h.storage, h.matched v hv]
  unfold Node.majorityIndex Node.quorum
  rw [hprogress, h.voters]

theorem SameVotes.maybeCommit {n n' : Node} (h : SameVotes n n') :
    n'.maybeCommit.commitIndex = n.maybeCommit.commitIndex := by
  have hterm : n'.term = n.term := by
    unfold Node.term
    rw [h.storage]
  unfold Node.maybeCommit
  rw [h.voters, h.majorityIndex, h.commit, h.storage, hterm]
  split
  · exact h.commit
  · split
    · rfl
    · exact h.commit

/-- `maybeCommit` moves the commit index to the greatest entry of the leader's own
term that a majority of the voters hold, if that is further, and nobody but the
voters has a say in it. -/
theorem maybeCommit_greatest {n : Node} (h : n.Counting) :
    IsGreatest (insert n.commitIndex { i | n.Committable i })
      n.maybeCommit.commitIndex ∧
    forall n', SameVotes n n' ->
      n'.maybeCommit.commitIndex = n.maybeCommit.commitIndex := by
  have hempty : ¬ n.voters.isEmpty = true := by
    intro hnil
    exact h.voters (List.isEmpty_iff.mp hnil)
  refine ⟨?_, fun n' hsame => hsame.maybeCommit⟩
  unfold Node.maybeCommit
  rw [if_neg hempty]
  by_cases hmoves : n.majorityIndex > n.commitIndex ∧
      n.storage.termAt n.majorityIndex = some n.term
  · rw [if_pos hmoves]
    constructor
    · exact Or.inr (committable_majorityIndex h hmoves.1 hmoves.2)
    · intro i hi
      cases hi with
      | inl hold =>
          rw [hold]
          exact Nat.le_of_lt hmoves.1
      | inr hcommittable =>
          exact (le_majorityIndex_iff h.distinct h.voters i).mpr hcommittable.2
  · rw [if_neg hmoves]
    constructor
    · exact Or.inl rfl
    · intro i hi
      cases hi with
      | inl hold => exact Nat.le_of_eq hold
      | inr hcommittable =>
          have hbelow :=
            (le_majorityIndex_iff h.distinct h.voters i).mpr hcommittable.2
          by_contra hpast
          have hlow : n.commitIndex < n.majorityIndex :=
            Nat.lt_of_lt_of_le (Nat.lt_of_not_le hpast) hbelow
          exact hmoves ⟨hlow, termAt_majorityIndex h hcommittable hlow⟩

theorem mem_of_entry {log : EntryLog} {i : Nat} {e : Entry}
    (h : log.entry i = some e) : e ∈ log.entries := by
  unfold EntryLog.entry at h
  rcases Option.bind_eq_some_iff.mp h with ⟨place, _, hplace⟩
  exact List.mem_of_getElem? hplace

def twoOfThree : Node :=
  { Node.withMembers 1
      [{ id := 1, context := [], learner := false },
        { id := 2, context := [], learner := false },
        { id := 3, context := [], learner := false }] {}
      { hardState := { term := 1 }
        log := { entries :=
          [{ term := 1, index := 1, command := Command.noop },
            { term := 1, index := 2, command := Command.data [7] }] } } with
    role := Role.leader
    matchIndex := Table.empty.insert 2 2 }

theorem maybeCommit_greatest_twoOfThree :
    twoOfThree.Counting ∧ twoOfThree.commitIndex = 0 ∧
      IsGreatest (insert 0 { i | twoOfThree.Committable i })
        twoOfThree.maybeCommit.commitIndex ∧
      twoOfThree.maybeCommit.commitIndex = 2 := by
  have hterm : forall i e, twoOfThree.storage.entry i = some e -> e.term = 1 := by
    intro i e hentry
    have hmem : e ∈ twoOfThree.storage.log.entries := mem_of_entry hentry
    have hall : forall e, e ∈ twoOfThree.storage.log.entries -> e.term = 1 := by
      decide +kernel
    exact hall e hmem
  have hmatched : forall v m, twoOfThree.matchIndex v = some m -> m <= 2 := by
    intro v m hmatch
    have hcases : (if v = 2 then some 2 else none) = some m := hmatch
    split at hcases
    · exact Nat.le_of_eq (Option.some.inj hcases).symm
    · cases hcases
  have hcounting : twoOfThree.Counting := by
    constructor
    · exact ⟨rfl, rfl, trivial⟩
    · intro i j e e' he he' _
      rw [hterm i e he, hterm j e' he']
    · intro i e he
      rw [hterm i e he]
      decide +kernel
    · decide +kernel
    · decide +kernel
    · exact hmatched
    · exact Nat.zero_le _
  exact ⟨hcounting, by decide +kernel, (maybeCommit_greatest hcounting).1,
    by decide +kernel⟩

end Raft
end Minicask
