import Minicask.Raft.LogView
import Minicask.Raft.Progress

/-!
# Rewinding after a conflict

A refusal says where the follower's log leaves the leader's: at its end, or at the
first entry of a term.  The leader goes back to its own last entry of that term, or
skips the term, and never behind the last entry that both have.
-/

namespace Minicask
namespace Raft

/-!
# One exchange after another
-/

/-- What the leader sends, what the follower answers, and what the leader makes of the
answer; nothing when it sends a piece of its snapshot.  The flag is the answer's. -/
def exchange (sender peer : NodeId) (pair : Node × Node) :
    Option (Bool × Node × Node) :=
  match (pair.1.appendMessageFor peer).message with
  | Message.appendEntries _ prevLogIndex prevLogTerm entries leaderCommit seq =>
      let (follower, replies) := pair.2.handleAppendEntries sender prevLogIndex
        prevLogTerm entries leaderCommit seq
      match replies.map Action.message with
      | [Message.appendEntriesReply _ success matchIndex conflictIndex
          conflictTerm _] =>
          some (success, (pair.1.handleAppendReply peer success matchIndex
            conflictIndex conflictTerm).1, follower)
      | _ => none
  | _ => none

/-- A number of exchanges in a row that all end in a refusal. -/
inductive Refused (sender peer : NodeId) (first : Node × Node) :
    Nat -> Node × Node -> Prop where
  | none : Refused sender peer first 0 first
  | more {count : Nat} {pair pair' : Node × Node}
      (h : Refused sender peer first count pair)
      (hrefused : exchange sender peer pair = some (false, pair')) :
      Refused sender peer first (count + 1) pair'

def Node.rewind (n : Node) (peer : NodeId) (conflictIndex : Nat)
    (conflictTerm : Option Nat) : Node :=
  { n with
    nextIndex := n.nextIndex.insert peer (n.rewound conflictIndex conflictTerm) }

/-- Past the leader's snapshot an exchange ends in an answer, and a refusal moves the
next index and nothing else of either log. -/
theorem exchange_cases (sender : NodeId) {peer : NodeId} {leader : Node}
    (follower : Node)
    (hpast : ¬ leader.nextFor peer <= leader.storage.snapshotMeta.index) :
    (exists pair', exchange sender peer (leader, follower) =
      some (true, pair')) ∨
    exists conflictIndex conflictTerm follower',
      exchange sender peer (leader, follower) =
        some (false, leader.rewind peer conflictIndex conflictTerm, follower') ∧
      follower'.storage = follower.storage ∧
      follower.storage.snapshotMeta.index <= leader.nextFor peer - 1 ∧
      follower.storage.termAt (leader.nextFor peer - 1) ≠
        some ((leader.storage.termAt (leader.nextFor peer - 1)).getD 0) ∧
      Conflict follower.storage (leader.nextFor peer - 1) conflictIndex
        conflictTerm := by
  have hsent : (leader.appendMessageFor peer).message =
      Message.appendEntries leader.term (leader.nextFor peer - 1)
        ((leader.storage.termAt (leader.nextFor peer - 1)).getD 0)
        (leader.storage.entriesWithin (leader.nextFor peer)
          leader.config.maxAppendBytes)
        leader.commitIndex leader.seq := by
    unfold Node.appendMessageFor
    dsimp only
    rw [if_neg hpast]
  unfold exchange
  dsimp only
  rw [hsent]
  dsimp only
  rcases handleAppendEntries_answers follower sender (leader.nextFor peer - 1)
      ((leader.storage.termAt (leader.nextFor peer - 1)).getD 0)
      (leader.storage.entriesWithin (leader.nextFor peer)
        leader.config.maxAppendBytes) leader.commitIndex leader.seq with
    ⟨follower', hanswer⟩ |
      ⟨follower', conflictIndex, conflictTerm, hanswer, hstorage, hlow, hterm,
        hconflict⟩
  · rw [hanswer]
    exact Or.inl ⟨_, rfl⟩
  · rw [hanswer]
    exact Or.inr ⟨conflictIndex, conflictTerm, follower', rfl, hstorage, hlow,
      hterm, hconflict⟩

/-!
# Searching a log for a term
-/

namespace MemStorage

variable {s : MemStorage}

theorem indices_ascending (first last : Nat) :
    (indices first last).Pairwise (· < ·) :=
  List.pairwise_lt_range'

/-- Nothing after the last index of a term is of that term. -/
theorem lastIndexOfTerm_some {t i : Nat} (h : s.lastIndexOfTerm t = some i) :
    s.snapshotMeta.index <= i ∧ i <= s.lastIndex ∧ 0 < i ∧
      s.termAt i = some t ∧
      forall j, i < j -> j <= s.lastIndex -> s.termAt j ≠ some t := by
  rcases List.find?_eq_some_iff_append.mp h with
    ⟨hfound, later, earlier, hsplit, hlater⟩
  have hmem := List.mem_of_find?_eq_some h
  rw [List.mem_reverse, mem_indices] at hmem
  rw [Bool.and_eq_true, decide_eq_true_eq, beq_iff_eq] at hfound
  constructor
  · exact hmem.1
  · constructor
    · exact hmem.2
    · constructor
      · exact hfound.1
      · constructor
        · exact hfound.2
        · intro j hij hj hterm
          have hin : j ∈ later ++ i :: earlier := by
            rw [← hsplit, List.mem_reverse, mem_indices]
            exact ⟨Nat.le_trans hmem.1 (Nat.le_of_lt hij), hj⟩
          have hsorted : (later ++ i :: earlier).Pairwise (· > ·) := by
            rw [← hsplit]
            exact List.pairwise_reverse.mpr (indices_ascending _ _)
          rcases List.mem_append.mp hin with hbefore | hafter
          · have hnot := hlater j hbefore
            simp [hterm, Nat.lt_trans hfound.1 hij] at hnot
          · rw [List.pairwise_append] at hsorted
            rw [List.mem_cons] at hafter
            rcases hafter with rfl | hafter
            · exact Nat.lt_irrefl _ hij
            · exact Nat.lt_asymm hij
                ((List.pairwise_cons.mp hsorted.2.1).1 j hafter)

theorem lastIndexOfTerm_none {t : Nat} (h : s.lastIndexOfTerm t = none) {j : Nat}
    (hpositive : 0 < j) (hlow : s.snapshotMeta.index <= j)
    (hhigh : j <= s.lastIndex) : s.termAt j ≠ some t := by
  intro hterm
  have hnot := List.find?_eq_none.mp h j
    (List.mem_reverse.mpr (mem_indices.mpr ⟨hlow, hhigh⟩))
  simp [hpositive, hterm] at hnot

theorem firstIndexOfTerm_spec {t i : Nat} (hlow : s.firstIndex <= i)
    (hhigh : i <= s.lastIndex) (hterm : s.termAt i = some t) :
    s.firstIndex <= s.firstIndexOfTerm t ∧ s.firstIndexOfTerm t <= i ∧
      s.termAt (s.firstIndexOfTerm t) = some t := by
  have hle := firstIndexOfTerm_le hlow hhigh hterm
  unfold firstIndexOfTerm at hle ⊢
  cases hfind : (indices s.firstIndex s.lastIndex).find?
      (fun j => s.termAt j == some t) with
  | none =>
      have hnot := List.find?_eq_none.mp hfind i (mem_indices.mpr ⟨hlow, hhigh⟩)
      simp [hterm] at hnot
  | some j =>
      rw [hfind] at hle
      have hmem := mem_indices.mp (List.mem_of_find?_eq_some hfind)
      have hfound := List.find?_some hfind
      rw [beq_iff_eq] at hfound
      exact ⟨hmem.1, hle, hfound⟩

end MemStorage

/-!
# Two logs
-/

/-- Terms never go down. -/
def Climbs (l : List Entry) : Prop :=
  forall (i j : Nat) (d e : Entry), i <= j -> l[i]? = some d -> l[j]? = some e ->
    d.term <= e.term

/-- Both logs have the same entry at an index. -/
def Agreed (l r : List Entry) (index : Nat) : Prop :=
  exists e, l[index - 1]? = some e ∧ r[index - 1]? = some e

/-- Whole logs of a leader and a follower, of which both may have only the part after
a snapshot: terms never go down, logs that have an entry of one term at one index are
the same up to there, and snapshots cover only what the logs agree on. -/
structure Compared (l r : List Entry) (leader follower : Node) : Prop where
  shown : Shows l leader.storage.log
  shown' : Shows r follower.storage.log
  climbs : Climbs l
  climbs' : Climbs r
  matching : forall (i : Nat) (d e : Entry), l[i]? = some d -> r[i]? = some e ->
    d.term = e.term -> l.take (i + 1) = r.take (i + 1)
  covered : forall (i : Nat) (d e : Entry), i < leader.storage.snapshotMeta.index ∨
      i < follower.storage.snapshotMeta.index ->
    l[i]? = some d -> r[i]? = some e -> d = e

/-- What the follower has of a term is in the leader's log too, if that has an entry of
the term there or further on: all entries of a term come from one leader. -/
def OneSource (l r : List Entry) : Prop :=
  forall (i j : Nat) (d e : Entry), i <= j -> r[i]? = some d -> l[j]? = some e ->
    d.term = e.term -> l[i]? = some d

theorem wholeTerm_of_entry {l : List Entry} {i : Nat} {e : Entry}
    (hpositive : 0 < i) (h : l[i - 1]? = some e) : wholeTerm l i = e.term := by
  have hpred : i - 1 + 1 = i := Nat.sub_add_cancel hpositive
  rw [← hpred, wholeTerm, h]
  rfl

theorem entry_at {l : List Entry} {i : Nat} (hpositive : 0 < i)
    (hi : i <= l.length) :
    exists e, l[i - 1]? = some e ∧ wholeTerm l i = e.term := by
  have hlt : i - 1 < l.length := by omega
  have hentry : l[i - 1]? = some l[i - 1] := List.getElem?_eq_getElem hlt
  exact ⟨l[i - 1], hentry, wholeTerm_of_entry hpositive hentry⟩

theorem Climbs.wholeTerm {l : List Entry} (h : Climbs l) {i j : Nat}
    (hij : i <= j) (hj : j <= l.length) : wholeTerm l i <= wholeTerm l j := by
  rcases Nat.eq_zero_or_pos i with hzero | hpositive
  · rw [hzero]
    exact Nat.zero_le _
  · rcases entry_at hpositive (Nat.le_trans hij hj) with ⟨d, hd, hdterm⟩
    rcases entry_at (Nat.lt_of_lt_of_le hpositive hij) hj with ⟨e, he, heterm⟩
    rw [hdterm, heterm]
    exact h (i - 1) (j - 1) d e (Nat.sub_le_sub_right hij 1) hd he

namespace Compared

variable {l r : List Entry} {leader follower : Node}

/-- Below an index where the logs have the same term they have the same terms. -/
theorem same (h : Compared l r leader follower) {i j : Nat} (hij : i <= j)
    (hl : j <= l.length) (hr : j <= r.length)
    (hterm : wholeTerm l j = wholeTerm r j) :
    wholeTerm l i = wholeTerm r i := by
  rcases Nat.eq_zero_or_pos j with hzero | hpositive
  · rw [hzero] at hij
    rw [Nat.le_zero.mp hij]
    rfl
  · rcases entry_at hpositive hl with ⟨d, hd, hdterm⟩
    rcases entry_at hpositive hr with ⟨e, he, heterm⟩
    have htake := h.matching (j - 1) d e hd he (by
      rw [← hdterm, ← heterm]
      exact hterm)
    rw [Nat.sub_add_cancel hpositive] at htake
    rw [← Shows.wholeTerm_take hij, htake, Shows.wholeTerm_take hij]

theorem term_of_agreed {i : Nat} (hpositive : 0 < i) (h : Agreed l r i) :
    i <= l.length ∧ i <= r.length ∧ wholeTerm l i = wholeTerm r i := by
  rcases h with ⟨e, hl, hr⟩
  have hinL := (List.getElem?_eq_some_iff.mp hl).1
  have hinR := (List.getElem?_eq_some_iff.mp hr).1
  constructor
  · omega
  · constructor
    · omega
    · rw [wholeTerm_of_entry hpositive hl, wholeTerm_of_entry hpositive hr]

theorem term_of_covered (h : Compared l r leader follower) {i : Nat}
    (hcovered : i <= leader.storage.snapshotMeta.index ∨
      i <= follower.storage.snapshotMeta.index) (hl : i <= l.length)
    (hr : i <= r.length) : wholeTerm l i = wholeTerm r i := by
  rcases Nat.eq_zero_or_pos i with hzero | hpositive
  · rw [hzero]
    rfl
  · rcases entry_at hpositive hl with ⟨d, hd, hdterm⟩
    rcases entry_at hpositive hr with ⟨e, he, heterm⟩
    rw [hdterm, heterm, h.covered (i - 1) d e (by omega) hd he]

theorem rewound_short (h : Compared l r leader follower) {prev : Nat}
    (hlow : follower.storage.snapshotMeta.index <= prev)
    (hterm : follower.storage.termAt prev = none) :
    leader.rewound (follower.storage.lastIndex + 1) none <= prev ∧
      forall i, Agreed l r i ->
        i < leader.rewound (follower.storage.lastIndex + 1) none := by
  have hlast : follower.storage.lastIndex = r.length := h.shown'.lastIndex
  have hrewound : leader.rewound (follower.storage.lastIndex + 1) none =
      r.length + 1 := by
    unfold Node.rewound
    rw [hlast]
    exact Nat.max_eq_left (Nat.succ_le_succ (Nat.zero_le _))
  rw [hrewound]
  constructor
  · rcases h.shown'.termAt_eq_none hterm with hbelow | hbeyond
    · exact absurd hlow (Nat.not_le_of_lt hbelow)
    · exact hbeyond
  · intro i hagreed
    rcases Nat.eq_zero_or_pos i with hzero | hpositive
    · omega
    · exact Nat.lt_succ_of_le (term_of_agreed hpositive hagreed).2.1

theorem rewound_diverges (h : Compared l r leader follower)
    (hsource : OneSource l r) {prev t : Nat}
    (hlowL : leader.storage.snapshotMeta.index <= prev)
    (hhighL : prev <= l.length)
    (hlow : follower.storage.snapshotMeta.index <= prev)
    (hterm : follower.storage.termAt prev = some t)
    (hdiffers : t ≠ wholeTerm l prev) :
    leader.rewound (follower.storage.firstIndexOfTerm t) (some t) <= prev ∧
      forall i, Agreed l r i ->
        i < leader.rewound (follower.storage.firstIndexOfTerm t) (some t) := by
  rcases h.shown'.termAt_eq_some hterm with ⟨_, hhigh, rfl⟩
  have hpast : follower.storage.snapshotMeta.index < prev := by
    apply Nat.lt_of_le_of_ne hlow
    intro heq
    exact hdiffers (h.term_of_covered (Or.inr (Nat.le_of_eq heq.symm)) hhighL
      hhigh).symm
  have hpositive : 0 < prev := Nat.zero_lt_of_lt hpast
  -- Nothing from here on is agreed.
  have hbefore : forall i, Agreed l r i -> i < prev := by
    intro i hagreed
    by_contra hge
    have hi : 0 < i := by omega
    rcases term_of_agreed hi hagreed with ⟨hl, hr, hsame⟩
    exact hdiffers (h.same (Nat.le_of_not_lt hge) hl hr hsame).symm
  cases hfind : leader.storage.lastIndexOfTerm (wholeTerm r prev) with
  | some last =>
      -- The leader has the term too, but not as far as this.
      rcases MemStorage.lastIndexOfTerm_some hfind with
        ⟨hbase, hlast, hsome, htermL, hafter⟩
      rcases h.shown.termAt_eq_some htermL with ⟨_, hinL, hsame⟩
      have hbelow : last < prev := by
        by_contra hge
        rcases entry_at hpositive hhigh with ⟨d, hd, hdterm⟩
        rcases entry_at hsome hinL with ⟨e, he, heterm⟩
        have hheld := hsource (prev - 1) (last - 1) d e (by omega) hd he (by
          rw [← hdterm, ← heterm]
          exact hsame)
        apply hdiffers
        rw [wholeTerm_of_entry hpositive hheld]
        exact hdterm
      have hrewound : leader.rewound
          (follower.storage.firstIndexOfTerm (wholeTerm r prev))
          (some (wholeTerm r prev)) = last + 1 := by
        unfold Node.rewound
        dsimp only
        rw [hfind]
        exact Nat.max_eq_left (Nat.succ_le_succ (Nat.zero_le _))
      rw [hrewound]
      constructor
      · exact hbelow
      · intro i hagreed
        by_contra hge
        have hi : 0 < i := by omega
        rcases term_of_agreed hi hagreed with ⟨hl, hr, hequal⟩
        have hup := h.climbs.wholeTerm (show last <= i by omega) hl
        have hdown := h.climbs'.wholeTerm (Nat.le_of_lt (hbefore i hagreed)) hhigh
        apply hafter i (by omega) (by
          rw [MemStorage.lastIndex, h.shown.lastIndex]
          exact hl)
        unfold MemStorage.termAt
        rw [h.shown.termAt, if_pos (by
          constructor
          · exact Nat.le_trans hbase (by omega)
          · exact hl)]
        congr 1
        omega
  | none =>
      -- It does not, and the follower's part of that term is skipped.
      have hfirst := MemStorage.firstIndexOfTerm_spec
        (show follower.storage.firstIndex <= prev from hpast)
        (show prev <= follower.storage.lastIndex by
          rw [MemStorage.lastIndex, h.shown'.lastIndex]
          exact hhigh) hterm
      rcases hfirst with ⟨hstart, hle, htermF⟩
      rcases h.shown'.termAt_eq_some htermF with ⟨_, hinR, hsame⟩
      have hpos : 0 < follower.storage.firstIndexOfTerm (wholeTerm r prev) :=
        Nat.lt_of_lt_of_le (Nat.zero_lt_succ _) hstart
      have hrewound : leader.rewound
          (follower.storage.firstIndexOfTerm (wholeTerm r prev))
          (some (wholeTerm r prev)) =
            follower.storage.firstIndexOfTerm (wholeTerm r prev) := by
        unfold Node.rewound
        dsimp only
        rw [hfind]
        exact Nat.max_eq_left hpos
      rw [hrewound]
      have hlacks : forall j, 0 < j -> leader.storage.snapshotMeta.index <= j ->
          j <= l.length -> wholeTerm l j ≠ wholeTerm r prev := by
        intro j hj hbase hin heq
        apply MemStorage.lastIndexOfTerm_none hfind hj hbase
        · rw [MemStorage.lastIndex, h.shown.lastIndex]
          exact hin
        · unfold MemStorage.termAt
          rw [h.shown.termAt, if_pos ⟨hbase, hin⟩, heq]
      constructor
      · exact hle
      · intro i hagreed
        by_contra hge
        have hi : 0 < i := by omega
        rcases term_of_agreed hi hagreed with ⟨hl, hr, hequal⟩
        -- From the first entry of the term to this one they are all of it.
        have hrun : forall j, i <= j -> j <= prev ->
            wholeTerm r j = wholeTerm r prev := by
          intro j hij hj
          have hup := h.climbs'.wholeTerm
            (show follower.storage.firstIndexOfTerm (wholeTerm r prev) <= j by
              omega) (Nat.le_trans hj hhigh)
          have hdown := h.climbs'.wholeTerm hj hhigh
          omega
        have hiprev := Nat.le_of_lt (hbefore i hagreed)
        rcases Nat.lt_or_ge i leader.storage.snapshotMeta.index with
          hcovered | hheld
        · apply hlacks leader.storage.snapshotMeta.index
            (Nat.lt_of_lt_of_le hi (Nat.le_of_lt hcovered)) (Nat.le_refl _)
            (Nat.le_trans hlowL hhighL)
          rw [h.term_of_covered (Or.inl (Nat.le_refl _))
            (Nat.le_trans hlowL hhighL) (Nat.le_trans hlowL hhigh)]
          exact hrun _ (Nat.le_of_lt hcovered) hlowL
        · apply hlacks i hi hheld hl
          rw [hequal]
          exact hrun i (Nat.le_refl _) hiprev

end Compared

/-!
# Exchanges in a row
-/

theorem nextFor_rewind (n : Node) (peer : NodeId) (conflictIndex : Nat)
    (conflictTerm : Option Nat) :
    (n.rewind peer conflictIndex conflictTerm).nextFor peer =
      n.rewound conflictIndex conflictTerm := by
  simp [Node.nextFor, Node.rewind, Table.insert]

/-- Inside its snapshot the leader sends a piece of it. -/
theorem exchange_none {sender peer : NodeId} {leader follower : Node}
    (h : leader.nextFor peer <= leader.storage.snapshotMeta.index) :
    exchange sender peer (leader, follower) = none := by
  unfold exchange Node.appendMessageFor
  dsimp only
  rw [if_pos h]

/-- Two nodes whose logs are compared, from an index that the leader's log goes up to,
or the one after it. -/
structure Rewinding (l r : List Entry) (peer : NodeId) (pair : Node × Node) :
    Prop where
  compared : Compared l r pair.1 pair.2
  low : 1 <= pair.1.nextFor peer
  high : pair.1.nextFor peer <= pair.1.lastIndex + 1

theorem Rewinding.refused {l r : List Entry} {sender peer : NodeId}
    {pair pair' : Node × Node} (h : Rewinding l r peer pair)
    (hsource : OneSource l r)
    (hrefused : exchange sender peer pair = some (false, pair')) :
    Rewinding l r peer pair' ∧
      pair'.1.nextFor peer < pair.1.nextFor peer ∧
      forall i, Agreed l r i -> i <= pair'.1.nextFor peer - 1 := by
  rcases pair with ⟨leader, follower⟩
  rcases h with ⟨hcompared, hlow, hhigh⟩
  dsimp only at hcompared hlow hhigh ⊢
  have hlast : leader.lastIndex = l.length := hcompared.shown.lastIndex
  have hpast : ¬ leader.nextFor peer <= leader.storage.snapshotMeta.index := by
    intro hinside
    rw [exchange_none hinside] at hrefused
    cases hrefused
  rcases exchange_cases sender follower hpast with
    ⟨_, haccepted⟩ |
      ⟨conflictIndex, conflictTerm, follower', hexchange, hstorage, hbase, hterm,
        hconflict⟩
  · rw [haccepted] at hrefused
    cases hrefused
  · rw [hexchange] at hrefused
    cases hrefused
    dsimp only
    have hheld : leader.storage.snapshotMeta.index <= leader.nextFor peer - 1 := by
      omega
    have hin : leader.nextFor peer - 1 <= l.length := by omega
    have hprev : leader.storage.termAt (leader.nextFor peer - 1) =
        some (wholeTerm l (leader.nextFor peer - 1)) := by
      unfold MemStorage.termAt
      rw [hcompared.shown.termAt, if_pos ⟨hheld, hin⟩]
    rw [hprev, Option.getD_some] at hterm
    have hrewound : leader.rewound conflictIndex conflictTerm <=
          leader.nextFor peer - 1 ∧
        forall i, Agreed l r i -> i < leader.rewound conflictIndex conflictTerm := by
      cases hconflict with
      | short hnone => exact hcompared.rewound_short hbase hnone
      | diverges t hsome =>
          apply hcompared.rewound_diverges hsource hheld hin hbase hsome
          intro heq
          rw [hsome, heq] at hterm
          exact hterm rfl
    rw [nextFor_rewind]
    have hpositive : 1 <= leader.rewound conflictIndex conflictTerm :=
      Nat.le_max_right _ _
    constructor
    · constructor
      · exact { hcompared with
          shown' := by
            rw [hstorage]
            exact hcompared.shown'
          covered := by
            rw [hstorage]
            exact hcompared.covered }
      · rw [nextFor_rewind]
        exact hpositive
      · rw [nextFor_rewind]
        show _ <= leader.lastIndex + 1
        omega
    · constructor
      · omega
      · intro i hagreed
        have hlt := hrewound.2 i hagreed
        omega

/-- Any number of refusals, each of which costs an index at least. -/
theorem Rewinding.after {l r : List Entry} {sender peer : NodeId}
    {first pair : Node × Node} (h : Rewinding l r peer first)
    (hsource : OneSource l r) {count : Nat}
    (hrefused : Refused sender peer first count pair) :
    Rewinding l r peer pair ∧
      pair.1.nextFor peer + count <= first.1.nextFor peer := by
  induction hrefused with
  | none => exact ⟨h, Nat.le_refl _⟩
  | more _ hmore ih =>
      rcases ih.1.refused hsource hmore with ⟨hnext, hless, _⟩
      exact ⟨hnext, by omega⟩

/-- No more refusals than indices. -/
theorem Rewinding.ends {l r : List Entry} {peer : NodeId}
    {first : Node × Node} (h : Rewinding l r peer first) (sender : NodeId)
    (hsource : OneSource l r) :
    exists count pair, Refused sender peer first count pair ∧
      (pair.1.nextFor peer <= pair.1.storage.snapshotMeta.index ∨
        exists pair', exchange sender peer pair = some (true, pair')) := by
  have hgoes : forall n, (exists count pair,
      Refused sender peer first count pair ∧
        (pair.1.nextFor peer <= pair.1.storage.snapshotMeta.index ∨
          exists pair', exchange sender peer pair = some (true, pair'))) ∨
      exists pair, Refused sender peer first n pair := by
    intro n
    induction n with
    | zero => exact Or.inr ⟨first, Refused.none⟩
    | succ n ih =>
        rcases ih with hended | ⟨pair, hpair⟩
        · exact Or.inl hended
        · by_cases hinside : pair.1.nextFor peer <=
              pair.1.storage.snapshotMeta.index
          · exact Or.inl ⟨n, pair, hpair, Or.inl hinside⟩
          · rcases exchange_cases sender pair.2 hinside with
              haccepted | ⟨_, _, follower', hexchange, _⟩
            · exact Or.inl ⟨n, pair, hpair, Or.inr haccepted⟩
            · exact Or.inr ⟨_, Refused.more hpair hexchange⟩
  rcases hgoes (first.1.nextFor peer) with hended | ⟨pair, hpair⟩
  · exact hended
  · rcases h.after hsource hpair with ⟨hnext, hcost⟩
    have hlow := hnext.low
    omega

/-- Of any two logs that can have come from leaders of their terms, in which snapshots
cover nothing that the logs disagree on, each refusal moves the leader back and never
behind the last entry that both have, and after fewer refusals than there are indices
the follower accepts, or has to be sent the snapshot. -/
theorem conflict_rewind_converges {l r : List Entry} {sender peer : NodeId}
    {leader follower : Node} (h : Compared l r leader follower)
    (hsource : OneSource l r) (hlow : 1 <= leader.nextFor peer)
    (hhigh : leader.nextFor peer <= leader.lastIndex + 1) :
    (forall count pair pair',
      Refused sender peer (leader, follower) count pair ->
      exchange sender peer pair = some (false, pair') ->
        pair'.1.nextFor peer < pair.1.nextFor peer ∧
        forall i, Agreed l r i -> i <= pair'.1.nextFor peer - 1) ∧
    exists count pair, count < leader.nextFor peer ∧
      Refused sender peer (leader, follower) count pair ∧
      (pair.1.nextFor peer <= pair.1.storage.snapshotMeta.index ∨
        exists pair', exchange sender peer pair = some (true, pair')) := by
  have hrewinding : Rewinding l r peer (leader, follower) := ⟨h, hlow, hhigh⟩
  constructor
  · intro count pair pair' hcount hrefused
    exact ((hrewinding.after hsource hcount).1.refused hsource hrefused).2
  · rcases hrewinding.ends sender hsource with ⟨count, pair, hcount, hend⟩
    rcases hrewinding.after hsource hcount with ⟨hnext, hcost⟩
    have hpositive := hnext.low
    exists count, pair
    constructor
    · exact Nat.lt_of_lt_of_le (by omega) hcost
    · exact ⟨hcount, hend⟩

/-!
# Some logs
-/

def entryOf (term index : Nat) : Entry :=
  { term := term, index := index, command := Command.noop }

def leaderOf (l : List Entry) (next : Nat) : Node :=
  { Node.withMembers 1 [] {} { log := { entries := l } } with
    nextIndex := Table.empty.insert 2 next }

def followerOf (r : List Entry) : Node :=
  Node.withMembers 2 [] {} { log := { entries := r } }

theorem shows_of_numbered {l : List Entry}
    (h : forall i, i < l.length -> forall e, e ∈ l[i]? -> e.index = i + 1) :
    Shows l { entries := l } := by
  constructor
  · intro i e he
    exact h i (List.getElem?_eq_some_iff.mp he).1 e he
  · exact Nat.zero_le _
  · rfl
  · rfl

theorem climbs_of_pairwise {l : List Entry}
    (h : l.Pairwise (fun d e => d.term <= e.term)) : Climbs l := by
  intro i j d e hij hd he
  rcases List.getElem?_eq_some_iff.mp hd with ⟨hi, rfl⟩
  rcases List.getElem?_eq_some_iff.mp he with ⟨hj, rfl⟩
  rcases Nat.lt_or_eq_of_le hij with hless | rfl
  · exact List.pairwise_iff_getElem.mp h i j hi hj hless
  · exact Nat.le_refl _

theorem compared_of_numbered {l r : List Entry} {next : Nat}
    (hl : forall i, i < l.length -> forall e, e ∈ l[i]? -> e.index = i + 1)
    (hr : forall i, i < r.length -> forall e, e ∈ r[i]? -> e.index = i + 1)
    (hclimbs : l.Pairwise (fun d e => d.term <= e.term))
    (hclimbs' : r.Pairwise (fun d e => d.term <= e.term))
    (hmatching : forall i, i < l.length -> forall d, d ∈ l[i]? ->
      forall e, e ∈ r[i]? -> d.term = e.term ->
        l.take (i + 1) = r.take (i + 1)) :
    Compared l r (leaderOf l next) (followerOf r) := by
  constructor
  · exact shows_of_numbered hl
  · exact shows_of_numbered hr
  · exact climbs_of_pairwise hclimbs
  · exact climbs_of_pairwise hclimbs'
  · intro i d e hd he hterm
    exact hmatching i (List.getElem?_eq_some_iff.mp hd).1 d hd e he hterm
  · intro i d e hcovered
    rcases hcovered with hnone | hnone
    · exact absurd hnone (Nat.not_lt_zero i)
    · exact absurd hnone (Nat.not_lt_zero i)

/-- The leader goes back over the end of a shorter log and then over a term that it
does not have. -/
theorem conflict_rewind_converges_past_a_term :
    (forall count pair pair',
      Refused 1 2 (leaderOf [entryOf 1 1, entryOf 1 2, entryOf 3 3] 4,
        followerOf [entryOf 1 1, entryOf 2 2]) count pair ->
      exchange 1 2 pair = some (false, pair') ->
        pair'.1.nextFor 2 < pair.1.nextFor 2 ∧
        forall i, Agreed [entryOf 1 1, entryOf 1 2, entryOf 3 3]
          [entryOf 1 1, entryOf 2 2] i -> i <= pair'.1.nextFor 2 - 1) ∧
    exists count pair, count < 4 ∧
      Refused 1 2 (leaderOf [entryOf 1 1, entryOf 1 2, entryOf 3 3] 4,
        followerOf [entryOf 1 1, entryOf 2 2]) count pair ∧
      (pair.1.nextFor 2 <= pair.1.storage.snapshotMeta.index ∨
        exists pair', exchange 1 2 pair = some (true, pair')) := by
  apply conflict_rewind_converges
  · apply compared_of_numbered
    · decide
    · decide
    · decide
    · decide
    · decide
  · have hfinite : forall i, i < 2 -> forall j, j < 3 -> i <= j ->
        forall d, d ∈ [entryOf 1 1, entryOf 2 2][i]? ->
        forall e, e ∈ [entryOf 1 1, entryOf 1 2, entryOf 3 3][j]? ->
          d.term = e.term ->
            [entryOf 1 1, entryOf 1 2, entryOf 3 3][i]? = some d := by
      decide
    intro i j d e hij hd he hterm
    exact hfinite i (List.getElem?_eq_some_iff.mp hd).1 j
      (List.getElem?_eq_some_iff.mp he).1 hij d hd e he hterm
  · decide
  · decide

/-- Logs in which an index and a term name one entry, but the follower has an entry of
the leader's last term before the leader's first one: the refusal leads forward. -/
theorem conflict_rewind_goes_forward :
    Compared [entryOf 1 1, entryOf 2 2] [entryOf 2 1]
        (leaderOf [entryOf 1 1, entryOf 2 2] 2) (followerOf [entryOf 2 1]) ∧
      1 <= (leaderOf [entryOf 1 1, entryOf 2 2] 2).nextFor 2 ∧
      (leaderOf [entryOf 1 1, entryOf 2 2] 2).nextFor 2 <=
        (leaderOf [entryOf 1 1, entryOf 2 2] 2).lastIndex + 1 ∧
      exists pair', exchange 1 2 (leaderOf [entryOf 1 1, entryOf 2 2] 2,
          followerOf [entryOf 2 1]) = some (false, pair') ∧
        (leaderOf [entryOf 1 1, entryOf 2 2] 2).nextFor 2 < pair'.1.nextFor 2 := by
  constructor
  · apply compared_of_numbered
    · decide
    · decide
    · decide
    · decide
    · decide
  · constructor
    · decide
    · constructor
      · decide
      · exact ⟨_, rfl, by decide⟩

end Raft
end Minicask
