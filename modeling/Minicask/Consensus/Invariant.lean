import Minicask.Consensus.Protocol

/-!
# The invariant of the agreement protocol

One invariant carries every safety property.  Its two central clauses say what
an acknowledgement is worth later on: a party that acknowledged a prefix of a
leader's record still holds it, in its log and in every ballot it cast, as long
as every leader in between holds it too.  Neither clause mentions a quorum, so
both can be kept step by step; leader completeness is then an induction over
terms that needs no further look at a run.
-/

namespace Consensus

/-- Every entry is the end of a prefix of its own term's record. -/
def Chained (S : Setting party entry) (a : History party entry)
    (l : List entry) : Prop :=
  forall i e, l[i]? = some e -> (exists c, a.leader (S.stamp e) = some c) ∧
    l.take (i + 1) <+: a.record (S.stamp e)

/-- Every leader between the two terms has the prefix in its record. -/
def HeldBetween (a : History party entry) (p : List entry) (T U : Nat) : Prop :=
  forall W c, T < W -> W <= U -> a.leader W = some c -> p <+: a.record W

structure Inv (S : Setting party entry) (a : History party entry) : Prop where
  voteTerm : forall v T c, a.vote v T = some c -> T <= a.term v
  ballotVote : forall v T l, a.ballot v T = some l -> exists c lc,
    a.vote v T = some c ∧ a.ballot c T = some lc ∧ S.UpToDate lc l
  voteBallot : forall v T c, a.vote v T = some c -> a.leader T = none ->
    exists l, a.ballot v T = some l
  ballotStamps : forall v T l, a.ballot v T = some l ->
    forall e, e ∈ l -> S.stamp e < T
  leaderTerm : forall T c, a.leader T = some c -> T <= a.term c
  leaderLog : forall T c, a.leader T = some c -> a.term c = T ->
    a.log c = a.record T
  leaderAck : forall T c, a.leader T = some c ->
    a.acked c T = (a.record T).length
  closed : forall T, a.leader T = none -> a.record T = [] ∧ a.round T = 0
  ackTerm : forall v T, 0 < a.acked v T -> T <= a.term v
  ackBound : forall v T, a.acked v T <= (a.record T).length
  elected : forall T c, a.leader T = some c -> S.Quorum (a.electors T) ∧
    forall v, v ∈ a.electors T -> a.vote v T = some c ∧ exists l,
      a.ballot v T = some l ∧ S.UpToDate ((a.record T).take (a.start T)) l
  startBound : forall T, a.start T <= (a.record T).length
  recordStamps : forall T i e, (a.record T)[i]? = some e ->
    (i < a.start T -> S.stamp e < T) ∧ (a.start T <= i -> S.stamp e = T)
  logStamps : forall v e, e ∈ a.log v -> S.stamp e <= a.term v
  chainedLog : forall v, Chained S a (a.log v)
  chainedRecord : forall T, Chained S a (a.record T)
  chainedBallot : forall v T l, a.ballot v T = some l -> Chained S a l
  recordFits : forall T i e, (a.record T)[i]? = some e -> S.fits i e
  kept : forall v T i, i <= a.acked v T ->
    HeldBetween a ((a.record T).take i) T (a.term v) ->
    (a.record T).take i <+: a.log v
  ballotKept : forall v T l, a.ballot v T = some l -> forall U i, U < T ->
    i <= a.acked v U ->
    HeldBetween a ((a.record U).take i) U (T - 1) ->
    (a.record U).take i <+: l
  commitQuorum : forall T, 0 < a.commit T -> exists e,
    (a.record T)[a.commit T - 1]? = some e ∧ S.stamp e = T ∧
      S.Quorum { v | a.commit T <= a.acked v T }
  heardBound : forall v T, a.heard v T <= a.round T
  heardTerm : forall v T, 0 < a.heard v T -> T <= a.term v

theorem inv_initial (S : Setting party entry) :
    Inv S (History.initial : History party entry) where
  voteTerm := by intro v T c h; cases h
  ballotVote := by intro v T l h; cases h
  voteBallot := by intro v T c h; cases h
  ballotStamps := by intro v T l h; cases h
  leaderTerm := by intro T c h; cases h
  leaderLog := by intro T c h; cases h
  leaderAck := by intro T c h; cases h
  closed := fun _ _ => ⟨rfl, rfl⟩
  ackTerm := by intro v T h; cases h
  ackBound := fun _ _ => Nat.zero_le _
  elected := by intro T c h; cases h
  startBound := fun _ => Nat.zero_le _
  recordStamps := by intro T i e h; cases h
  logStamps := by intro v e h; cases h
  chainedLog := by intro v i e h; cases h
  chainedRecord := by intro T i e h; cases h
  chainedBallot := by intro v T l h; cases h
  recordFits := by intro T i e h; cases h
  kept := by
    intro v T i hi _
    simp [History.initial]
  ballotKept := by intro v T l h; cases h
  commitQuorum := by intro T h; cases h
  heardBound := fun _ _ => Nat.zero_le _
  heardTerm := by intro v T h; cases h

/-!
# Facts read off the invariant
-/

section Facts

variable {S : Setting party entry} {a b : History party entry}

theorem Chained.mono {l : List entry} (h : Chained S a l)
    (hlead : forall T c, a.leader T = some c -> b.leader T = some c)
    (hrec : forall T, a.record T <+: b.record T) : Chained S b l := by
  intro i e hi
  rcases h i e hi with ⟨⟨c, hc⟩, hpre⟩
  exact ⟨⟨c, hlead _ c hc⟩, hpre.trans (hrec _)⟩

theorem Chained.take {l : List entry} (h : Chained S a l) (k : Nat) :
    Chained S a (l.take k) := by
  intro i e hi
  have hik : i < k := by
    by_contra hge
    rw [List.getElem?_take_eq_none (Nat.le_of_not_lt hge)] at hi
    cases hi
  rw [List.getElem?_take_of_lt hik] at hi
  rcases h i e hi with ⟨hlead, hpre⟩
  refine ⟨hlead, ?_⟩
  rw [List.take_take, Nat.min_eq_left hik]
  exact hpre

theorem Chained.getElem?_record {l : List entry} (h : Chained S a l) {i : Nat}
    {e : entry} (hi : l[i]? = some e) : (a.record (S.stamp e))[i]? = some e := by
  apply getElem?_of_prefix (h i e hi).2
  rw [List.getElem?_take_of_lt (Nat.lt_succ_self i)]
  exact hi

/-- Two chained logs that carry the same stamp somewhere agree up to there. -/
theorem Chained.agree {l r : List entry} (hl : Chained S a l)
    (hr : Chained S a r) {k : Nat} (hkl : k <= l.length) (hkr : k <= r.length)
    (hstamp : S.stampAt l k = S.stampAt r k) : l.take k = r.take k := by
  cases k with
  | zero => rfl
  | succ i =>
      have hd : l[i]? = some l[i] := List.getElem?_eq_getElem hkl
      have he : r[i]? = some r[i] := List.getElem?_eq_getElem hkr
      rw [S.stampAt_succ_of_getElem? hd, S.stampAt_succ_of_getElem? he] at hstamp
      have hpre := (hl i _ hd).2
      rw [hstamp] at hpre
      have hlen : (l.take (i + 1)).length = (r.take (i + 1)).length := by
        rw [List.length_take, List.length_take]
        omega
      exact (List.prefix_of_prefix_length_le hpre (hr i _ he).2
        (Nat.le_of_eq hlen)).eq_of_length hlen

theorem Inv.chained_fits (h : Inv S a) {l : List entry} (hl : Chained S a l)
    {i : Nat} {e : entry} (hi : l[i]? = some e) : S.fits i e :=
  h.recordFits _ i e (hl.getElem?_record hi)

theorem Inv.stamp_le_of_mem_record (h : Inv S a) {T : Nat} {e : entry}
    (he : e ∈ a.record T) : S.stamp e <= T := by
  rcases List.mem_iff_getElem?.mp he with ⟨i, hi⟩
  by_cases hstart : i < a.start T
  · exact Nat.le_of_lt ((h.recordStamps T i e hi).1 hstart)
  · exact Nat.le_of_eq ((h.recordStamps T i e hi).2 (Nat.le_of_not_lt hstart))

/-- Stamps never decrease along a chained log. -/
theorem Inv.stamp_mono (h : Inv S a) {l : List entry} (hl : Chained S a l)
    {i j : Nat} {d e : entry} (hij : i <= j) (hi : l[i]? = some d)
    (hj : l[j]? = some e) : S.stamp d <= S.stamp e := by
  have hpre := (hl j e hj).2
  have hd : d ∈ l.take (j + 1) := by
    apply List.mem_iff_getElem?.mpr
    exact ⟨i, by rw [List.getElem?_take_of_lt (by omega)]; exact hi⟩
  exact h.stamp_le_of_mem_record (hpre.subset hd)

theorem Inv.acked_eq_zero_of_open (h : Inv S a) {T : Nat}
    (hopen : a.leader T = none) (v : party) : a.acked v T = 0 := by
  have hb := h.ackBound v T
  rw [(h.closed T hopen).1] at hb
  simpa using hb

theorem Inv.acked_eq_zero_of_term_lt (h : Inv S a) {v : party} {T : Nat}
    (hT : a.term v < T) : a.acked v T = 0 := by
  by_contra hne
  exact absurd (h.ackTerm v T (Nat.pos_of_ne_zero hne)) (by omega)

theorem Inv.ballot_term_le (h : Inv S a) {v : party} {T : Nat}
    {l : List entry} (hl : a.ballot v T = some l) : T <= a.term v := by
  rcases h.ballotVote v T l hl with ⟨c, _, hc, _⟩
  exact h.voteTerm v T c hc

theorem Inv.ballot_eq_none_of_free (h : Inv S a) {v : party} {T : Nat}
    (hfree : a.vote v T = none) : a.ballot v T = none := by
  cases hb : a.ballot v T with
  | none => rfl
  | some l =>
      rcases h.ballotVote v T l hb with ⟨c, _, hc, _⟩
      rw [hfree] at hc
      cases hc

/-- No log of a term without a leader holds an entry of that term. -/
theorem Inv.logStamps_of_open (h : Inv S a) {v : party}
    (hopen : a.leader (a.term v) = none) {e : entry} (he : e ∈ a.log v) :
    S.stamp e < a.term v := by
  rcases Nat.lt_or_eq_of_le (h.logStamps v e he) with hlt | heq
  · exact hlt
  · rcases List.mem_iff_getElem?.mp he with ⟨i, hi⟩
    rcases (h.chainedLog v i e hi).1 with ⟨c, hc⟩
    rw [heq, hopen] at hc
    cases hc

theorem HeldBetween.anti {p : List entry} {T U : Nat}
    (h : HeldBetween b p T U)
    (hlead : forall W c, a.leader W = some c -> b.leader W = some c)
    (hrec : forall W, T < W -> p <+: b.record W ->
      (exists c, a.leader W = some c) -> p <+: a.record W) :
    HeldBetween a p T U := by
  intro W c hTW hWU hW
  exact hrec W hTW (h W c hTW hWU (hlead W c hW)) ⟨c, hW⟩

end Facts

end Consensus
