import Minicask.Consensus.Invariant

/-!
# Every step keeps the invariant

One lemma for each kind of step.  Each restates only the clauses that mention
what the step writes.
-/

namespace Consensus

variable [DecidableEq party] {S : Setting party entry}
  {a : History party entry} {v : party}

theorem Inv.bump (h : Inv S a) {T : Nat} (hT : a.term v < T) :
    Inv S { a with term := Function.update a.term v T } := by
  have hmono : forall w, a.term w <= Function.update a.term v T w := by
    intro w
    by_cases hw : w = v
    · rw [hw, Function.update_self]
      exact Nat.le_of_lt hT
    · rw [Function.update_of_ne hw]
  exact { h with
    voteTerm := fun w U c hc => (h.voteTerm w U c hc).trans (hmono w)
    leaderTerm := fun U c hc => (h.leaderTerm U c hc).trans (hmono c)
    leaderLog := by
      intro U c hc hterm
      dsimp only at *
      by_cases hcv : c = v
      · have hle := h.leaderTerm U c hc
        rw [hcv] at hle hterm
        rw [Function.update_self] at hterm
        omega
      · rw [Function.update_of_ne hcv] at hterm
        exact h.leaderLog U c hc hterm
    ackTerm := fun w U hpos => (h.ackTerm w U hpos).trans (hmono w)
    logStamps := fun w e he => (h.logStamps w e he).trans (hmono w)
    kept := by
      intro w U i hi hheld
      dsimp only at *
      apply h.kept w U i hi
      intro W c hUW hWw hW
      exact hheld W c hUW (hWw.trans (hmono w)) hW
    heardTerm := fun w U hpos => (h.heardTerm w U hpos).trans (hmono w) }

/-!
# Votes
-/

theorem Inv.voteTerm_setCell (h : Inv S a) (c w : party) (U : Nat) (d : party)
    (hd : setCell a.vote v (a.term v) (some c) w U = some d) : U <= a.term w := by
  unfold setCell at hd
  split at hd
  · next hc => rw [hc.left, hc.right]
  · exact h.voteTerm w U d hd

/-- A vote cast in a term without a leader, for a candidate whose ballot is at
least as up to date as the voter's log. -/
theorem Inv.cast (h : Inv S a) {c : party} {l : List entry}
    (hfree : a.vote v (a.term v) = none)
    (hopen : a.leader (a.term v) = none)
    (hballot : setCell a.ballot v (a.term v) (some (a.log v)) c (a.term v) =
      some l)
    (hup : S.UpToDate l (a.log v)) :
    Inv S { a with
      vote := setCell a.vote v (a.term v) (some c)
      ballot := setCell a.ballot v (a.term v) (some (a.log v)) } := by
  have hnone := h.ballot_eq_none_of_free hfree
  have hvote : forall w U d, a.vote w U = some d ->
      setCell a.vote v (a.term v) (some c) w U = some d :=
    fun _ _ _ hd => setCell_of_some hfree _ hd
  have hkeep : forall w U k, a.ballot w U = some k ->
      setCell a.ballot v (a.term v) (some (a.log v)) w U = some k :=
    fun _ _ _ hk => setCell_of_some hnone _ hk
  -- A ballot in the new history is an old one, or the one just cast.
  have hcases : forall w U k,
      setCell a.ballot v (a.term v) (some (a.log v)) w U = some k ->
      a.ballot w U = some k ∨ (w = v ∧ U = a.term v ∧ k = a.log v) := by
    intro w U k hk
    unfold setCell at hk
    split at hk
    · next hc =>
        exact Or.inr ⟨hc.left, hc.right, (Option.some.inj hk).symm⟩
    · exact Or.inl hk
  exact { h with
    voteTerm := h.voteTerm_setCell c
    ballotVote := by
      intro w U k hk
      dsimp only at *
      rcases hcases w U k hk with hold | ⟨hw, hU, hkl⟩
      · rcases h.ballotVote w U k hold with ⟨d, ld, hd, hld, hupd⟩
        exact ⟨d, ld, hvote w U d hd, hkeep d U ld hld, hupd⟩
      · subst hw hU hkl
        exact ⟨c, l, by simp, hballot, hup⟩
    voteBallot := by
      intro w U d hd hU
      dsimp only at *
      by_cases hc : w = v ∧ U = a.term v
      · rw [hc.left, hc.right]
        exact ⟨a.log v, setCell_self _ _ _ _⟩
      · simp only [setCell, hc, if_false] at hd ⊢
        exact h.voteBallot w U d hd hU
    ballotStamps := by
      intro w U k hk e he
      dsimp only at *
      rcases hcases w U k hk with hold | ⟨hw, hU, hkl⟩
      · exact h.ballotStamps w U k hold e he
      · subst hw hU hkl
        exact h.logStamps_of_open hopen he
    elected := by
      intro U d hd
      dsimp only at *
      rcases h.elected U d hd with ⟨hq, hall⟩
      refine ⟨hq, ?_⟩
      intro w hw
      rcases hall w hw with ⟨hwv, k, hk, hupk⟩
      exact ⟨hvote w U d hwv, k, hkeep w U k hk, hupk⟩
    chainedBallot := by
      intro w U k hk
      dsimp only at *
      rcases hcases w U k hk with hold | ⟨_, _, hkl⟩
      · exact h.chainedBallot w U k hold
      · rw [hkl]
        exact h.chainedLog v
    ballotKept := by
      intro w U k hk W i hWU hi hheld
      dsimp only at *
      rcases hcases w U k hk with hold | ⟨hw, hU, hkl⟩
      · exact h.ballotKept w U k hold W i hWU hi hheld
      · subst hw hU hkl
        apply h.kept w W i hi
        intro X d hWX hX hd
        rcases Nat.lt_or_eq_of_le hX with hlt | heq
        · exact hheld X d hWX (by omega) hd
        · rw [heq, hopen] at hd
          cases hd }

theorem Inv.lateVote (h : Inv S a) {c : party}
    (hfree : a.vote v (a.term v) = none)
    (hclosed : a.leader (a.term v) ≠ none) :
    Inv S { a with vote := setCell a.vote v (a.term v) (some c) } := by
  have hvote : forall w U d, a.vote w U = some d ->
      setCell a.vote v (a.term v) (some c) w U = some d :=
    fun _ _ _ hd => setCell_of_some hfree _ hd
  exact { h with
    voteTerm := h.voteTerm_setCell c
    ballotVote := by
      intro w U k hk
      dsimp only at *
      rcases h.ballotVote w U k hk with ⟨d, ld, hd, hld, hupd⟩
      exact ⟨d, ld, hvote w U d hd, hld, hupd⟩
    voteBallot := by
      intro w U d hd hU
      dsimp only at *
      have hc : ¬ (w = v ∧ U = a.term v) := by
        intro hc
        rw [hc.right] at hU
        exact hclosed hU
      simp only [setCell, hc, if_false] at hd
      exact h.voteBallot w U d hd hU
    elected := by
      intro U d hd
      dsimp only at *
      rcases h.elected U d hd with ⟨hq, hall⟩
      refine ⟨hq, ?_⟩
      intro w hw
      rcases hall w hw with ⟨hwv, hk⟩
      exact ⟨hvote w U d hwv, hk⟩ }

/-!
# Elections
-/

theorem Inv.elect (h : Inv S a) {E : Set party}
    (hopen : a.leader (a.term v) = none)
    (hballot : a.ballot v (a.term v) = some (a.log v))
    (hquorum : S.Quorum E)
    (hvotes : forall w, w ∈ E -> a.vote w (a.term v) = some v ∧
      exists l, a.ballot w (a.term v) = some l) :
    Inv S { a with
      leader := Function.update a.leader (a.term v) (some v)
      electors := Function.update a.electors (a.term v) E
      record := Function.update a.record (a.term v) (a.log v)
      start := Function.update a.start (a.term v) (a.log v).length
      acked := setCell a.acked v (a.term v) (a.log v).length } := by
  have hlead : forall U c, a.leader U = some c ->
      Function.update a.leader (a.term v) (some v) U = some c := by
    intro U c hc
    by_cases hU : U = a.term v
    · rw [hU, hopen] at hc
      cases hc
    · rw [Function.update_of_ne hU]
      exact hc
  have hrec : forall U,
      a.record U <+: Function.update a.record (a.term v) (a.log v) U := by
    intro U
    by_cases hU : U = a.term v
    · rw [hU, (h.closed _ hopen).1]
      exact List.nil_prefix
    · rw [Function.update_of_ne hU]
  -- Only the new leader has acknowledged anything in the new term.
  have hacked : forall w U, U ≠ a.term v ->
      setCell a.acked v (a.term v) (a.log v).length w U = a.acked w U :=
    fun w U hU => setCell_of_ne_term _ _ _ _ hU
  have hheldOld : forall {p : List entry} {U W : Nat},
      HeldBetween { a with
        leader := Function.update a.leader (a.term v) (some v)
        electors := Function.update a.electors (a.term v) E
        record := Function.update a.record (a.term v) (a.log v)
        start := Function.update a.start (a.term v) (a.log v).length
        acked := setCell a.acked v (a.term v) (a.log v).length } p U W ->
      HeldBetween a p U W := by
    intro p U W hheld
    apply hheld.anti hlead
    intro X _ hX hc
    rcases hc with ⟨c, hc⟩
    have hXne : X ≠ a.term v := by
      intro heq
      rw [heq, hopen] at hc
      cases hc
    simpa only [Function.update_of_ne hXne] using hX
  exact { h with
    leaderTerm := by
      intro U c hc
      dsimp only at *
      by_cases hU : U = a.term v
      · rw [hU, Function.update_self] at hc
        rw [hU, Option.some.inj hc]
      · rw [Function.update_of_ne hU] at hc
        exact h.leaderTerm U c hc
    leaderLog := by
      intro U c hc hterm
      dsimp only at *
      by_cases hU : U = a.term v
      · rw [hU, Function.update_self] at hc
        rw [hU, Function.update_self, Option.some.inj hc]
      · rw [Function.update_of_ne hU] at hc ⊢
        exact h.leaderLog U c hc hterm
    voteBallot := by
      intro w U c hc hU
      dsimp only at *
      by_cases hUv : U = a.term v
      · rw [hUv, Function.update_self] at hU
        cases hU
      · rw [Function.update_of_ne hUv] at hU
        exact h.voteBallot w U c hc hU
    leaderAck := by
      intro U c hc
      dsimp only at *
      by_cases hU : U = a.term v
      · rw [hU, Function.update_self] at hc
        rw [hU, Function.update_self, ← Option.some.inj hc, setCell_self]
      · rw [Function.update_of_ne hU] at hc ⊢
        rw [hacked c U hU]
        exact h.leaderAck U c hc
    closed := by
      intro U hU
      dsimp only at *
      by_cases hUv : U = a.term v
      · rw [hUv, Function.update_self] at hU
        cases hU
      · rw [Function.update_of_ne hUv] at hU ⊢
        exact h.closed U hU
    ackTerm := by
      intro w U hpos
      dsimp only at *
      by_cases hc : w = v ∧ U = a.term v
      · rw [hc.left, hc.right]
      · simp only [setCell, hc, if_false] at hpos
        exact h.ackTerm w U hpos
    ackBound := by
      intro w U
      dsimp only at *
      by_cases hU : U = a.term v
      · subst hU
        rw [Function.update_self]
        unfold setCell
        split
        · exact le_refl _
        · rw [h.acked_eq_zero_of_open hopen w]
          exact Nat.zero_le _
      · rw [hacked w U hU, Function.update_of_ne hU]
        exact h.ackBound w U
    elected := by
      intro U c hc
      dsimp only at *
      by_cases hU : U = a.term v
      · subst hU
        rw [Function.update_self] at hc
        have hcv := Option.some.inj hc
        subst hcv
        rw [Function.update_self, Function.update_self, Function.update_self]
        refine ⟨hquorum, ?_⟩
        intro w hw
        rcases hvotes w hw with ⟨hwv, l, hl⟩
        refine ⟨hwv, l, hl, ?_⟩
        rcases h.ballotVote w _ l hl with ⟨c, lc, hc', hlc, hup⟩
        rw [hwv] at hc'
        have hcv := Option.some.inj hc'
        subst hcv
        rw [hballot] at hlc
        rw [List.take_length, Option.some.inj hlc]
        exact hup
      · rw [Function.update_of_ne hU] at hc
        rw [Function.update_of_ne hU, Function.update_of_ne hU,
          Function.update_of_ne hU]
        exact h.elected U c hc
    startBound := by
      intro U
      dsimp only at *
      by_cases hU : U = a.term v
      · rw [hU, Function.update_self, Function.update_self]
      · rw [Function.update_of_ne hU, Function.update_of_ne hU]
        exact h.startBound U
    recordStamps := by
      intro U i e hi
      dsimp only at *
      by_cases hU : U = a.term v
      · subst hU
        rw [Function.update_self] at hi
        rw [Function.update_self]
        have hlt := (List.getElem?_eq_some_iff.mp hi).1
        constructor
        · intro _
          exact h.logStamps_of_open hopen (List.mem_of_getElem? hi)
        · intro hge
          omega
      · rw [Function.update_of_ne hU] at hi
        rw [Function.update_of_ne hU]
        exact h.recordStamps U i e hi
    chainedLog := fun w => (h.chainedLog w).mono hlead hrec
    chainedRecord := by
      intro U
      dsimp only at *
      by_cases hU : U = a.term v
      · simp only [hU, Function.update_self]
        exact (h.chainedLog v).mono hlead hrec
      · simp only [Function.update_of_ne hU]
        exact (h.chainedRecord U).mono hlead hrec
    chainedBallot := fun w U l hl => (h.chainedBallot w U l hl).mono hlead hrec
    recordFits := by
      intro U i e hi
      dsimp only at *
      by_cases hU : U = a.term v
      · rw [hU, Function.update_self] at hi
        exact h.recordFits _ i e ((h.chainedLog v).getElem?_record hi)
      · rw [Function.update_of_ne hU] at hi
        exact h.recordFits U i e hi
    kept := by
      intro w U i hi hheld
      dsimp only at *
      by_cases hU : U = a.term v
      · subst hU
        simp only [Function.update_self] at hheld ⊢
        by_cases hw : w = v
        · rw [hw]
          exact List.take_prefix _ _
        · rw [setCell_of_ne_party _ _ hw, h.acked_eq_zero_of_open hopen w] at hi
          rw [Nat.le_zero.mp hi]
          exact List.nil_prefix
      · rw [hacked w U hU] at hi
        simp only [Function.update_of_ne hU] at hheld ⊢
        exact h.kept w U i hi (hheldOld hheld)
    ballotKept := by
      intro w U l hl W i hWU hi hheld
      dsimp only at *
      by_cases hW : W = a.term v
      · subst hW
        simp only [Function.update_self] at hheld ⊢
        by_cases hw : w = v
        · have hle := h.ballot_term_le hl
          rw [hw] at hle
          omega
        · rw [setCell_of_ne_party _ _ hw, h.acked_eq_zero_of_open hopen w] at hi
          rw [Nat.le_zero.mp hi]
          exact List.nil_prefix
      · rw [hacked w W hW] at hi
        simp only [Function.update_of_ne hW] at hheld ⊢
        exact h.ballotKept w U l hl W i hWU hi (hheldOld hheld)
    commitQuorum := by
      intro U hpos
      dsimp only at *
      rcases h.commitQuorum U hpos with ⟨e, he, hstamp, hq⟩
      have hU : U ≠ a.term v := by
        intro heq
        rw [heq, (h.closed _ hopen).1] at he
        cases he
      rw [Function.update_of_ne hU]
      refine ⟨e, he, hstamp, ?_⟩
      apply S.quorum_mono _ hq
      intro w hw
      rw [Set.mem_ofPred_eq, hacked w U hU]
      exact hw }

/-!
# Appends

The leader's log and its record grow by the same entry.  An entry of the present
term can be in no earlier record, which is what keeps earlier promises intact.
-/

omit [DecidableEq party] in
theorem Inv.not_prefix_append (h : Inv S a) {T U i : Nat} {e : entry}
    (hlt : U < T) (hstamp : S.stamp e = T)
    (hpre : (a.record U).take i <+: a.record T ++ [e]) :
    (a.record U).take i <+: a.record T := by
  by_cases hlen : ((a.record U).take i).length <= (a.record T).length
  · exact List.prefix_of_prefix_length_le hpre (List.prefix_append _ _) hlen
  · exfalso
    have hle := hpre.length_le
    simp only [List.length_append, List.length_singleton] at hle
    have hfull : ((a.record U).take i).length =
        (a.record T ++ [e]).length := by
      simp only [List.length_append, List.length_singleton]
      omega
    have heq := hpre.eq_of_length hfull
    have hmem : e ∈ (a.record U).take i := by
      rw [heq]
      simp
    have := h.stamp_le_of_mem_record (List.mem_of_mem_take hmem)
    omega

theorem Inv.append (h : Inv S a) {e : entry}
    (hlead : a.leader (a.term v) = some v)
    (hstamp : S.stamp e = a.term v)
    (hfits : S.fits (a.log v).length e) : Inv S (a.extend v e) := by
  have hlog : a.log v = a.record (a.term v) := h.leaderLog _ v hlead rfl
  have hrec : forall U, a.record U <+:
      Function.update a.record (a.term v) (a.log v ++ [e]) U := by
    intro U
    by_cases hU : U = a.term v
    · rw [hU, Function.update_self, hlog]
      exact List.prefix_append _ _
    · rw [Function.update_of_ne hU]
  have hacked : forall w U, ¬ (w = v ∧ U = a.term v) ->
      setCell a.acked v (a.term v) ((a.log v).length + 1) w U = a.acked w U := by
    intro w U hc
    simp only [setCell, hc, if_false]
  -- What was acknowledged before is read the same from the longer record.
  have htake : forall w U i, i <= a.acked w U ->
      (Function.update a.record (a.term v) (a.log v ++ [e]) U).take i =
        (a.record U).take i := by
    intro w U i hi
    have hbound := h.ackBound w U
    by_cases hU : U = a.term v
    · subst hU
      rw [Function.update_self, hlog,
        List.take_append_of_le_length (hi.trans hbound)]
    · rw [Function.update_of_ne hU]
  have hheldOld : forall {i U W : Nat},
      HeldBetween (a.extend v e) ((a.record U).take i) U W ->
      HeldBetween a ((a.record U).take i) U W := by
    intro i U W hheld X c hUX hXW hc
    have hX := hheld X c hUX hXW hc
    simp only [History.extend] at hX
    by_cases hXv : X = a.term v
    · subst hXv
      simp only [Function.update_self, hlog] at hX
      exact h.not_prefix_append hUX hstamp hX
    · simpa only [Function.update_of_ne hXv] using hX
  have hmono : forall {l : List entry}, Chained S a l ->
      Chained S (a.extend v e) l :=
    fun hl => hl.mono (b := a.extend v e) (fun _ _ hc => hc) hrec
  have hchain : Chained S (a.extend v e) (a.log v ++ [e]) := by
    intro i d hi
    rcases Nat.lt_or_ge i (a.log v).length with hlt | hge
    · have hold : (a.log v)[i]? = some d := by
        rw [List.getElem?_append_left hlt] at hi
        exact hi
      rcases hmono (h.chainedLog v) i d hold with ⟨hc, hpre⟩
      refine ⟨hc, ?_⟩
      rw [List.take_append_of_le_length hlt]
      exact hpre
    · have hmem := List.getElem?_append_right hge ▸ hi
      have hzero : i - (a.log v).length = 0 := by
        by_contra hne
        rw [List.getElem?_eq_none (by simp; omega)] at hmem
        cases hmem
      rw [hzero] at hmem
      have hd : e = d := by simpa using hmem
      subst hd
      refine ⟨⟨v, by rw [hstamp]; exact hlead⟩, ?_⟩
      simp only [History.extend, hstamp, Function.update_self]
      exact List.take_prefix _ _
  exact { h with
    leaderLog := by
      intro U c hc hterm
      dsimp only [History.extend] at *
      by_cases hcv : c = v
      · subst hcv
        rw [← hterm, Function.update_self, Function.update_self]
      · have hU : U ≠ a.term v := by
          intro heq
          rw [heq, hlead] at hc
          exact hcv (Option.some.inj hc).symm
        rw [Function.update_of_ne hcv, Function.update_of_ne hU]
        exact h.leaderLog U c hc hterm
    leaderAck := by
      intro U c hc
      dsimp only [History.extend] at *
      by_cases hU : U = a.term v
      · rw [hU, hlead] at hc
        rw [hU, ← Option.some.inj hc, setCell_self, Function.update_self]
        simp
      · rw [Function.update_of_ne hU, hacked c U (fun hcv => hU hcv.right)]
        exact h.leaderAck U c hc
    closed := by
      intro U hU
      dsimp only [History.extend] at *
      have hUv : U ≠ a.term v := by
        intro heq
        rw [heq, hlead] at hU
        cases hU
      rw [Function.update_of_ne hUv]
      exact h.closed U hU
    ackTerm := by
      intro w U hpos
      dsimp only [History.extend] at *
      by_cases hc : w = v ∧ U = a.term v
      · rw [hc.left, hc.right]
      · rw [hacked w U hc] at hpos
        exact h.ackTerm w U hpos
    ackBound := by
      intro w U
      dsimp only [History.extend] at *
      by_cases hc : w = v ∧ U = a.term v
      · rw [hc.left, hc.right, setCell_self, Function.update_self]
        simp
      · rw [hacked w U hc]
        exact (h.ackBound w U).trans (hrec U).length_le
    elected := by
      intro U c hc
      dsimp only [History.extend] at *
      rcases h.elected U c hc with ⟨hq, hall⟩
      refine ⟨hq, ?_⟩
      intro w hw
      rcases hall w hw with ⟨hwv, l, hl, hup⟩
      refine ⟨hwv, l, hl, ?_⟩
      have hstart := h.startBound U
      rcases hrec U with ⟨tail, htail⟩
      rw [← htail, List.take_append_of_le_length hstart]
      exact hup
    startBound := fun U => (h.startBound U).trans (hrec U).length_le
    recordStamps := by
      intro U i d hi
      dsimp only [History.extend] at *
      by_cases hU : U = a.term v
      · subst hU
        rw [Function.update_self, hlog] at hi
        rcases Nat.lt_or_ge i (a.record (a.term v)).length with hlt | hge
        · rw [List.getElem?_append_left hlt] at hi
          exact h.recordStamps _ i d hi
        · have hstart := h.startBound (a.term v)
          have hd : d ∈ [e] := by
            rw [List.getElem?_append_right hge] at hi
            exact List.mem_of_getElem? hi
          rw [List.mem_singleton.mp hd]
          exact ⟨by intro; omega, fun _ => hstamp⟩
      · rw [Function.update_of_ne hU] at hi
        exact h.recordStamps U i d hi
    logStamps := by
      intro w d hd
      dsimp only [History.extend] at *
      by_cases hw : w = v
      · rw [hw, Function.update_self] at hd
        rw [hw]
        rcases List.mem_append.mp hd with hold | hnew
        · exact h.logStamps v d hold
        · rw [List.mem_singleton.mp hnew, hstamp]
      · rw [Function.update_of_ne hw] at hd
        exact h.logStamps w d hd
    chainedLog := by
      intro w
      dsimp only [History.extend] at *
      by_cases hw : w = v
      · rw [hw, Function.update_self]
        exact hchain
      · rw [Function.update_of_ne hw]
        exact hmono (h.chainedLog w)
    chainedRecord := by
      intro U
      dsimp only [History.extend] at *
      by_cases hU : U = a.term v
      · rw [hU, Function.update_self]
        exact hchain
      · rw [Function.update_of_ne hU]
        exact hmono (h.chainedRecord U)
    chainedBallot := fun w U l hl => hmono (h.chainedBallot w U l hl)
    recordFits := by
      intro U i d hi
      dsimp only [History.extend] at *
      by_cases hU : U = a.term v
      · rw [hU, Function.update_self] at hi
        rcases Nat.lt_or_ge i (a.log v).length with hlt | hge
        · rw [List.getElem?_append_left hlt, hlog] at hi
          exact h.recordFits _ i d hi
        · have hlt := (List.getElem?_eq_some_iff.mp hi).1
          simp only [List.length_append, List.length_singleton] at hlt
          have hieq : i = (a.log v).length := by omega
          rw [List.getElem?_append_right hge] at hi
          rw [List.mem_singleton.mp (List.mem_of_getElem? hi), hieq]
          exact hfits
      · rw [Function.update_of_ne hU] at hi
        exact h.recordFits U i d hi
    kept := by
      intro w U i hi hheld
      dsimp only [History.extend] at *
      by_cases hc : w = v ∧ U = a.term v
      · rw [hc.left, hc.right, Function.update_self, Function.update_self]
        exact List.take_prefix _ _
      · rw [hacked w U hc] at hi
        rw [htake w U i hi] at hheld ⊢
        have hold := h.kept w U i hi (hheldOld hheld)
        by_cases hw : w = v
        · rw [hw, Function.update_self]
          rw [hw] at hold
          exact hold.trans (List.prefix_append _ _)
        · rw [Function.update_of_ne hw]
          exact hold
    ballotKept := by
      intro w U l hl W i hWU hi hheld
      dsimp only [History.extend] at *
      by_cases hc : w = v ∧ W = a.term v
      · have hle := h.ballot_term_le hl
        rw [hc.left] at hle
        omega
      · rw [hacked w W hc] at hi
        rw [htake w W i hi] at hheld ⊢
        exact h.ballotKept w U l hl W i hWU hi (hheldOld hheld)
    commitQuorum := by
      intro U hpos
      dsimp only [History.extend] at *
      rcases h.commitQuorum U hpos with ⟨d, hd, hdstamp, hq⟩
      refine ⟨d, getElem?_of_prefix (hrec U) hd, hdstamp, ?_⟩
      apply S.quorum_mono _ hq
      intro w hw
      rw [Set.mem_ofPred_eq] at hw ⊢
      by_cases hc : w = v ∧ U = a.term v
      · have hbound := h.ackBound w U
        rw [hc.left, hc.right] at hw hbound ⊢
        rw [setCell_self, hlog]
        omega
      · rw [hacked w U hc]
        exact hw }

/-!
# Acknowledgements

Acknowledging a prefix adds one promise.  The clauses that only count promises
are the same whether the party kept its log or took the leader's.
-/

section Acknowledge

variable {k : Nat}

theorem Inv.ackTerm_max (h : Inv S a) (w : party) (U : Nat)
    (hpos : 0 < setCell a.acked v (a.term v)
      (max (a.acked v (a.term v)) k) w U) : U <= a.term w := by
  by_cases hc : w = v ∧ U = a.term v
  · rw [hc.left, hc.right]
  · simp only [setCell, hc, if_false] at hpos
    exact h.ackTerm w U hpos

theorem Inv.ackBound_max (h : Inv S a)
    (hk : k <= (a.record (a.term v)).length) (w : party) (U : Nat) :
    setCell a.acked v (a.term v) (max (a.acked v (a.term v)) k) w U <=
      (a.record U).length := by
  rcases setCell_max_cases a.acked v w (a.term v) U k _ (le_refl _) with
    hold | ⟨_, hU, hnew⟩
  · exact hold.trans (h.ackBound w U)
  · rw [hU] at hnew ⊢
    exact hnew.trans hk

theorem Inv.leaderAck_max (h : Inv S a)
    (hk : k <= (a.record (a.term v)).length) (U : Nat) (c : party)
    (hc : a.leader U = some c) :
    setCell a.acked v (a.term v) (max (a.acked v (a.term v)) k) c U =
      (a.record U).length := by
  have hupper := h.ackBound_max hk c U
  have hlower := le_setCell_max a.acked v c (a.term v) U k
  rw [h.leaderAck U c hc] at hlower
  omega

theorem Inv.ballotKept_max (h : Inv S a) {w : party} {U : Nat}
    {l : List entry} (hl : a.ballot w U = some l) {W i : Nat} (hWU : W < U)
    (hi : i <= setCell a.acked v (a.term v)
      (max (a.acked v (a.term v)) k) w W)
    (hheld : HeldBetween a ((a.record W).take i) W (U - 1)) :
    (a.record W).take i <+: l := by
  rcases setCell_max_cases a.acked v w (a.term v) W k i hi with
    hold | ⟨hw, hW, _⟩
  · exact h.ballotKept w U l hl W i hWU hold hheld
  · have hle := h.ballot_term_le hl
    rw [hw] at hle
    omega

theorem Inv.commitQuorum_max (h : Inv S a) (U : Nat) (hpos : 0 < a.commit U) :
    exists e, (a.record U)[a.commit U - 1]? = some e ∧ S.stamp e = U ∧
      S.Quorum { w | a.commit U <= setCell a.acked v (a.term v)
        (max (a.acked v (a.term v)) k) w U } := by
  rcases h.commitQuorum U hpos with ⟨d, hd, hdstamp, hq⟩
  refine ⟨d, hd, hdstamp, ?_⟩
  apply S.quorum_mono _ hq
  intro w hw
  exact le_trans hw (le_setCell_max a.acked v w (a.term v) U k)

end Acknowledge

theorem Inv.confirm (h : Inv S a) {k : Nat}
    (hk : k <= (a.record (a.term v)).length)
    (hheld : (a.record (a.term v)).take k <+: a.log v) :
    Inv S { a with
      acked := setCell a.acked v (a.term v)
        (max (a.acked v (a.term v)) k) } :=
  { h with
    leaderAck := fun U d hd => h.leaderAck_max hk U d hd
    ackTerm := fun w U hpos => h.ackTerm_max w U hpos
    ackBound := fun w U => h.ackBound_max hk w U
    kept := by
      intro w U i hi hbetween
      dsimp only at *
      rcases setCell_max_cases a.acked v w (a.term v) U k i hi with
        hold | ⟨hw, hU, hnew⟩
      · exact h.kept w U i hold hbetween
      · rw [hw, hU]
        exact (List.take_isPrefix_take.mpr (Or.inl hnew)).trans hheld
    ballotKept := fun w U l hl W i hWU hi hbetween =>
      h.ballotKept_max hl hWU hi hbetween
    commitQuorum := fun U hpos => h.commitQuorum_max U hpos }

theorem Inv.adopt (h : Inv S a) {c : party} {k : Nat}
    (hlead : a.leader (a.term v) = some c)
    (hother : c ≠ v)
    (hk : k <= (a.record (a.term v)).length)
    (hlacks : ¬ (a.record (a.term v)).take k <+: a.log v) :
    Inv S { a with
      log := Function.update a.log v ((a.record (a.term v)).take k)
      acked := setCell a.acked v (a.term v)
        (max (a.acked v (a.term v)) k) } :=
  { h with
    leaderLog := by
      intro U d hd hterm
      dsimp only at *
      have hdv : d ≠ v := by
        intro heq
        rw [heq] at hterm hd
        rw [← hterm, hlead] at hd
        exact hother (Option.some.inj hd)
      rw [Function.update_of_ne hdv]
      exact h.leaderLog U d hd hterm
    leaderAck := fun U d hd => h.leaderAck_max hk U d hd
    ackTerm := fun w U hpos => h.ackTerm_max w U hpos
    ackBound := fun w U => h.ackBound_max hk w U
    logStamps := by
      intro w e he
      dsimp only at *
      by_cases hw : w = v
      · rw [hw, Function.update_self] at he
        rw [hw]
        exact h.stamp_le_of_mem_record (List.mem_of_mem_take he)
      · rw [Function.update_of_ne hw] at he
        exact h.logStamps w e he
    chainedLog := by
      intro w
      dsimp only at *
      by_cases hw : w = v
      · rw [hw, Function.update_self]
        exact (h.chainedRecord _).take k
      · rw [Function.update_of_ne hw]
        exact h.chainedLog w
    kept := by
      intro w U i hi hbetween
      dsimp only at *
      by_cases hw : w = v
      · subst hw
        rw [Function.update_self]
        by_cases hnew : U = a.term w ∧ i <= k
        · rw [hnew.left]
          exact List.take_isPrefix_take.mpr (Or.inl hnew.right)
        · have hold : i <= a.acked w U := by
            rcases setCell_max_cases a.acked w w (a.term w) U k i hi with
              hold | ⟨_, hU, hik⟩
            · exact hold
            · exact absurd ⟨hU, hik⟩ hnew
          have hbefore := h.kept w U i hold hbetween
          -- The prefix is in the record of the present term as well.
          have hpre : (a.record U).take i <+: a.record (a.term w) := by
            rcases Nat.lt_trichotomy U (a.term w) with hlt | heq | hgt
            · exact hbetween (a.term w) c hlt (le_refl _) hlead
            · rw [heq]
              exact List.take_prefix _ _
            · rw [h.acked_eq_zero_of_term_lt hgt] at hold
              rw [Nat.le_zero.mp hold]
              exact List.nil_prefix
          apply List.prefix_take_iff.mpr
          refine ⟨hpre, ?_⟩
          by_contra hlong
          apply hlacks
          apply List.IsPrefix.trans _ hbefore
          apply List.prefix_of_prefix_length_le (List.take_prefix _ _) hpre
          rw [List.length_take]
          omega
      · rw [Function.update_of_ne hw]
        rw [setCell_of_ne_party _ _ hw] at hi
        exact h.kept w U i hi hbetween
    ballotKept := fun w U l hl W i hWU hi hbetween =>
      h.ballotKept_max hl hWU hi hbetween
    commitQuorum := fun U hpos => h.commitQuorum_max U hpos }

/-!
# Counting and rounds
-/

omit [DecidableEq party] in
theorem Inv.commit (h : Inv S a) {i : Nat} {e : entry}
    (hentry : (a.record (a.term v))[i]? = some e)
    (hstamp : S.stamp e = a.term v)
    (hquorum : S.Quorum { w | i + 1 <= a.acked w (a.term v) }) :
    Inv S { a with
      commit := Function.update a.commit (a.term v) (i + 1) } :=
  { h with
    commitQuorum := by
      intro U hpos
      dsimp only at *
      by_cases hU : U = a.term v
      · subst hU
        rw [Function.update_self]
        exact ⟨e, hentry, hstamp, hquorum⟩
      · rw [Function.update_of_ne hU] at hpos ⊢
        exact h.commitQuorum U hpos }

omit [DecidableEq party] in
theorem Inv.raise (h : Inv S a) {s : Nat}
    (hlead : a.leader (a.term v) = some v)
    (hmore : a.round (a.term v) <= s) :
    Inv S { a with round := Function.update a.round (a.term v) s } :=
  { h with
    closed := by
      intro U hU
      dsimp only at *
      have hUv : U ≠ a.term v := by
        intro heq
        rw [heq, hlead] at hU
        cases hU
      rw [Function.update_of_ne hUv]
      exact h.closed U hU
    heardBound := by
      intro w U
      dsimp only at *
      by_cases hU : U = a.term v
      · rw [hU, Function.update_self]
        exact (h.heardBound w _).trans hmore
      · rw [Function.update_of_ne hU]
        exact h.heardBound w U }

theorem Inv.echo (h : Inv S a) {s : Nat} (hround : s <= a.round (a.term v)) :
    Inv S { a with
      heard := setCell a.heard v (a.term v)
        (max (a.heard v (a.term v)) s) } :=
  { h with
    heardBound := by
      intro w U
      dsimp only at *
      rcases setCell_max_cases a.heard v w (a.term v) U s _ (le_refl _) with
        hold | ⟨_, hU, hnew⟩
      · exact hold.trans (h.heardBound w U)
      · rw [hU] at hnew ⊢
        exact hnew.trans hround
    heardTerm := by
      intro w U hpos
      dsimp only at *
      by_cases hc : w = v ∧ U = a.term v
      · rw [hc.left, hc.right]
      · simp only [setCell, hc, if_false] at hpos
        exact h.heardTerm w U hpos }

/-!
# Runs
-/

theorem Inv.step (h : Inv S a) {b : History party entry}
    (hstep : Step S v a b) : Inv S b := by
  cases hstep with
  | bump hT => exact h.bump hT
  | stand hfree hopen =>
      exact h.cast hfree hopen (setCell_self _ _ _ _) (S.upToDate_refl _)
  | grant hfree hopen hself hballot hup =>
      rename_i c l
      have hcv : c ≠ v := by
        intro heq
        rw [heq, hfree] at hself
        cases hself
      refine h.cast hfree hopen ?_ hup
      rw [setCell_of_ne_party _ _ hcv]
      exact hballot
  | lateVote hfree hclosed => exact h.lateVote hfree hclosed
  | elect hopen hballot hquorum hvotes =>
      exact h.elect hopen hballot hquorum hvotes
  | append hlead hstamp hfits => exact h.append hlead hstamp hfits
  | confirm hlead hk hheld => exact h.confirm hk hheld
  | adopt hlead hother hk hlacks => exact h.adopt hlead hother hk hlacks
  | commit hlead hentry hstamp hquorum hmore =>
      exact h.commit hentry hstamp hquorum
  | raise hlead hmore => exact h.raise hlead hmore
  | echo hround => exact h.echo hround

theorem Inv.steps (h : Inv S a) {b : History party entry}
    (hsteps : Steps S v a b) : Inv S b := by
  induction hsteps with
  | refl => exact h
  | tail _ hstep ih => exact ih.step hstep

theorem Reachable.inv (h : Reachable S a) : Inv S a := by
  unfold Reachable Run at h
  induction h with
  | refl => exact inv_initial S
  | tail _ hstep ih =>
      rcases hstep with ⟨w, hw⟩
      exact ih.step hw

end Consensus
