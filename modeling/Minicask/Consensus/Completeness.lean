import Minicask.Consensus.Preservation

/-!
# Leader completeness and what follows from it

A prefix that a quorum has acknowledged, and that ends in an entry of the
acknowledging term, is in the record of every later leader.  Everything an
implementation may call committed is such a prefix, so any two committed
prefixes agree, and a party that follows a later leader never loses one.
-/

namespace Consensus

/-!
# Growth

Nothing that a history says about the past is ever taken back.
-/

structure Extends (a b : History party entry) : Prop where
  term : forall v, a.term v <= b.term v
  vote : forall v T c, a.vote v T = some c -> b.vote v T = some c
  ballot : forall v T l, a.ballot v T = some l -> b.ballot v T = some l
  leader : forall T c, a.leader T = some c -> b.leader T = some c
  start : forall T c, a.leader T = some c -> b.start T = a.start T
  record : forall T, a.record T <+: b.record T
  acked : forall v T, a.acked v T <= b.acked v T
  commit : forall T, a.commit T <= b.commit T
  round : forall T, a.round T <= b.round T
  heard : forall v T, a.heard v T <= b.heard v T

theorem Extends.refl (a : History party entry) : Extends a a where
  term := fun _ => le_refl _
  vote := fun _ _ _ h => h
  ballot := fun _ _ _ h => h
  leader := fun _ _ h => h
  start := fun _ _ _ => rfl
  record := fun _ => List.prefix_refl _
  acked := fun _ _ => le_refl _
  commit := fun _ => le_refl _
  round := fun _ => le_refl _
  heard := fun _ _ => le_refl _

theorem Extends.trans {a b c : History party entry} (hab : Extends a b)
    (hbc : Extends b c) : Extends a c where
  term := fun v => (hab.term v).trans (hbc.term v)
  vote := fun v T d h => hbc.vote v T d (hab.vote v T d h)
  ballot := fun v T l h => hbc.ballot v T l (hab.ballot v T l h)
  leader := fun T d h => hbc.leader T d (hab.leader T d h)
  start := by
    intro T d h
    rw [hbc.start T d (hab.leader T d h), hab.start T d h]
  record := fun T => (hab.record T).trans (hbc.record T)
  acked := fun v T => (hab.acked v T).trans (hbc.acked v T)
  commit := fun T => (hab.commit T).trans (hbc.commit T)
  round := fun T => (hab.round T).trans (hbc.round T)
  heard := fun v T => (hab.heard v T).trans (hbc.heard v T)

theorem Extends.leader_open {a b : History party entry} (h : Extends a b)
    {T : Nat} (hopen : b.leader T = none) : a.leader T = none := by
  cases hT : a.leader T with
  | none => rfl
  | some c =>
      rw [h.leader T c hT] at hopen
      cases hopen

section Growth

variable [DecidableEq party] {S : Setting party entry}
  {a b : History party entry} {v : party}

omit [DecidableEq party] in
theorem le_update_of_le {f : index -> Nat} [DecidableEq index] {i : index}
    {x : Nat} (h : f i <= x) (j : index) : f j <= Function.update f i x j := by
  by_cases hj : j = i
  · rw [hj, Function.update_self]
    exact h
  · rw [Function.update_of_ne hj]

theorem setCell_some_of_free {f : party -> Nat -> Option value} {T : Nat}
    {x : Option value} (hfree : f v T = none) (w : party) (U : Nat) (y : value)
    (h : f w U = some y) : setCell f v T x w U = some y := by
  unfold setCell
  split
  · next hc =>
      rw [hc.left, hc.right, hfree] at h
      cases h
  · exact h

theorem Inv.step_extends (h : Inv S a) (hstep : Step S v a b) :
    Extends a b := by
  cases hstep with
  | bump hT =>
      exact { Extends.refl a with
        term := fun w => le_update_of_le (Nat.le_of_lt hT) w }
  | stand hfree hopen =>
      exact { Extends.refl a with
        vote := fun w T c hc => setCell_some_of_free hfree w T c hc
        ballot := fun w T l hl =>
          setCell_some_of_free (h.ballot_eq_none_of_free hfree) w T l hl }
  | grant hfree hopen hself hballot hup =>
      exact { Extends.refl a with
        vote := fun w T c hc => setCell_some_of_free hfree w T c hc
        ballot := fun w T l hl =>
          setCell_some_of_free (h.ballot_eq_none_of_free hfree) w T l hl }
  | lateVote hfree hclosed =>
      exact { Extends.refl a with
        vote := fun w T c hc => setCell_some_of_free hfree w T c hc }
  | elect hopen hballot hquorum hvotes =>
      have hne : forall T c, a.leader T = some c -> T ≠ a.term v := by
        intro T c hc heq
        rw [heq, hopen] at hc
        cases hc
      refine { Extends.refl a with
        leader := ?_, start := ?_, record := ?_, acked := ?_ }
      · intro T c hc
        simp only [Function.update_of_ne (hne T c hc)]
        exact hc
      · intro T c hc
        simp only [Function.update_of_ne (hne T c hc)]
      · intro T
        by_cases hT : T = a.term v
        · rw [hT, (h.closed _ hopen).1]
          exact List.nil_prefix
        · simp only [Function.update_of_ne hT]
          exact List.prefix_refl _
      · intro w T
        by_cases hc : w = v ∧ T = a.term v
        · rw [hc.left, hc.right, h.acked_eq_zero_of_open hopen]
          exact Nat.zero_le _
        · simp only [setCell, hc, if_false]
          exact le_refl _
  | append hlead hstamp hfits =>
      have hlog := h.leaderLog _ v hlead rfl
      refine { Extends.refl a with record := ?_, acked := ?_ }
      · intro T
        by_cases hT : T = a.term v
        · simp only [History.extend, hT, Function.update_self, hlog]
          exact List.prefix_append _ _
        · simp only [History.extend, Function.update_of_ne hT]
          exact List.prefix_refl _
      · intro w T
        by_cases hc : w = v ∧ T = a.term v
        · have hbound := h.ackBound v (a.term v)
          simp only [History.extend, hc.left, hc.right, setCell_self, hlog]
          omega
        · simp only [History.extend, setCell, hc, if_false]
          exact le_refl _
  | confirm hlead hk hheld =>
      exact { Extends.refl a with
        acked := fun w T => le_setCell_max a.acked v w _ T _ }
  | adopt hlead hother hk hlacks =>
      exact { Extends.refl a with
        acked := fun w T => le_setCell_max a.acked v w _ T _ }
  | commit hlead hentry hstamp hquorum hmore =>
      exact { Extends.refl a with
        commit := fun T => le_update_of_le (Nat.le_of_lt hmore) T }
  | raise hlead hmore =>
      exact { Extends.refl a with
        round := fun T => le_update_of_le hmore T }
  | echo hround =>
      exact { Extends.refl a with
        heard := fun w T => le_setCell_max a.heard v w _ T _ }

theorem Inv.run_extends (h : Inv S a) (hrun : Run S a b) :
    Inv S b ∧ Extends a b := by
  induction hrun with
  | refl => exact ⟨h, Extends.refl a⟩
  | tail _ hstep ih =>
      rcases hstep with ⟨w, hw⟩
      exact ⟨ih.1.step hw, ih.2.trans (ih.1.step_extends hw)⟩

theorem Inv.steps_extends (h : Inv S a) (hsteps : Steps S v a b) :
    Extends a b :=
  (h.run_extends hsteps.toRun).2

omit [DecidableEq party] in
theorem Untouched.trans {c : History party entry} (hext : Extends a b)
    (hab : Untouched v a b) (hbc : Untouched v b c) : Untouched v a c where
  term := fun w hw => (hbc.term w hw).trans (hab.term w hw)
  log := fun w hw => (hbc.log w hw).trans (hab.log w hw)
  vote := fun w hw => (hbc.vote w hw).trans (hab.vote w hw)
  ballot := fun w hw => (hbc.ballot w hw).trans (hab.ballot w hw)
  leader := by
    intro T d hd
    rcases hbc.leader T d hd with hb | hv
    · exact hab.leader T d hb
    · exact Or.inr hv
  round := by
    intro T d hT hd
    rw [hbc.round T d (hext.leader T d hT) hd, hab.round T d hT hd]
  commit := by
    intro T d hT hd
    rw [hbc.commit T d (hext.leader T d hT) hd, hab.commit T d hT hd]

theorem Inv.steps_untouched (h : Inv S a) (hsteps : Steps S v a b) :
    Untouched v a b := by
  induction hsteps with
  | refl => exact Untouched.refl v a
  | tail hprev hstep ih =>
      exact ih.trans (h.steps_extends hprev) hstep.untouched

end Growth

/-!
# Completeness
-/

section Completeness

variable {S : Setting party entry} {a : History party entry}

/-- A ballot at least as up to date as one that holds the prefix holds it too,
provided every leader in between does. -/
theorem Inv.upToDate_holds (h : Inv S a) {T U i : Nat} {e : entry}
    {l ballot : List entry}
    (hentry : (a.record T)[i]? = some e) (hstamp : S.stamp e = T)
    (hl : Chained S a l) (hlT : forall d, d ∈ l -> S.stamp d < U)
    (hballot : Chained S a ballot) (hup : S.UpToDate l ballot)
    (hheld : (a.record T).take (i + 1) <+: ballot)
    (hbetween : HeldBetween a ((a.record T).take (i + 1)) T (U - 1)) :
    (a.record T).take (i + 1) <+: l := by
  have hi := (List.getElem?_eq_some_iff.mp hentry).1
  have hlenP : ((a.record T).take (i + 1)).length = i + 1 := by
    rw [List.length_take]
    omega
  have hballotEntry : ballot[i]? = some e := by
    apply getElem?_of_prefix hheld
    rw [List.getElem?_take_of_lt (Nat.lt_succ_self i)]
    exact hentry
  have hblen : i < ballot.length :=
    (List.getElem?_eq_some_iff.mp hballotEntry).1
  -- The ballot ends in a term no earlier than the acknowledged one.
  have hlastBallot : T <= S.lastStamp ballot := by
    have hlast : ballot[ballot.length - 1]? =
        some (ballot[ballot.length - 1]) := List.getElem?_eq_getElem (by omega)
    have hmono := h.stamp_mono hballot (by omega) hballotEntry hlast
    have hstampLast := S.stampAt_succ_of_getElem? hlast
    rw [Nat.sub_add_cancel (by omega)] at hstampLast
    unfold Setting.lastStamp
    rw [hstampLast]
    omega
  have hlne : 0 < l.length := by
    rcases hup with hlt | ⟨_, hlen⟩
    · by_contra hzero
      have hnil : l = [] := List.eq_nil_of_length_eq_zero (by omega)
      rw [hnil] at hlt
      simp [Setting.lastStamp, Setting.stampAt] at hlt
    · omega
  have hlast : l[l.length - 1]? = some (l[l.length - 1]) :=
    List.getElem?_eq_getElem (by omega)
  have hstampLast := S.stampAt_succ_of_getElem? hlast
  rw [Nat.sub_add_cancel hlne] at hstampLast
  generalize l[l.length - 1] = d at hlast hstampLast
  have hlastEq : S.lastStamp l = S.stamp d := hstampLast
  rcases hl _ d hlast with ⟨⟨c, hc⟩, hpre⟩
  rw [Nat.sub_add_cancel hlne, List.take_length] at hpre
  have hdU : S.stamp d < U := hlT d (List.mem_of_getElem? hlast)
  rcases Nat.lt_or_ge T (S.stamp d) with hlater | hsame
  · -- The candidate's last entry is a later leader's, which holds the prefix.
    have hP := hbetween (S.stamp d) c hlater (by omega) hc
    have hge : i < l.length := by
      by_contra hshort
      have hdP : d ∈ (a.record T).take (i + 1) := by
        apply List.mem_iff_getElem?.mpr
        refine ⟨l.length - 1, ?_⟩
        have hdrec := hl.getElem?_record hlast
        rw [getElem?_of_prefix_of_lt hP (by omega)] at hdrec
        exact hdrec
      have := h.stamp_le_of_mem_record (List.mem_of_mem_take hdP)
      omega
    exact List.prefix_of_prefix_length_le hP hpre (by omega)
  · -- Both end in the acknowledged term, and the candidate's log is longer.
    have hdT : S.stamp d = T := by
      rcases hup with hlt | ⟨heq, _⟩ <;> omega
    have hlen : ballot.length <= l.length := by
      rcases hup with hlt | ⟨_, hlen⟩
      · omega
      · exact hlen
    rw [hdT] at hpre
    exact List.prefix_of_prefix_length_le (List.take_prefix _ _) hpre
      (by omega)

theorem Inv.completeness (h : Inv S a) {T i : Nat} {e : entry}
    (hentry : (a.record T)[i]? = some e) (hstamp : S.stamp e = T)
    (hquorum : S.Quorum { v | i + 1 <= a.acked v T }) :
    forall U c, T < U -> a.leader U = some c ->
      (a.record T).take (i + 1) <+: a.record U := by
  intro U
  induction U using Nat.strong_induction_on with
  | _ U ih =>
      intro c hTU hc
      have hbetween : HeldBetween a ((a.record T).take (i + 1)) T (U - 1) := by
        intro W d hTW hWU hd
        exact ih W (by omega) d hTW hd
      rcases h.elected U c hc with ⟨hq, hall⟩
      rcases S.quorum_meets hquorum hq with ⟨v, hack, hv⟩
      rcases hall v hv with ⟨_, l, hl, hup⟩
      have hheld := h.ballotKept v U l hl T (i + 1) hTU hack hbetween
      have hcand : (a.record T).take (i + 1) <+:
          (a.record U).take (a.start U) := by
        apply h.upToDate_holds hentry hstamp ((h.chainedRecord U).take _) _
          (h.chainedBallot v U l hl) hup hheld hbetween
        intro d hd
        rcases List.mem_iff_getElem?.mp hd with ⟨j, hj⟩
        have hjlt : j < a.start U := by
          by_contra hge
          rw [List.getElem?_take_eq_none (Nat.le_of_not_lt hge)] at hj
          cases hj
        rw [List.getElem?_take_of_lt hjlt] at hj
        exact (h.recordStamps U j d hj).1 hjlt
      exact hcand.trans (List.take_prefix _ _)

theorem Inv.commit_le_record (h : Inv S a) (T : Nat) :
    a.commit T <= (a.record T).length := by
  rcases Nat.eq_zero_or_pos (a.commit T) with hzero | hpos
  · omega
  · rcases h.commitQuorum T hpos with ⟨e, he, _, _⟩
    have := (List.getElem?_eq_some_iff.mp he).1
    omega

theorem Inv.leader_of_commit (h : Inv S a) {T : Nat} (hpos : 0 < a.commit T) :
    exists c, a.leader T = some c := by
  cases hT : a.leader T with
  | some c => exact ⟨c, rfl⟩
  | none =>
      have hle := h.commit_le_record T
      rw [(h.closed T hT).1] at hle
      simp at hle
      omega

/-- What a leader has counted is in the record of every leader that follows. -/
theorem Inv.committed_in_record (h : Inv S a) {T U : Nat} {c : party}
    (hTU : T <= U) (hc : a.leader U = some c) :
    (a.record T).take (a.commit T) <+: a.record U := by
  rcases Nat.lt_or_eq_of_le hTU with hlt | heq
  · rcases Nat.eq_zero_or_pos (a.commit T) with hzero | hpos
    · rw [hzero]
      exact List.nil_prefix
    · rcases h.commitQuorum T hpos with ⟨e, he, hstamp, hq⟩
      have hsucc : a.commit T - 1 + 1 = a.commit T := by omega
      have hcomp := h.completeness he hstamp (by rw [hsucc]; exact hq) U c hlt hc
      rw [hsucc] at hcomp
      exact hcomp
  · rw [heq]
    exact List.take_prefix _ _

theorem Inv.commit_le_start (h : Inv S a) {T U : Nat} {c : party}
    (hTU : T < U) (hc : a.leader U = some c) : a.commit T <= a.start U := by
  rcases Nat.eq_zero_or_pos (a.commit T) with hzero | hpos
  · omega
  · rcases h.commitQuorum T hpos with ⟨e, he, hstamp, _⟩
    have hpre := h.committed_in_record (Nat.le_of_lt hTU) hc
    have heU : (a.record U)[a.commit T - 1]? = some e := by
      apply getElem?_of_prefix hpre
      rw [List.getElem?_take_of_lt (by omega)]
      exact he
    by_contra hgt
    have := (h.recordStamps U _ e heU).2 (by omega)
    omega

end Completeness

/-!
# Committed prefixes
-/

/-- The first positions of a log are ones a leader of a term up to the bound has
counted. -/
def Committed (a : History party entry) (bound : Nat) (l : List entry)
    (k : Nat) : Prop :=
  k <= l.length ∧
    exists T, T <= bound ∧ k <= a.commit T ∧ l.take k <+: a.record T

section Committed

variable {S : Setting party entry} {a b : History party entry}

theorem committed_zero (a : History party entry) (bound : Nat)
    (l : List entry) : Committed a bound l 0 :=
  ⟨Nat.zero_le _, 0, Nat.zero_le _, Nat.zero_le _, List.nil_prefix⟩

theorem Committed.mono {bound bound' : Nat} {l : List entry} {k : Nat}
    (h : Committed a bound l k) (hext : Extends a b) (hle : bound <= bound') :
    Committed b bound' l k := by
  rcases h with ⟨hlen, T, hT, hk, hpre⟩
  exact ⟨hlen, T, hT.trans hle, hk.trans (hext.commit T),
    hpre.trans (hext.record T)⟩

theorem Committed.le {bound : Nat} {l : List entry} {j k : Nat}
    (h : Committed a bound l k) (hjk : j <= k) : Committed a bound l j := by
  rcases h with ⟨hlen, T, hT, hk, hpre⟩
  refine ⟨hjk.trans hlen, T, hT, hjk.trans hk, ?_⟩
  exact (List.take_isPrefix_take.mpr (Or.inl hjk)).trans hpre

theorem committed_max {bound : Nat} {l : List entry} {j k : Nat}
    (hj : Committed a bound l j) (hk : Committed a bound l k) :
    Committed a bound l (max j k) := by
  rcases Nat.le_total j k with hle | hle
  · rw [max_eq_right hle]
    exact hk
  · rw [max_eq_left hle]
    exact hj

theorem Committed.congr {bound : Nat} {l r : List entry} {k : Nat}
    (h : Committed a bound l k) (hpre : l.take k <+: r) :
    Committed a bound r k := by
  rcases h with ⟨hlen, T, hT, hk, hrec⟩
  have hlenTake : (l.take k).length = k := by
    rw [List.length_take]
    omega
  have heq : r.take k = l.take k := by
    have := List.prefix_iff_eq_take.mp hpre
    rw [hlenTake] at this
    exact this.symm
  refine ⟨?_, T, hT, hk, ?_⟩
  · have := hpre.length_le
    omega
  · rw [heq]
    exact hrec

theorem Committed.record_mono {T k : Nat}
    (h : Committed a T (a.record T) k) (hext : Extends a b) :
    Committed b T (b.record T) k :=
  (h.mono hext (le_refl T)).congr
    ((List.take_prefix _ _).trans (hext.record T))

theorem Inv.committed_take_record (h : Inv S a) {bound : Nat}
    {l : List entry} {k : Nat} (hcomm : Committed a bound l k) {U : Nat}
    {c : party} (hU : bound <= U) (hc : a.leader U = some c) :
    l.take k <+: a.record U := by
  rcases hcomm with ⟨hlen, T, hT, hk, hpre⟩
  have hcomplete := h.committed_in_record (hT.trans hU) hc
  apply List.IsPrefix.trans _ hcomplete
  apply List.prefix_take_iff.mpr
  refine ⟨hpre, ?_⟩
  rw [List.length_take]
  omega

/-- Any two committed prefixes agree. -/
theorem Inv.committed_agree (h : Inv S a) {bound bound' : Nat}
    {l r : List entry} {j k : Nat} (hl : Committed a bound l j)
    (hr : Committed a bound' r k) (hjk : j <= k) : l.take j = r.take j := by
  rcases Nat.eq_zero_or_pos j with hzero | hpos
  · rw [hzero]
    rfl
  rcases hl with ⟨hllen, T, _, hTk, hlpre⟩
  rcases hr with ⟨hrlen, U, _, hUk, hrpre⟩
  rcases h.leader_of_commit (T := T) (by omega) with ⟨c, hc⟩
  rcases h.leader_of_commit (T := U) (by omega) with ⟨d, hd⟩
  have hrj : r.take j <+: a.record U :=
    (List.take_isPrefix_take.mpr (Or.inl hjk)).trans hrpre
  have hllen' : (l.take j).length = j := by
    rw [List.length_take]
    omega
  have hrlen' : (r.take j).length = j := by
    rw [List.length_take]
    omega
  have hboth : exists m : List entry, l.take j <+: m ∧ r.take j <+: m := by
    rcases Nat.le_total T U with hTU | hUT
    · refine ⟨a.record U, ?_, hrj⟩
      apply List.IsPrefix.trans _ (h.committed_in_record hTU hd)
      exact List.prefix_take_iff.mpr ⟨hlpre, by omega⟩
    · refine ⟨a.record T, hlpre, ?_⟩
      apply List.IsPrefix.trans _ (h.committed_in_record hUT hc)
      exact List.prefix_take_iff.mpr ⟨hrj, by omega⟩
  rcases hboth with ⟨m, hlm, hrm⟩
  exact (List.prefix_of_prefix_length_le hlm hrm (by omega)).eq_of_length
    (by omega)

/-- Taking the leader's log keeps every committed prefix. -/
theorem Inv.committed_adopt (h : Inv S a) {U m : Nat} {l : List entry}
    {k : Nat} (hcomm : Committed a U l k) {c : party}
    (hc : a.leader U = some c)
    (hlacks : ¬ (a.record U).take m <+: l) :
    Committed a U ((a.record U).take m) k := by
  have hpre := h.committed_take_record hcomm (le_refl U) hc
  apply hcomm.congr
  apply List.prefix_take_iff.mpr
  refine ⟨hpre, ?_⟩
  by_contra hlong
  apply hlacks
  apply List.IsPrefix.trans _ (List.take_prefix k l)
  apply List.prefix_of_prefix_length_le (List.take_prefix _ _) hpre
  rw [List.length_take]
  omega

/-- No step of a party takes a committed prefix of its own log away. -/
theorem Inv.committed_step [DecidableEq party] (h : Inv S a) {v : party}
    (hstep : Step S v a b) {k : Nat}
    (hk : Committed a (a.term v) (a.log v) k) :
    Committed b (b.term v) (b.log v) k := by
  have hext := h.step_extends hstep
  have hkept := hk.mono hext (hext.term v)
  cases hstep with
  | append hlead hstamp hfits =>
      apply hkept.congr
      simp only [History.extend, Function.update_self]
      exact (List.take_prefix _ _).trans (List.prefix_append _ _)
  | adopt hlead hother hk' hlacks =>
      simp only [Function.update_self]
      exact (h.committed_adopt hk hlead hlacks).mono hext (le_refl _)
  | _ => exact hkept

theorem Inv.committed_steps [DecidableEq party] (h : Inv S a) {v : party}
    (hsteps : Steps S v a b) {k : Nat}
    (hk : Committed a (a.term v) (a.log v) k) :
    Committed b (b.term v) (b.log v) k ∧
      (a.log v).take k = (b.log v).take k := by
  have hkept : Committed b (b.term v) (b.log v) k := by
    induction hsteps with
    | refl => exact hk
    | tail hprev hstep ih => exact (h.steps hprev).committed_step hstep ih
  have hext := h.steps_extends hsteps
  exact ⟨hkept, (h.steps hsteps).committed_agree
    (hk.mono hext (le_refl _)) hkept (le_refl k)⟩

end Committed

/-!
# Rounds

A leader that opens a round and hears a quorum answer it was still the latest
leader when it opened it.
-/

section Rounds

variable [DecidableEq party] {S : Setting party entry}
  {a b : History party entry}

/-- A party that answers a round of a term later on had not left that term. -/
theorem Inv.term_le_of_heard (h : Inv S a) (hrun : Run S a b) {v : party}
    {T : Nat} (hheard : a.heard v T < b.heard v T) : a.term v <= T := by
  induction hrun with
  | refl => omega
  | tail hprev hstep ih =>
      rename_i c d
      by_cases hbefore : a.heard v T < c.heard v T
      · exact ih hbefore
      · rcases hstep with ⟨w, hw⟩
        have hext := (h.run_extends hprev).2
        cases hw with
        | echo hround =>
            rename_i s
            rcases setCell_max_cases c.heard w v (c.term w) T s _
              (le_refl _) with hold | ⟨hv, hT, _⟩
            · exact absurd hheard (by simp only at hold ⊢; omega)
            · rw [hT, ← hv]
              exact hext.term v
        | _ => exact absurd hheard hbefore

theorem Inv.read_covers (h : Inv S a) (hrun : Run S a b) {T s : Nat}
    {c : party} (hterm : a.term c = T) (hs : a.round T < s)
    (hquorum : S.Quorum { w | w = c ∨ s <= b.heard w T })
    {U : Nat} (hU : 0 < a.commit U) : U <= T := by
  by_contra hlater
  rcases h.leader_of_commit hU with ⟨d, hd⟩
  rcases h.elected U d hd with ⟨hq, hall⟩
  rcases S.quorum_meets hquorum hq with ⟨v, hread, hv⟩
  have hvU := h.voteTerm v U d (hall v hv).1
  rcases hread with hvc | hheard
  · rw [hvc] at hvU
    omega
  · have hbound := h.heardBound v T
    have := h.term_le_of_heard hrun (v := v) (T := T) (by omega)
    omega

end Rounds

end Consensus
