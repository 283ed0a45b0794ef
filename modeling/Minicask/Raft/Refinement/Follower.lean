import Minicask.Raft.Refinement.Election

/-!
# What a follower does, as protocol steps

A message of the leader either finds its entries in the log already, and then
the follower only confirms them, or the follower is left with exactly the part
of the leader's record that the message covers.
-/

namespace Minicask
namespace Raft

open Consensus

/-!
# Comparing a message with the log
-/

/-- What the scan of a message finds, for a log `l` and the record `r` that the
message was cut from, both equal up to `p`. -/
inductive Scan (l r : List Entry) (p : Nat) (es : List Entry) :
    Nat × Option Nat -> Prop where
  | held : r.take (p + es.length) <+: l -> Scan l r p es (es.length, none)
  | short {held : Nat} : held < es.length -> l = r.take (p + held) ->
      Scan l r p es (held, none)
  | conflict {held : Nat} : held < es.length -> p + held < l.length ->
      l.take (p + held) = r.take (p + held) ->
      wholeTerm l (p + held + 1) ≠ wholeTerm r (p + held + 1) ->
      Scan l r p es (held, some (p + held + 1))

theorem Scan.cons {l r : List Entry} {p : Nat} {e : Entry} {es : List Entry}
    {held : Nat} {conflict : Option Nat}
    (h : Scan l r (p + 1) es (held, conflict)) :
    Scan l r p (e :: es) (held + 1, conflict) := by
  cases h with
  | held hpre =>
      apply Scan.held
      rw [List.length_cons, show p + (es.length + 1) = p + 1 + es.length by omega]
      exact hpre
  | short hlt hl =>
      apply Scan.short
      · rw [List.length_cons]
        omega
      · rw [show p + (held + 1) = p + 1 + held by omega]
        exact hl
  | conflict hlt hlen htake hne =>
      rw [show p + 1 + held + 1 = p + (held + 1) + 1 by omega] at hne ⊢
      rw [show p + 1 + held = p + (held + 1) by omega] at hlen htake
      apply Scan.conflict _ hlen htake hne
      rw [List.length_cons]
      omega

theorem matching_scan {l r : List Entry} {s : MemStorage} (h : Shows l s.log)
    (hagree : forall k, k <= l.length -> k <= r.length ->
      wholeTerm l k = wholeTerm r k -> l.take k = r.take k)
    (es : List Entry) {p : Nat} (hbase : s.log.base.index <= p)
    (hp : p <= l.length) (htake : l.take p = r.take p)
    (hes : es <+: r.drop p) : Scan l r p es (Node.matching s (p + 1) es) := by
  induction es generalizing p with
  | nil =>
      apply Scan.held
      rw [List.length_nil, Nat.add_zero, ← htake]
      exact List.take_prefix _ _
  | cons e rest ih =>
      have he : r[p]? = some e := by
        have := getElem?_of_prefix hes (show (e :: rest)[0]? = some e from rfl)
        rw [List.getElem?_drop] at this
        exact this
      have hpr : p + 1 <= r.length := (List.getElem?_eq_some_iff.mp he).1
      have hterm : wholeTerm r (p + 1) = e.term := by
        simp [wholeTerm, he]
      have hrest : rest <+: r.drop (p + 1) := by
        have := hes.drop 1
        rw [List.drop_drop] at this
        exact this
      unfold Node.matching
      rw [MemStorage.termAt, h.termAt]
      by_cases hlen : p + 1 <= l.length
      · rw [if_pos ⟨by omega, hlen⟩]
        simp only
        split
        · next hsame =>
            have htake' := hagree (p + 1) hlen hpr (hsame.trans hterm.symm)
            exact (ih (by omega) hlen htake' hrest).cons
        · next hother =>
            have hpos : 0 < (e :: rest).length := Nat.succ_pos _
            apply Scan.conflict hpos hlen htake
            rw [Nat.add_zero, hterm]
            exact hother
      · rw [if_neg (fun hin => hlen hin.2)]
        refine Scan.short ?_ ?_
        · rw [List.length_cons]
          omega
        · rw [Nat.add_zero, ← htake]
          exact (List.take_of_length_le (by omega)).symm

theorem take_append_of_prefix_drop {r es : List Entry} {p k : Nat}
    (hes : es <+: r.drop p) (hk : k <= es.length) :
    r.take (p + k) ++ es.drop k = r.take (p + es.length) := by
  have hes' : es = (r.drop p).take es.length := List.prefix_iff_eq_take.mp hes
  have hdrop : es.drop k = (r.drop (p + k)).take (es.length - k) := by
    conv_lhs => rw [hes']
    rw [List.drop_take, List.drop_drop]
  rw [hdrop, ← List.take_add]
  congr 1
  omega

theorem shows_of_scan {l r : List Entry} {s : MemStorage} (h : Shows l s.log)
    (hr : Indexed r) {p held : Nat} {es : List Entry} {conflict : Option Nat}
    (hbase : s.log.base.index <= p) (hes : es <+: r.drop p)
    (hscan : Scan l r p es (held, conflict))
    (hlacks : ¬ r.take (p + es.length) <+: l) :
    Shows (r.take (p + es.length))
      (((match conflict with
        | some index => s.truncateFrom index
        | none => s).append (es.drop held)).log) := by
  cases hscan with
  | held hpre => exact absurd hpre hlacks
  | short hlt hl =>
      have hsplit := take_append_of_prefix_drop hes (Nat.le_of_lt hlt)
      rw [← hsplit, ← hl]
      apply h.append
      rw [hl, hsplit]
      exact hr.take _
  | conflict hlt hlen htake hne =>
      have hsplit := take_append_of_prefix_drop hes (Nat.le_of_lt hlt)
      have hlow : s.log.base.index < p + held + 1 := by omega
      have hcut := h.truncateFrom hlow (by omega)
      rw [Nat.add_sub_cancel, htake] at hcut
      rw [← hsplit]
      apply hcut.append
      rw [hsplit]
      exact hr.take _

/-!
# Confirming and adopting
-/

section Following

variable {B : List Member} {a : Past} {n : NodeId} {node : Node}

theorem NodeOk.agree (hinv : Inv (setting B) a) (T : Nat) {k : Nat}
    (hkl : k <= (a.log n).length) (hkr : k <= (a.record T).length)
    (hterm : wholeTerm (a.log n) k = wholeTerm (a.record T) k) :
    (a.log n).take k = (a.record T).take k := by
  apply Chained.agree (hinv.chainedLog n) (hinv.chainedRecord T) hkl hkr
  rw [stampAt_eq_wholeTerm, stampAt_eq_wholeTerm]
  exact hterm

theorem NodeOk.committed_held (hinv : Inv (setting B) a) {c : NodeId} {k : Nat}
    (hlead : a.leader (a.term n) = some c)
    (hk : Committed a (a.term n) (a.log n) k) :
    k <= (a.record (a.term n)).length ∧
      (a.record (a.term n)).take k = (a.log n).take k := by
  have hpre := hinv.committed_take_record hk (le_refl _) hlead
  have hlen : ((a.log n).take k).length = k := by
    rw [List.length_take]
    exact Nat.min_eq_left hk.1
  have hle := hpre.length_le
  have htake := List.prefix_iff_eq_take.mp hpre
  rw [hlen] at hle htake
  exact ⟨hle, htake.symm⟩

theorem NodeOk.committed_term (hinv : Inv (setting B) a) {c : NodeId} {k : Nat}
    (hlead : a.leader (a.term n) = some c)
    (hk : Committed a (a.term n) (a.log n) k) :
    wholeTerm (a.log n) k = wholeTerm (a.record (a.term n)) k := by
  rcases NodeOk.committed_held hinv hlead hk with ⟨hlen, htake⟩
  rw [← Shows.wholeTerm_take (le_refl k), ← htake]
  exact Shows.wholeTerm_take (le_refl k)

theorem NodeOk.echo (hinv : Inv (setting B) a) (h : NodeOk B a n node)
    {seq : Nat} (hseq : seq <= a.round (a.term n)) :
    exists b, Steps (setting B) n a b ∧ NodeOk B b n node ∧
      seq <= b.heard n (a.term n) := by
  have hstep : Step (setting B) n a _ := Step.echo hseq
  refine ⟨_, Relation.ReflTransGen.single hstep,
    h.still (hinv.step_extends hstep) ?_, ?_⟩
  · exact ⟨rfl, rfl, rfl, fun _ hT => hT, fun _ _ => rfl, fun _ _ => rfl⟩
  · simp

/-- The history after a follower has taken its leader's word up to `k`. -/
structure Followed (B : List Member) (a b : Past) (n : NodeId) (k : Nat) :
    Prop where
  steps : Steps (setting B) n a b
  term : b.term n = a.term n
  acked : k <= b.acked n (a.term n)
  held : (a.record (a.term n)).take k <+: b.log n

theorem NodeOk.confirm (hinv : Inv (setting B) a) (h : NodeOk B a n node)
    {c : NodeId} {k : Nat} (hlead : a.leader (a.term n) = some c)
    (hk : k <= (a.record (a.term n)).length)
    (hheld : (a.record (a.term n)).take k <+: a.log n) :
    exists b, Followed B a b n k ∧ NodeOk B b n node := by
  have hstep : Step (setting B) n a _ := Step.confirm hlead hk hheld
  refine ⟨_, ⟨Relation.ReflTransGen.single hstep, rfl, by simp, hheld⟩,
    h.still (hinv.step_extends hstep) ?_⟩
  exact ⟨rfl, rfl, rfl, fun _ hT => hT, fun _ _ => rfl, fun _ _ => rfl⟩

theorem NodeOk.confirm_committed (hinv : Inv (setting B) a)
    (h : NodeOk B a n node) {c : NodeId} {k : Nat}
    (hlead : a.leader (a.term n) = some c)
    (hk : Committed a (a.term n) (a.log n) k) :
    exists b, Followed B a b n k ∧ NodeOk B b n node := by
  rcases NodeOk.committed_held hinv hlead hk with ⟨hlen, htake⟩
  apply h.confirm hinv hlead hlen
  rw [htake]
  exact List.take_prefix _ _

theorem NodeOk.adopt (hinv : Inv (setting B) a) (h : NodeOk B a n node)
    (hrole : node.role = Role.follower) {c : NodeId} {k : Nat}
    (hlead : a.leader (a.term n) = some c)
    (hk : k <= (a.record (a.term n)).length)
    (hlacks : ¬ (a.record (a.term n)).take k <+: a.log n) {s : MemStorage}
    (hhard : s.hardState = node.storage.hardState)
    (hshows : Shows ((a.record (a.term n)).take k) s.log)
    (hbase : Committed a (a.term n) ((a.record (a.term n)).take k)
      s.log.base.index)
    (hmembers : Unchanged B s.snapshotMembers) :
    exists b, Followed B a b n k ∧
      NodeOk B b n { node with storage := s } := by
  have hother : c ≠ n := by
    intro hc
    rw [hc] at hlead
    apply hlacks
    rw [hinv.leaderLog _ n hlead rfl]
    exact List.take_prefix _ _
  have hstep : Step (setting B) n a _ := Step.adopt hlead hother hk hlacks
  have hext := hinv.step_extends hstep
  refine ⟨_, ⟨Relation.ReflTransGen.single hstep, rfl, by simp, by simp⟩, ?_⟩
  refine { h with
    storage := ?_
    commit := ?_
    applied := ?_
    candidate := ?_
    leader := ?_ }
  · refine ⟨?_, ?_, ?_, ?_, hmembers⟩
    · rw [hhard]
      exact h.storage.term
    · rw [hhard]
      exact h.storage.vote
    · simpa using hshows
    · simpa using hbase.mono hext (le_refl _)
  · simpa using (hinv.committed_adopt h.commit hlead hlacks).mono hext (le_refl _)
  · simpa using (hinv.committed_adopt h.applied hlead hlacks).mono hext (le_refl _)
  · intro hcand
    simp only at hcand
    rw [hrole] at hcand
    cases hcand
  · intro hleading
    simp only at hleading
    rw [hrole] at hleading
    cases hleading

/-!
# Entries
-/

/-- Whatever an accepted message holds is in the log afterwards. -/
theorem NodeOk.acceptEntries (hinv : Inv (setting B) a) (h : NodeOk B a n node)
    (hrole : node.role = Role.follower) {c : NodeId}
    (hlead : a.leader (a.term n) = some c) {p : Nat} {es : List Entry}
    (hbase : node.storage.log.base.index <= p)
    (hterm : node.storage.termAt p = some (wholeTerm (a.record (a.term n)) p))
    (hp : p <= (a.record (a.term n)).length)
    (hes : es <+: (a.record (a.term n)).drop p) :
    exists b, Followed B a b n (p + es.length) ∧
      NodeOk B b n (node.acceptEntries p es) := by
  have hshows := h.storage.shows
  rcases hshows.termAt_eq_some hterm with ⟨_, hpl, hsame⟩
  have htake := NodeOk.agree hinv _ hpl hp hsame.symm
  have hscan := matching_scan hshows
    (fun k hkl hkr => NodeOk.agree hinv (a.term n) hkl hkr) es hbase hpl htake
    hes
  have hk : p + es.length <= (a.record (a.term n)).length := by
    have := hes.length_le
    rw [List.length_drop] at this
    omega
  unfold Node.acceptEntries
  rcases hmatch : Node.matching node.storage (p + 1) es with ⟨held, conflict⟩
  rw [hmatch] at hscan
  simp only
  by_cases hpre : (a.record (a.term n)).take (p + es.length) <+: a.log n
  · have hall : held = es.length ∧ conflict = none := by
      cases hscan with
      | held _ => exact ⟨rfl, rfl⟩
      | short hlt hl =>
          have := hpre.length_le
          rw [hl, List.length_take, List.length_take] at this
          omega
      | conflict hlt hlen htake' hne =>
          exfalso
          apply hne
          have hsub : p + held + 1 <=
              ((a.record (a.term n)).take (p + es.length)).length := by
            rw [List.length_take]
            omega
          rw [← wholeTerm_of_prefix hpre hsub]
          exact wholeTerm_of_prefix (List.take_prefix _ _) hsub
    rcases h.confirm hinv hlead hk hpre with ⟨b, hfollowed, hb⟩
    refine ⟨b, hfollowed, ?_⟩
    rw [hall.1, hall.2, List.drop_length]
    exact { hb with }
  · have hnew := shows_of_scan hshows
      (indexed_of_chained hinv (hinv.chainedRecord _)) hbase hes hscan hpre
    have hkeep : ((match conflict with
        | some index => node.storage.truncateFrom index
        | none => node.storage).append (es.drop held)).log.base =
          node.storage.log.base := by
      simp only [MemStorage.append, foldl_push]
      cases conflict <;> rfl
    rcases h.adopt hinv hrole hlead hk hpre
      (s := (match conflict with
        | some index => node.storage.truncateFrom index
        | none => node.storage).append (es.drop held))
      (by cases conflict <;> rfl) hnew (by
        rw [hkeep]
        exact hinv.committed_adopt h.storage.base hlead hpre) (by
        cases conflict <;> exact h.storage.members) with ⟨b, hfollowed, hb⟩
    refine ⟨b, hfollowed, ?_⟩
    split
    · exact NodeOk.reloadMembership (hinv.steps hfollowed.steps)
        { hb with voters := rfl }
    · exact hb

theorem acceptEntries_role (node : Node) (p : Nat) (es : List Entry) :
    (node.acceptEntries p es).role = node.role := by
  unfold Node.acceptEntries
  simp only
  split
  · rw [role_reloadMembership]
  · rfl

/-- The part of a message past the snapshot is cut from the same record. -/
theorem NodeOk.pastSnapshot (hinv : Inv (setting B) a) (h : NodeOk B a n node)
    {c : NodeId} (hlead : a.leader (a.term n) = some c) {prev prevTerm : Nat}
    {entries : List Entry} (hprev : prev <= (a.record (a.term n)).length)
    (hterm : prevTerm = wholeTerm (a.record (a.term n)) prev)
    (hentries : entries <+: (a.record (a.term n)).drop prev) {p t : Nat}
    {es : List Entry}
    (hpast : Node.pastSnapshot node.storage prev prevTerm entries =
      some (p, t, es)) :
    node.storage.log.base.index <= p ∧ p <= (a.record (a.term n)).length ∧
      t = wholeTerm (a.record (a.term n)) p ∧
      es <+: (a.record (a.term n)).drop p := by
  rcases pastSnapshot_some hpast with
    ⟨hge, rfl, rfl, rfl⟩ | ⟨hskip, _, rfl, rfl, rfl⟩
  · exact ⟨hge, hprev, hterm, hentries⟩
  · change prev < node.storage.log.base.index at hskip
    rcases NodeOk.committed_held hinv hlead h.storage.base with ⟨hlen, _⟩
    refine ⟨le_refl _, hlen, ?_, ?_⟩
    · exact h.storage.shows.baseTerm.trans
        (NodeOk.committed_term hinv hlead h.storage.base)
    · have hdrop := hentries.drop (node.storage.log.base.index - prev)
      rw [List.drop_drop, Nat.add_sub_cancel' (Nat.le_of_lt hskip)] at hdrop
      exact hdrop

/-- A refusal names a place the leader's record reaches. -/
theorem NodeOk.conflict_bound (hinv : Inv (setting B) a)
    (h : NodeOk B a n node) {c : NodeId}
    (hlead : a.leader (a.term n) = some c) {p t : Nat}
    (hbase : node.storage.log.base.index <= p)
    (hp : p <= (a.record (a.term n)).length)
    (hne : t ≠ wholeTerm (a.record (a.term n)) p)
    (hterm : node.storage.termAt p = some t) :
    node.storage.firstIndexOfTerm t <= (a.record (a.term n)).length + 1 := by
  rcases h.storage.shows.termAt_eq_some hterm with ⟨_, hpl, ht⟩
  rcases Nat.lt_or_eq_of_le hbase with hlt | heq
  · have hlast : p <= node.storage.lastIndex := by
      rw [h.lastIndex]
      exact hpl
    have := MemStorage.firstIndexOfTerm_le hlt hlast hterm
    omega
  · -- The snapshot is committed, so the leader cannot disagree with it.
    exfalso
    apply hne
    have hsame := NodeOk.committed_term hinv hlead h.storage.base
    rw [heq] at hsame
    exact ht.trans hsame

theorem NodeOk.reply (hinv : Inv (setting B) a) {b : Past} {k seq : Nat}
    (hfollowed : Followed B a b n k) (hb : NodeOk B b n node)
    (hseq : seq <= a.round (a.term n)) {action : Action}
    (hmsg : forall c : Past, k <= c.acked n (a.term n) ->
      seq <= c.heard n (a.term n) ->
      MsgOk B c { sender := n, dest := action.dest, message := action.message }) :
    Simulated B a n (node, [action]) := by
  have hinvb := hinv.steps hfollowed.steps
  have hround := (hinv.steps_extends hfollowed.steps).round (a.term n)
  have hseqb : seq <= b.round (b.term n) := by
    rw [hfollowed.term]
    exact hseq.trans hround
  rcases hb.echo hinvb hseqb with ⟨c, hbc, hc, hheard⟩
  rw [hfollowed.term] at hheard
  refine Simulated.after
    (Relation.ReflTransGen.trans hfollowed.steps hbc)
    (simulated_one hc (hmsg c ?_ hheard))
  exact hfollowed.acked.trans ((hinvb.steps_extends hbc).acked n _)

theorem followed_zero (a : Past) (n : NodeId) : Followed B a a n 0 :=
  ⟨Relation.ReflTransGen.refl, rfl, Nat.zero_le _, List.nil_prefix⟩

theorem NodeOk.handleAppendEntries (hinv : Inv (setting B) a)
    (h : NodeOk B a n node) {sender : NodeId} {prev prevTerm : Nat}
    {entries : List Entry} {leaderCommit seq : Nat}
    (hmsg : MsgOk B a
      { sender := sender
        dest := n
        message := Message.appendEntries node.term prev prevTerm entries
          leaderCommit seq }) :
    Simulated B a n (node.handleAppendEntries sender prev prevTerm entries
      leaderCommit seq) := by
  have hnode : NodeOk B a n (Node.resetElectionTimer { node with
      role := Role.follower
      leaderId := some sender }) := by
    have hfollow := h.follow (some sender) node.votes node.active
      node.remoteReads
    exact { hfollow with }
  rw [h.term_eq] at hmsg
  rcases hmsg with ⟨hlead, hprev, hprevTerm, hentries, hcommit, hseq⟩
  have hterm := hnode.term_eq
  unfold Node.handleAppendEntries
  simp only
  have hrole : (Node.resetElectionTimer { node with
      role := Role.follower
      leaderId := some sender }).role = Role.follower := rfl
  generalize Node.resetElectionTimer { node with
    role := Role.follower
    leaderId := some sender } = next at hnode hterm hrole ⊢
  cases hpast : Node.pastSnapshot next.storage prev prevTerm entries with
  | none =>
      simp only
      rcases hnode.confirm_committed hinv hlead hnode.storage.base with
        ⟨b, hfollowed, hb⟩
      refine NodeOk.reply hinv hfollowed hb hseq ?_
      intro c hacked hheard
      rw [hterm]
      exact ⟨fun _ => hacked, (fun hs => by cases hs), hheard⟩
  | some part =>
      rcases part with ⟨p, t, es⟩
      rcases hnode.pastSnapshot hinv hlead hprev hprevTerm hentries hpast with
        ⟨hbase, hp, ht, hes⟩
      simp only
      split
      · next hmismatch =>
          -- Nothing is taken, so only the round is answered.
          have hrefuse : forall (conflictIndex : Nat) (conflictTerm : Option Nat),
              conflictIndex <= (a.record (a.term n)).length + 1 ->
              Simulated B a n (next,
                [{ dest := sender
                   message := Message.appendEntriesReply next.term false 0
                     conflictIndex conflictTerm seq }]) := by
            intro conflictIndex conflictTerm hbound
            rcases hnode.echo hinv hseq with ⟨b, hsteps, hb, hheard⟩
            refine Simulated.after hsteps (simulated_one hb ?_)
            rw [hterm]
            refine ⟨(fun hs => by cases hs), fun _ => hbound.trans ?_, hheard⟩
            have := ((hinv.steps_extends hsteps).record (a.term n)).length_le
            omega
          cases hlocal : next.storage.termAt p with
          | none =>
              apply hrefuse
              rcases hnode.storage.shows.termAt_eq_none hlocal with hlow | hhigh
              · omega
              · rw [hnode.lastIndex]
                omega
          | some t' =>
              apply hrefuse
              apply hnode.conflict_bound hinv hlead hbase hp _ hlocal
              intro heq
              apply hmismatch
              rw [hlocal, heq, ht]
      · next hmatch =>
          rcases hnode.acceptEntries hinv hrole hlead hbase
            (ht ▸ not_not.mp hmatch) hp hes with ⟨b, hfollowed, hb⟩
          have hext := hinv.steps_extends hfollowed.steps
          have hcommitted : NodeOk B b n
              (if leaderCommit > (next.acceptEntries p es).commitIndex then
                { next.acceptEntries p es with
                  commitIndex := min leaderCommit (p + es.length) }
              else next.acceptEntries p es) := by
            split
            · refine { hb with commit := ?_, leader := ?_ }
              · rw [hfollowed.term]
                apply ((hcommit.le (min_le_left _ (p + es.length))).mono hext
                  (le_refl _)).congr
                apply List.IsPrefix.trans _ hfollowed.held
                exact List.take_isPrefix_take.mpr (Or.inl (min_le_right _ _))
              · intro hleading
                simp only [acceptEntries_role] at hleading
                rw [hrole] at hleading
                cases hleading
            · exact hb
          refine NodeOk.reply hinv hfollowed hcommitted hseq ?_
          intro c hacked hheard
          rw [hterm]
          exact ⟨fun _ => hacked, (fun hs => by cases hs), hheard⟩

/-!
# Snapshots
-/

/-- A committed prefix of the log may be folded into a snapshot. -/
theorem NodeOk.compacted (h : NodeOk B a n node) {sink : MemSnapshot}
    (hcommitted : Committed a (a.term n) (a.log n) sink.about.index)
    (hterm : sink.about.term = wholeTerm (a.log n) sink.about.index)
    (hmembers : Unchanged B sink.members) :
    NodeOk B a n
      { node with storage := node.storage.installSnapshot sink } := by
  unfold MemStorage.installSnapshot
  rcases Nat.lt_or_ge node.storage.log.base.index sink.about.index with
    hnew | hold
  · have hheld := h.storage.shows.compact_of_held hnew hcommitted.1 hterm
    have hbase : (node.storage.log.compact sink.about).2.base = sink.about := by
      simp [EntryLog.compact, Nat.not_le.mpr hnew]
    rcases hcompact : node.storage.log.compact sink.about with ⟨newer, log⟩
    rw [hcompact] at hheld hbase
    simp only at hheld hbase
    rw [hheld.1]
    refine { h with storage := ?_ }
    refine { h.storage with shows := hheld.2, base := ?_, members := hmembers }
    simp only
    rw [hbase]
    exact hcommitted
  · simp only [EntryLog.compact, ge_iff_le.mp hold, if_true]
    exact h

theorem NodeOk.installSnapshot (hinv : Inv (setting B) a)
    (h : NodeOk B a n node) (hrole : node.role = Role.follower) {c : NodeId}
    (hlead : a.leader (a.term n) = some c) {sink : MemSnapshot}
    (hcommitted : Committed a (a.term n) (a.record (a.term n))
      sink.about.index)
    (hterm : sink.about.term =
      wholeTerm (a.record (a.term n)) sink.about.index)
    (hmembers : Unchanged B sink.members) :
    exists b, Followed B a b n sink.about.index ∧
      NodeOk B b n
        { node with storage := node.storage.installSnapshot sink } := by
  by_cases hheld :
      (a.record (a.term n)).take sink.about.index <+: a.log n
  · have hlog := hcommitted.congr hheld
    have hsame := NodeOk.committed_term hinv hlead hlog
    exact (h.compacted hlog (hterm.trans hsame.symm) hmembers).confirm hinv
      hlead hcommitted.1 hheld
  · have hnew : node.storage.log.base.index < sink.about.index := by
      by_contra hold
      apply hheld
      have hlog := h.storage.base.le (Nat.le_of_not_lt hold)
      rw [(NodeOk.committed_held hinv hlead hlog).2]
      exact List.take_prefix _ _
    have hlacks : ¬ (sink.about.index <= (a.log n).length ∧
        wholeTerm (a.log n) sink.about.index = sink.about.term) := by
      rintro ⟨hlen, hsame⟩
      apply hheld
      rw [← NodeOk.agree hinv _ hlen hcommitted.1 (hsame.trans hterm)]
      exact List.take_prefix _ _
    have hshows := h.storage.shows.compact_of_lacking
      (indexed_of_chained hinv (hinv.chainedRecord _)) hnew hcommitted.1 hterm
      hlacks
    have hbase : (node.storage.log.compact sink.about).2.base = sink.about := by
      simp [EntryLog.compact, Nat.not_le.mpr hnew]
    unfold MemStorage.installSnapshot
    rcases hcompact : node.storage.log.compact sink.about with ⟨newer, log⟩
    rw [hcompact] at hshows hbase
    simp only at hshows hbase
    rw [hshows.1]
    refine h.adopt hinv hrole hlead hcommitted.1 hheld
      (s := { node.storage with
        log := log, snapshot := sink.data, snapshotMembers := sink.members })
      rfl hshows.2 ?_ hmembers
    simp only
    rw [hbase]
    exact hcommitted.congr (List.prefix_refl _)

theorem NodeOk.continuing (h : NodeOk B a n node) {sender : NodeId}
    {about : SnapshotMeta} {sink : MemSnapshot}
    (hsink : node.continuing sender about = some sink) :
    sink.about = about ∧ Unchanged B sink.members := by
  unfold Node.continuing at hsink
  cases hin : node.incoming with
  | none =>
      rw [hin] at hsink
      cases hsink
  | some pair =>
      rcases pair with ⟨origin, old⟩
      rw [hin] at hsink
      simp only at hsink
      split at hsink
      · next hsame =>
          cases hsink
          exact ⟨hsame.2, h.incoming origin _ hin⟩
      · cases hsink

theorem NodeOk.installReceived (hinv : Inv (setting B) a)
    (h : NodeOk B a n node) (hrole : node.role = Role.follower) {c : NodeId}
    (hlead : a.leader (a.term n) = some c) {sink : MemSnapshot}
    {about : SnapshotMeta} (habout : sink.about = about)
    (hcommitted : Committed a (a.term n) (a.record (a.term n)) about.index)
    (hterm : about.term = wholeTerm (a.record (a.term n)) about.index)
    (hmembers : Unchanged B sink.members) :
    exists b, Followed B a b n about.index ∧
      NodeOk B b n (node.installReceived sink about) := by
  rw [← habout] at hcommitted hterm ⊢
  rcases h.installSnapshot hinv hrole hlead hcommitted hterm hmembers with
    ⟨b, hfollowed, hb⟩
  have hext := hinv.steps_extends hfollowed.steps
  have hindex : Committed b (b.term n) (b.log n) sink.about.index := by
    rw [hfollowed.term]
    exact (hcommitted.mono hext (le_refl _)).congr hfollowed.held
  have hreload : NodeOk B b n (Node.reloadMembership { node with
      incoming := none
      storage := node.storage.installSnapshot sink }) := by
    apply NodeOk.reloadMembership (hinv.steps hfollowed.steps)
    refine { hb with voters := rfl, incoming := ?_ }
    intro origin other hother
    cases hother
  refine ⟨b, hfollowed, ?_⟩
  refine { hreload with commit := ?_, applied := ?_, leader := ?_ }
  · exact committed_max hreload.commit hindex
  · exact committed_max hreload.applied hindex
  · intro hleading
    simp only [Node.installReceived, role_reloadMembership] at hleading
    rw [hrole] at hleading
    cases hleading

theorem NodeOk.handleInstallSnapshot (hinv : Inv (setting B) a)
    (h : NodeOk B a n node) {sender : NodeId} {about : SnapshotMeta}
    {offset : Nat} {data : Bytes} {done : Bool} {seq : Nat}
    {members : Option (List Member)}
    (hmsg : MsgOk B a
      { sender := sender
        dest := n
        message := Message.installSnapshot node.term about.index about.term
          offset data done seq members }) :
    Simulated B a n (node.handleInstallSnapshot sender about offset data done
      seq members) := by
  have hnode : NodeOk B a n (Node.resetElectionTimer { node with
      role := Role.follower
      leaderId := some sender }) := by
    have hfollow := h.follow (some sender) node.votes node.active
      node.remoteReads
    exact { hfollow with }
  rw [h.term_eq] at hmsg
  rcases hmsg with ⟨hlead, hcommitted, hlastTerm, hmembers, hseq⟩
  have hterm := hnode.term_eq
  have hrole : (Node.resetElectionTimer { node with
      role := Role.follower
      leaderId := some sender }).role = Role.follower := rfl
  unfold Node.handleInstallSnapshot
  simp only
  generalize Node.resetElectionTimer { node with
    role := Role.follower
    leaderId := some sender } = next at hnode hterm hrole ⊢
  have hwait : forall (later : Node) (nextOffset : Nat), NodeOk B a n later ->
      Simulated B a n (later,
        [{ dest := sender
           message := Message.installSnapshotReply next.term about.index
             nextOffset false seq }]) := by
    intro later nextOffset hlater
    refine NodeOk.reply hinv (followed_zero a n) hlater hseq ?_
    intro c _ hheard
    rw [hterm]
    exact ⟨(fun hd => by cases hd), hheard⟩
  have hincoming : forall sink : MemSnapshot, Unchanged B sink.members ->
      NodeOk B a n { next with incoming := some (sender, sink) } := by
    intro sink hsink
    refine { hnode with incoming := ?_ }
    intro origin other hother
    cases hother
    exact hsink
  split
  · next hle =>
      have hcleared : NodeOk B a n { next with incoming := none } := by
        refine { hnode with incoming := ?_ }
        intro origin sink hsink
        cases hsink
      rcases hcleared.confirm_committed hinv hlead (hnode.commit.le hle) with
        ⟨b, hfollowed, hb⟩
      refine NodeOk.reply hinv hfollowed hb hseq ?_
      intro c hacked hheard
      rw [hterm]
      exact ⟨fun _ => hacked, hheard⟩
  split
  · exact hwait next 0 hnode
  have hsink : ((next.continuing sender about).getD
        (MemStorage.newSnapshot about members)).about = about ∧
      Unchanged B ((next.continuing sender about).getD
        (MemStorage.newSnapshot about members)).members := by
    cases hcont : next.continuing sender about with
    | none => exact ⟨rfl, hmembers⟩
    | some sink => exact hnode.continuing hcont
  generalize (next.continuing sender about).getD
    (MemStorage.newSnapshot about members) = sink at hsink ⊢
  split
  · exact hwait _ _ (hincoming sink hsink.2)
  split
  · exact hwait _ _ (hincoming (sink.writeAll data) hsink.2)
  · have habout : (sink.writeAll data).about = about := hsink.1
    rcases hnode.installReceived hinv hrole hlead habout hcommitted hlastTerm
      hsink.2 with ⟨b, hfollowed, hb⟩
    refine NodeOk.reply hinv hfollowed hb hseq ?_
    intro c hacked hheard
    rw [hterm]
    exact ⟨fun _ => hacked, hheard⟩

end Following

end Raft
end Minicask
