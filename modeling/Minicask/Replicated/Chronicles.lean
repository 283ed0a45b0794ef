import Minicask.Replicated.FollowerReads

/-!
# One log for a whole run

A run of a fleet is taken moment by moment, with a history of the protocol for each
moment.  All of it goes by one log, a read covers what was committed at the moment at
which it was asked, and what a leader appends lies above that.
-/

namespace Minicask
namespace Replicated

open Raft Consensus

/-!
# Where a leader puts an entry
-/

/-- Between two histories the leader of a term has put an entry behind all it had. -/
structure Landed (a b : Past) (n : NodeId) (e : Entry) : Prop where
  leader : a.leader e.term = some n
  fresh : (a.record e.term).length < e.index
  record : (b.record e.term)[e.index - 1]? = some e

section Landing

variable {B : List Member} {a b a' b' d : Past} {n n' : NodeId} {e : Entry}

/-- The entry lands above everything that was committed before. -/
theorem Landed.above (h : Landed a b n e) (ha : Inv (setting B) a)
    (hd : Inv (setting B) d) (hext : Extends a d) (hrecorded : Recorded d e.index e)
    {i U : Nat} (hi : i <= a.commit U) : i < e.index := by
  by_contra hnot
  have hcounted : e.index <= a.commit U := Nat.le_trans (Nat.le_of_not_lt hnot) hi
  have hlength := Nat.le_trans hcounted (ha.commit_le_record U)
  rcases hrecorded with ⟨hpos, _, bound, l, hcommitted, hentry⟩
  have hbefore : Consensus.Committed a U (a.record U) e.index :=
    ⟨hlength, U, Nat.le_refl U, hcounted, List.take_prefix _ _⟩
  have hlt : e.index - 1 < e.index := Nat.sub_lt hpos Nat.one_pos
  have hsame := hd.committed_agree (hbefore.mono hext (Nat.le_refl U)) hcommitted
    (Nat.le_refl _)
  have hmine : (a.record U)[e.index - 1]? = some e := by
    rw [← List.getElem?_take_of_lt hlt, hsame, List.getElem?_take_of_lt hlt]
    exact hentry
  have hrecord := (ha.chainedRecord U).getElem?_record hmine
  have hshort := h.fresh
  have hheld := (List.getElem?_eq_some_iff.mp hrecord).1
  change e.index - 1 < (a.record e.term).length at hheld
  omega

theorem Landed.later (h : Landed a b n e) (hext : Extends b d) :
    (d.record e.term)[e.index - 1]? = some e :=
  getElem?_of_prefix (hext.record e.term) h.record

theorem Landed.once (h : Landed a b n e) (h' : Landed a' b' n' e)
    (hext : Extends b a') : False := by
  have hheld := (List.getElem?_eq_some_iff.mp (h.later hext)).1
  have hshort := h'.fresh
  omega

/-- What is left in the log of a replica that has applied as much has been committed. -/
theorem recorded_of_reaches {i : Nat} (hpos : 0 < e.index) (hreaches : Reaches a n i)
    (hle : e.index <= i) (hentry : (a.log n)[e.index - 1]? = some e) :
    Recorded a e.index e :=
  ⟨hpos, rfl, _, _, hreaches.le hle, hentry⟩

end Landing

/-!
# Runs, moment by moment
-/

/-- A run of a fleet, by moments.  At a moment nothing may happen. -/
structure Story (B : List Member) (allowed : Bytes -> Prop) (run : Nat -> Fleet) :
    Prop where
  start : run 0 = Fleet.start
  onward : forall k, run (k + 1) = run k ∨ Fleet.Step B allowed (run k) (run (k + 1))

section Onward

variable {B : List Member} {allowed : Bytes -> Prop} {run : Nat -> Fleet} {l : Nat}
  {f g : Fleet}

theorem Story.onto (h : Story B allowed run) (hstays : forall k, l <= k -> run k = f)
    (hstep : Fleet.Step B allowed f g) :
    exists run', Story B allowed run' ∧ (forall k, k <= l -> run' k = run k) ∧
      forall k, l < k -> run' k = g := by
  refine ⟨fun k => if k <= l then run k else g, ⟨?_, fun k => ?_⟩, fun k hk => if_pos hk,
    fun k hk => if_neg (Nat.not_le_of_lt hk)⟩
  · exact (if_pos (Nat.zero_le l)).trans h.start
  · rcases Nat.lt_trichotomy k l with hlt | rfl | hgt
    · rw [if_pos (Nat.le_of_lt hlt), if_pos (Nat.succ_le_of_lt hlt)]
      exact h.onward k
    · rw [if_pos (Nat.le_refl k), if_neg (Nat.not_succ_le_self k), hstays k (Nat.le_refl k)]
      exact Or.inr hstep
    · rw [if_neg (Nat.not_le_of_lt hgt), if_neg (Nat.not_le_of_lt (Nat.lt_succ_of_lt hgt))]
      exact Or.inl rfl

theorem Story.along (h : Story B allowed run) (hstays : forall k, l <= k -> run k = f)
    (hg : Fleet.Run B allowed f g) :
    exists run' l', Story B allowed run' ∧ l <= l' ∧
      (forall k, k <= l -> run' k = run k) ∧ forall k, l' <= k -> run' k = g := by
  induction hg with
  | refl => exact ⟨run, l, h, Nat.le_refl l, fun _ _ => rfl, hstays⟩
  | tail _ hstep ih =>
      rcases ih with ⟨run', l', hstory, hle, hkept, hends⟩
      rcases hstory.onto hends hstep with ⟨run'', hstory', hkept', hends'⟩
      exact ⟨run'', l' + 1, hstory', Nat.le_succ_of_le hle,
        fun k hk => (hkept' k (hk.trans hle)).trans (hkept k hk), hends'⟩

theorem Story.waits (B : List Member) (allowed : Bytes -> Prop) :
    Story B allowed (fun _ => Fleet.start) :=
  ⟨rfl, fun _ => Or.inl rfl⟩

end Onward

/-- Histories of the protocol that account for every moment. -/
structure Chronicle (B : List Member) (allowed : Bytes -> Prop) (run : Nat -> Fleet)
    (a : Nat -> Past) (known : Nat -> Nat -> Entry -> Prop) : Prop where
  story : Story B allowed run
  tracked : forall k, Tracked B allowed (run k) (a k) (known k)
  onward : forall k, Consensus.Run (setting B) (a k) (a (k + 1))

section Runs

variable {B : List Member} {allowed : Bytes -> Prop} {run : Nat -> Fleet}

theorem Story.exists_chronicle (h : Story B allowed run)
    (hallowed : forall command, allowed command -> Writes command) :
    exists a known, Chronicle B allowed run a known := by
  have hstart : Tracked B allowed (run 0) History.initial (fun _ _ => False) := by
    rw [h.start]
    exact Tracked.start B allowed
  have hnext : forall k (x : { x : Past × (Nat -> Entry -> Prop) //
        Tracked B allowed (run k) x.1 x.2 }),
      exists y : { y : Past × (Nat -> Entry -> Prop) //
          Tracked B allowed (run (k + 1)) y.1 y.2 },
        Consensus.Run (setting B) x.1.1 y.1.1 := by
    intro k x
    rcases h.onward k with hsame | hstep
    · refine ⟨⟨x.1, ?_⟩, Relation.ReflTransGen.refl⟩
      rw [hsame]
      exact x.2
    · rcases x.2.step hallowed hstep with ⟨b, known, hrun, _, htracked, _⟩
      exact ⟨⟨(b, known), htracked⟩, hrun⟩
  choose next hrun using hnext
  let told : forall k, { x : Past × (Nat -> Entry -> Prop) //
      Tracked B allowed (run k) x.1 x.2 } :=
    fun k => Nat.rec ⟨(History.initial, fun _ _ => False), hstart⟩ next k
  exact ⟨fun k => (told k).1.1, fun k => (told k).1.2, h, fun k => (told k).2,
    fun k => hrun k (told k)⟩

namespace Chronicle

variable {a : Nat -> Past} {known : Nat -> Nat -> Entry -> Prop}

theorem inv (h : Chronicle B allowed run a known) (k : Nat) :
    Inv (setting B) (a k) :=
  (h.tracked k).traced.inv

theorem since (h : Chronicle B allowed run a known) {k l : Nat} (hkl : k <= l) :
    Consensus.Run (setting B) (a k) (a l) := by
  induction hkl with
  | refl => exact Relation.ReflTransGen.refl
  | step _ ih => exact Relation.ReflTransGen.trans ih (h.onward _)

theorem extends_since (h : Chronicle B allowed run a known) {k l : Nat}
    (hkl : k <= l) : Extends (a k) (a l) :=
  ((h.inv k).run_extends (h.since hkl)).2

/-- An entry that is committed at some moment, with a command that was proposed. -/
def Settled (allowed : Bytes -> Prop) (a : Nat -> Past) (i : Nat) (e : Entry) : Prop :=
  e.Allowed allowed ∧ exists k, Recorded (a k) i e

theorem exists_log (h : Chronicle B allowed run a known)
    (hallowed : forall command, allowed command -> Writes command) :
    exists c : Committed, c.Short ∧ (forall i, (c.entry i).Allowed allowed) ∧
      Records c (Settled allowed a) ∧ forall k, (run k).Folds c := by
  have hagree : forall i e e', Settled allowed a i e -> Settled allowed a i e' ->
      e = e' := by
    rintro i e e' ⟨_, k, hrecorded⟩ ⟨_, l, hrecorded'⟩
    rcases Nat.le_total k l with hkl | hlk
    · exact Recorded.agree (h.inv l) (hrecorded.mono (h.extends_since hkl)) hrecorded'
    · exact Recorded.agree (h.inv k) hrecorded (hrecorded'.mono (h.extends_since hlk))
  rcases Replicated.exists_log hallowed
    (fun i e (hsettled : Settled allowed a i e) => hsettled.2.choose_spec.2.1)
    hagree (fun i e hsettled => hsettled.1) with ⟨c, hshort, hrecords, hcommands⟩
  refine ⟨c, hshort, hcommands, hrecords, fun k => ?_⟩
  refine ((h.tracked k).stands c hshort fun i e hknown => ?_).folds
  exact hrecords i e ⟨(h.tracked k).learned.commands i e hknown, k,
    (h.tracked k).learned.recorded i e hknown⟩

/-- The answers to a question stay good. -/
theorem questioned (h : Chronicle B allowed run a known) {k l : Nat} {n : NodeId}
    {id : Nat} (hkl : k + 1 <= l)
    (hasked : Questioned B (a k) (a (k + 1)) n id (run (k + 1))) :
    Questioned B (a k) (a l) n id (run l) := by
  induction hkl with
  | refl => exact hasked
  | @step l hkl ih =>
      have htraced := (h.tracked l).traced
      have hnext := (h.tracked (l + 1)).traced
      have hsince := h.since (Nat.le_of_succ_le hkl)
      rcases h.story.onward l with hsame | hstep
      · rw [hsame] at hnext ⊢
        exact ih.still htraced (h.onward l) hnext
      · exact ih.step (h.inv k) htraced hsince (h.onward l) hnext hstep

/-- A read that is ready covers what was committed at the moment it was asked. -/
theorem read_covers (h : Chronicle B allowed run a known) {k l : Nat} {n : NodeId}
    {s t : System} {i : Nat} (hkl : k < l) (hup : (run k).hosts n = Stage.up s)
    (hmay : s.replica.node.role = Role.leader ∨ (run k).Unanswered n s)
    (hasked : run (k + 1) = (run k).ask n s) (hread : (run l).hosts n = Stage.up t)
    (hready : t.replica.node.readState s.replica.readIndex.2.1 =
      ReadState.ready i) : Covers (a k) i := by
  refine ready_covers (h.tracked k).traced (h.since (Nat.le_of_lt hkl))
    (h.tracked l).traced hup hread (fun hrole leader hleader => ?_) hready
  refine h.questioned hkl ?_
  rw [hasked]
  exact questioned_of_unanswered hrole hleader (hmay.resolve_left hrole)

end Chronicle

end Runs

end Replicated
end Minicask
