import Minicask.Raft.Replacing
import Minicask.Replicated.AppliedIndex

/-!
# Where an event takes a replica

Whatever the files and the raft storage that it starts over, and with any jobs out, a
replica applies no further than its snapshot and what its node takes to be committed,
and past what it has applied the log of its node stays as it is.
-/

namespace Minicask
namespace Replicated

open Raft

/-!
# Jobs that are out
-/

/-- A fact about the index that a restore goes to, if there is one. -/
def Aimed (Q : Nat -> Prop) : Work RestoreJob RestoredStore -> Prop
  | Work.idle => True
  | Work.started job => Q job.index
  | Work.finished done => Q done.index

/-- A snapshot that is being taken stands for entries that have been applied, and a
restore goes from what has been applied to a snapshot that the node holds. -/
structure Placed (c : Committed) (s : System) : Prop where
  snapshot : Begun (fun sink => sink.about.index <= s.replica.applied ∧
    (c.entry sink.about.index).term = sink.about.term) s.snapshot
  restore : Aimed (fun index => s.replica.backgroundSnapshots = true ∧
    s.replica.applied < index ∧ index <= s.replica.snapshotIndex) s.restore

theorem Aimed.mono {P Q : Nat -> Prop} (h : forall index, P index -> Q index)
    {work : Work RestoreJob RestoredStore} (haimed : Aimed P work) :
    Aimed Q work := by
  cases work with
  | idle => trivial
  | started job => exact h _ haimed
  | finished done => exact h _ haimed

theorem startSnapshot_background (r : ReplicatedStore) :
    r.startSnapshot.2.backgroundSnapshots = r.backgroundSnapshots := by
  unfold ReplicatedStore.startSnapshot
  split
  · rfl
  · split <;> rfl

theorem finishSnapshot_background {env : Env} {r r' : ReplicatedStore}
    {sink : MemSnapshot} (h : r.finishSnapshot env sink = Except.ok r') :
    r'.backgroundSnapshots = r.backgroundSnapshots := by
  unfold ReplicatedStore.finishSnapshot at h
  dsimp only at h
  split at h
  · split at h
    · cases h
      rfl
    · rcases Fallible.map_eq_ok h with ⟨_, _, rfl⟩
      rfl
  · cases h
    rfl

theorem Levelled.background {env : Env} {r r' : ReplicatedStore}
    (h : Levelled env r r') :
    r'.backgroundSnapshots = r.backgroundSnapshots := by
  cases h with
  | same _ => rfl
  | restored _ _ hrestore =>
      rcases ReplicatedStore.restore_eq_ok hrestore with ⟨_, _, _, _, rfl⟩
      rfl

theorem apply_background {env : Env} {r r' : ReplicatedStore}
    (h : r.apply env = Except.ok r') :
    r'.backgroundSnapshots = r.backgroundSnapshots := by
  rcases apply_parts h with
    rfl | ⟨level, store, applied, hlevel, _, rfl | ⟨job, started, sink, hstart,
      _, hfinish⟩⟩
  · rfl
  · exact hlevel.background
  · have hstarted := startSnapshot_background (level.batched store applied)
    rw [hstart] at hstarted
    exact (finishSnapshot_background hfinish).trans
      (hstarted.trans hlevel.background)

/-- Applying waits for a snapshot that is restored in the background. -/
theorem apply_waits {env : Env} {r r' : ReplicatedStore}
    (hbackground : r.backgroundSnapshots = true)
    (hahead : r.applied < r.snapshotIndex) (h : r.apply env = Except.ok r') :
    r' = r := by
  unfold ReplicatedStore.apply at h
  rw [hbackground, if_pos] at h
  · cases h
    rfl
  · rw [Bool.and_true, decide_eq_true_eq]
    exact hahead

/-!
# Applying
-/

/-- A replica that has gone on from a node: it takes as much to be committed, its log
has no gaps either, it has applied no more than some index, and it has what the node
had past that. -/
structure Arrived (n : Node) (bound : Nat) (r : ReplicatedStore) : Prop where
  commit : r.node.commitIndex = n.commitIndex
  base : n.storage.log.base.index <= r.node.storage.log.base.index
  follows : Follows n.storage.log.base.index n.storage.log.entries ->
    Follows r.node.storage.log.base.index r.node.storage.log.entries
  applied : r.applied <= bound
  past : forall e, Has n.storage.log e -> r.applied < e.index ->
    Has r.node.storage.log e

theorem Arrived.mono {n : Node} {bound bound' : Nat} {r : ReplicatedStore}
    (h : Arrived n bound r) (hle : bound <= bound') : Arrived n bound' r :=
  ⟨h.commit, h.base, h.follows, Nat.le_trans h.applied hle, h.past⟩

theorem arrived_of_eq {n : Node} {bound : Nat} {r : ReplicatedStore}
    (hstorage : r.node.storage = n.storage)
    (hcommit : r.node.commitIndex = n.commitIndex) (happlied : r.applied <= bound) :
    Arrived n bound r where
  commit := hcommit
  base := Nat.le_of_eq (by rw [hstorage])
  follows hfollows := by
    rw [hstorage]
    exact hfollows
  applied := happlied
  past e h _ := by
    rw [hstorage]
    exact h

/-- A snapshot of entries that have been applied, and that the log has. -/
structure Compactable (r : ReplicatedStore) (sink : MemSnapshot) : Prop where
  applied : sink.about.index <= r.applied
  held : r.node.storage.log.base.index < sink.about.index ->
    (r.node.storage.log.entry sink.about.index).map Entry.term =
      some sink.about.term

theorem finishSnapshot_arrives {env : Env} {r r' : ReplicatedStore}
    {sink : MemSnapshot} (hsink : Compactable r sink)
    (h : r.finishSnapshot env sink = Except.ok r') :
    Arrived r.node r.applied r' := by
  have hnode := finishSnapshot_node h
  have happlied := finishSnapshot_applied h
  unfold Node.finishCompaction at hnode
  split at hnode
  · exact arrived_of_eq (by rw [hnode]) (by rw [hnode]) (Nat.le_of_eq happlied)
  · next hnewer =>
      have hpast : r.node.storage.log.base.index < sink.about.index :=
        Nat.lt_of_not_le hnewer
      dsimp only at hnode
      refine ⟨by rw [hnode], ?_, ?_, Nat.le_of_eq happlied, ?_⟩
      · rw [hnode]
        dsimp only
        rw [MemStorage.installSnapshot_mem hpast]
        show _ <= (r.node.storage.log.compact sink.about).2.base.index
        rw [EntryLog.compact_snd hpast]
        exact Nat.le_of_lt hpast
      · intro hfollows
        rw [hnode]
        exact MemStorage.follows_installSnapshot _ hfollows
      · intro e hhas hbeyond
        rw [hnode]
        apply hhas.installed
        intro _ hdiscards
        rcases hdiscards with hreaches | hdiffers
        · have hwithin := hsink.applied
          omega
        · exact hdiffers (hsink.held hpast)

theorem compactable_of_started {r r' : ReplicatedStore} {job : SnapshotJob}
    (h : r.startSnapshot = (some job, r')) :
    job.sink.about.index = r.applied ∧
      r.node.storage.log.base.index < r.applied ∧
      (r.node.storage.log.entry r.applied).map Entry.term =
        some job.sink.about.term := by
  have hbegin := (startSnapshot_some h).1
  unfold Node.beginCompaction at hbegin
  split at hbegin
  · cases hbegin
  · next hwithin =>
      rw [Bool.or_eq_true, decide_eq_true_eq, decide_eq_true_eq] at hwithin
      have hpast : r.node.storage.log.base.index < r.applied :=
        Nat.lt_of_not_le (fun hle => hwithin (Or.inl hle))
      rcases Option.map_eq_some_iff.mp hbegin with ⟨term, hterm, hsink⟩
      rw [← hsink]
      refine ⟨rfl, hpast, ?_⟩
      rw [MemStorage.termAt, EntryLog.termAt, if_neg (Nat.ne_of_gt hpast)] at hterm
      exact hterm

theorem SnapshotJob.about_run {job : SnapshotJob} {dir : Dir} {sink : MemSnapshot}
    (h : job.run dir = Except.ok sink) : sink.about = job.sink.about := by
  unfold SnapshotJob.run writeSnapshot StoreView.forEach at h
  apply Fallible.foldlM_keeps
    (P := fun out : MemSnapshot => out.about = job.sink.about) _ rfl h
  intro entry _ out next hout hnext
  rcases Fallible.bind_eq_ok hnext with ⟨value, _, hwrite⟩
  rcases Fallible.map_eq_ok hwrite with ⟨bytes, _, rfl⟩
  exact hout

/-- Of a log that agrees with the cluster's, what is committed is handed over, and
nothing else. -/
theorem taken_committed {c : Committed} {n : Node} (hagrees : Agrees c n)
    {e : Entry} (hmem : e ∈ n.takeCommitted.2) :
    c.entry e.index = e ∧ e.index <= n.commitIndex := by
  rcases List.mem_filterMap.mp hmem with ⟨i, hi, hentry⟩
  have hcommit : i <= n.commitIndex := by
    rw [MemStorage.indices, List.mem_range'_1] at hi
    omega
  have hbase : n.storage.log.base.index < i := (EntryLog.entry_eq_some hentry).1
  rw [hagrees i hbase hcommit] at hentry
  rw [← Option.some.inj hentry, c.index]
  exact ⟨rfl, hcommit⟩

theorem Levelled.applied {env : Env} {r r' : ReplicatedStore}
    (h : Levelled env r r') :
    r.applied <= r'.applied ∧ r'.applied <= max r.applied r.snapshotIndex := by
  cases h with
  | same _ => exact ⟨Nat.le_refl _, Nat.le_max_left _ _⟩
  | restored hahead _ hrestore =>
      rw [restore_applied hrestore]
      exact ⟨Nat.le_of_lt hahead, Nat.le_max_right _ _⟩

theorem applied_within {env : Env} {entries : List Entry} {bound : Nat}
    (hentries : forall e, e ∈ entries -> e.index <= bound)
    {state state' : Store × Nat}
    (h : entries.foldlM (applyEntry env) state = Except.ok state') :
    state.2 <= state'.2 ∧ state'.2 <= max state.2 bound := by
  apply Fallible.foldlM_keeps (P := fun next : Store × Nat =>
    state.2 <= next.2 ∧ next.2 <= max state.2 bound) _
    ⟨Nat.le_refl _, Nat.le_max_left _ _⟩ h
  intro e he next next' hnext hmove
  have hindex := hentries e he
  rw [applyEntry_applied hmove]
  omega

/-- The replica applies no further than its snapshot and what it takes to be
committed, and never goes back. -/
theorem apply_arrives {c : Committed} {env : Env} {r r' : ReplicatedStore}
    (hagrees : Agrees c r.node) (h : r.apply env = Except.ok r') :
    r.applied <= r'.applied ∧
      Arrived r.node (max r.applied (max r.snapshotIndex r.node.commitIndex))
        r' := by
  rcases apply_parts h with rfl | ⟨level, store, applied, hlevel, hloop, hrest⟩
  · exact ⟨Nat.le_refl _, arrived_of_eq rfl rfl (Nat.le_max_left _ _)⟩
  · have hreached := hlevel.applied
    have hcommitted : forall e, e ∈ level.node.takeCommitted.2 ->
        e.index <= r.node.commitIndex := by
      intro e he
      rw [hlevel.node_eq] at he
      exact (taken_committed hagrees he).2
    have hwithin := applied_within hcommitted hloop
    dsimp only at hwithin
    have hstorage : (level.batched store applied).node.storage =
        r.node.storage := by
      show level.node.storage = _
      rw [hlevel.node_eq]
    have hcommit : (level.batched store applied).node.commitIndex =
        r.node.commitIndex := by
      show level.node.commitIndex = _
      rw [hlevel.node_eq]
    rcases hrest with rfl | ⟨job, started, sink, hstart, hrun, hfinish⟩
    · refine ⟨?_, arrived_of_eq hstorage hcommit ?_⟩
      · exact Nat.le_trans hreached.1 hwithin.1
      · show applied <= _
        omega
    · rcases compactable_of_started hstart with ⟨hindex, hpast, hheld⟩
      have hnode := (startSnapshot_some hstart).2
      have happlied := startSnapshot_applied hstart
      have habout := SnapshotJob.about_run hrun
      have hsink : Compactable started sink := by
        constructor
        · rw [habout, hindex, happlied]
        · intro _
          rw [habout, hnode, hindex]
          exact hheld
      have harrived := finishSnapshot_arrives hsink hfinish
      have hdone : r'.applied = applied :=
        (finishSnapshot_applied hfinish).trans happlied
      rw [hdone]
      refine ⟨Nat.le_trans hreached.1 hwithin.1, ?_, ?_, ?_, ?_, ?_⟩
      · rw [harrived.commit, hnode, hcommit]
      · rw [← hstorage, ← hnode]
        exact harrived.base
      · intro hfollows
        rw [← hstorage, ← hnode] at hfollows
        exact harrived.follows hfollows
      · rw [hdone]
        omega
      · intro e hhas hbeyond
        rw [← hstorage, ← hnode] at hhas
        exact harrived.past e hhas hbeyond

/-!
# Events
-/

theorem base_event (r : ReplicatedStore) (e : Event) :
    r.snapshotIndex <= (e.node r).storage.snapshotMeta.index := by
  have hsteady : forall {n : Node}, Node.Steady r.node n ->
      r.snapshotIndex <= n.storage.snapshotMeta.index := by
    intro n h
    exact Nat.le_of_eq (congrArg SnapshotMeta.index h.base.symm)
  cases e with
  | tick env => exact hsteady (Node.steady_tick _)
  | step env sender message =>
      rcases Event.operation_step r env sender message with
        ⟨_, hnode⟩ | ⟨_, hnode⟩
      · rw [hnode]
        exact Nat.le_refl _
      · rw [hnode]
        cases Node.received_step r.node sender message with
        | same _ _ hbase _ _ =>
            exact Nat.le_of_eq (congrArg SnapshotMeta.index hbase.symm)
        | newer hnewer _ => exact Nat.le_of_lt hnewer
  | campaign => exact hsteady (Node.steady_campaign _)
  | readIndex => exact hsteady (Node.steady_readIndex _)
  | forgetRead request => exact hsteady (Node.steady_forgetRead _ _)
  | propose op now =>
      dsimp only [Event.node]
      split
      · next haccepted =>
          unfold ReplicatedStore.propose at haccepted
          split at haccepted
          · cases haccepted
          · split at haccepted
            · cases haccepted
            · next hproposed =>
                cases haccepted
                exact hsteady (Node.steady_propose hproposed)
      · exact Nat.le_refl _
  | proposeBatch commands =>
      dsimp only [Event.node]
      split
      · next haccepted =>
          rcases Fallible.map_eq_ok haccepted with ⟨_, hproposed, heq⟩
          cases heq
          exact hsteady (Node.steady_proposeBatch hproposed)
      · exact Nat.le_refl _
  | proposeMembership members =>
      dsimp only [Event.node]
      split
      · next haccepted =>
          rcases Fallible.map_eq_ok haccepted with ⟨_, hproposed, heq⟩
          cases heq
          exact hsteady (Node.steady_proposeMembership hproposed)
      · exact Nat.le_refl _
  | _ => exact Nat.le_refl _

/-- What is left to be applied to lies between what was applied and the snapshot. -/
theorem Placed.applies {c : Committed} {s s₁ : System} {e : Event} {env : Env}
    (h : Placed c s) (happlies : e.applies s = some (env, s₁)) :
    s.replica.applied <= s₁.replica.applied ∧
      s₁.replica.applied <= max s.replica.applied s.replica.snapshotIndex := by
  have hsame := And.intro (Nat.le_refl s.replica.applied)
    (Nat.le_max_left s.replica.applied s.replica.snapshotIndex)
  cases e with
  | tick env' =>
      cases happlies
      exact hsame
  | step env' sender message =>
      rcases Event.applies_step happlies with ⟨rfl, _⟩
      exact hsame
  | finishRestore env' =>
      have haimed := h.restore
      unfold Event.applies at happlies
      dsimp only at happlies
      split at happlies
      · next done hwork =>
          rw [hwork] at haimed
          rcases haimed with ⟨_, hahead, hheld⟩
          cases happlies
          exact ⟨Nat.le_of_lt hahead, Nat.le_trans hheld (Nat.le_max_right _ _)⟩
      · cases happlies
  | _ => cases happlies

theorem Placed.compactable {c : Committed} {s : System} (h : Placed c s)
    (hagrees : forall i, s.replica.node.storage.log.base.index < i ->
      i <= s.replica.applied -> s.replica.node.storage.entry i = some (c.entry i))
    {sink : MemSnapshot} (hwork : s.snapshot = Work.finished sink) :
    Compactable s.replica sink := by
  have hbegun := h.snapshot
  rw [hwork] at hbegun
  rcases hbegun with ⟨hwithin, hterm⟩
  refine ⟨hwithin, ?_⟩
  intro hpast
  rw [show s.replica.node.storage.log.entry sink.about.index = _ from
    hagrees _ hpast hwithin, Option.map_some, hterm]

/-- No event takes the replica back, or further than its snapshot and what it takes to
be committed. -/
theorem Placed.arrives {c : Committed} {s s' : System} {e : Event} (h : Placed c s)
    (hcommitted : Agrees c (e.node s.replica))
    (happlied : forall i, (e.node s.replica).storage.log.base.index < i ->
      i <= s.replica.applied ->
      (e.node s.replica).storage.entry i = some (c.entry i))
    (hnext : s.next e = Except.ok s') :
    s.replica.applied <= s'.replica.applied ∧
      Arrived (e.node s.replica) (max s.replica.applied
        (max (e.node s.replica).storage.snapshotMeta.index
          (e.node s.replica).commitIndex)) s'.replica := by
  have hbase := base_event s.replica e
  cases System.next_handled hnext with
  | same hnode _ hsame =>
      refine ⟨Nat.le_of_eq hsame.symm, ?_⟩
      apply arrived_of_eq (by rw [hnode]) (by rw [hnode])
      rw [hsame]
      exact Nat.le_max_left _ _
  | applied happlies hnode _ happly =>
      rcases h.applies happlies with ⟨hforward, hwithin⟩
      rw [← hnode] at hcommitted hbase ⊢
      rcases apply_arrives hcommitted happly with ⟨hgone, harrived⟩
      refine ⟨Nat.le_trans hforward hgone, harrived.mono ?_⟩
      unfold ReplicatedStore.snapshotIndex at hbase hwithin ⊢
      omega
  | started hnode hstart _ =>
      have hsame := startSnapshot_applied hstart
      have hkept := (startSnapshot_some hstart).2
      rw [hnode]
      refine ⟨Nat.le_of_eq hsame.symm, ?_⟩
      apply arrived_of_eq (by rw [hkept]) (by rw [hkept])
      rw [hsame]
      exact Nat.le_max_left _ _
  | ran hnode _ _ hreplica _ =>
      rw [hnode, hreplica]
      exact ⟨Nat.le_refl _, arrived_of_eq rfl rfl (Nat.le_max_left _ _)⟩
  | finished hnode hwork hfinish _ =>
      rw [hnode] at happlied ⊢
      have harrived := finishSnapshot_arrives (h.compactable happlied hwork) hfinish
      refine ⟨Nat.le_of_eq (finishSnapshot_applied hfinish).symm, ?_⟩
      exact harrived.mono (Nat.le_max_left _ _)

/-!
# The jobs stay in place
-/

theorem startRestore_none {r r' : ReplicatedStore}
    (h : r.startRestore = (none, r')) : r' = r := by
  unfold ReplicatedStore.startRestore at h
  split at h
  · cases h
    rfl
  · split at h
    · cases h
      rfl
    · cases h

/-- A restore that is begun goes to the snapshot that the node holds, and waits for
nothing else. -/
theorem startRestore_aimed {r r' : ReplicatedStore} {job : RestoreJob}
    (h : r.startRestore = (some job, r')) :
    r'.backgroundSnapshots = true ∧ r'.applied < job.index ∧
      job.index <= r'.snapshotIndex := by
  unfold ReplicatedStore.startRestore at h
  split at h
  · cases h
  · next hdue =>
      split at h
      · cases h
      · cases h
        simp only [Bool.or_eq_true, Bool.not_eq_true', decide_eq_true_eq, not_or,
          Bool.not_eq_false, Nat.not_le] at hdue
        exact ⟨hdue.1.1, hdue.2, Nat.le_refl _⟩

theorem RestoreJob.index_run {job : RestoreJob} {dir dir' : Dir}
    {done : RestoredStore} (h : job.run dir = Except.ok (done, dir')) :
    done.index = job.index := by
  rcases Fallible.bind_eq_ok h with ⟨_, _, hdone⟩
  cases hdone
  rfl

/-- The events that a restore goes through. -/
def Event.restores : Event -> Bool
  | startRestore => true
  | runRestore => true
  | finishRestore _ => true
  | abandonRestore => true
  | _ => false

theorem System.next_aside {s s' : System} {e : Event} (haside : e.restores = false)
    (h : s.next e = Except.ok s') :
    s'.restore = s.restore ∧
      s'.replica.backgroundSnapshots = s.replica.backgroundSnapshots := by
  cases e with
  | tick env =>
      rw [System.next_applies (s := s) (e := Event.tick env) rfl] at h
      rcases Fallible.map_eq_ok h with ⟨r, happly, rfl⟩
      have hflag := apply_background happly
      exact ⟨rfl, hflag⟩
  | step env sender message =>
      cases happlies : (Event.step env sender message).applies s with
      | none =>
          rw [System.next_ignored happlies
            (Or.inr (Or.inl ⟨env, sender, message, rfl⟩))] at h
          cases h
          exact ⟨rfl, rfl⟩
      | some begun =>
          rcases begun with ⟨env', s₁⟩
          have hs₁ := (Event.applies_step happlies).1
          rw [System.next_applies happlies] at h
          rcases Fallible.map_eq_ok h with ⟨r, happly, rfl⟩
          rw [hs₁] at happly ⊢
          have hflag := apply_background happly
          exact ⟨rfl, hflag⟩
  | propose op now =>
      cases h
      unfold System.accepted ReplicatedStore.propose
      cases op.encode now with
      | error e => exact ⟨rfl, rfl⟩
      | ok bytes =>
          dsimp only
          cases s.replica.node.propose bytes <;> exact ⟨rfl, rfl⟩
  | proposeBatch commands =>
      cases h
      unfold System.accepted ReplicatedStore.proposeBatch
      dsimp only
      cases s.replica.node.proposeBatch commands <;> exact ⟨rfl, rfl⟩
  | proposeMembership members =>
      cases h
      unfold System.accepted ReplicatedStore.proposeMembership
      dsimp only
      cases s.replica.node.proposeMembership members <;> exact ⟨rfl, rfl⟩
  | startSnapshot =>
      have hflag := startSnapshot_background s.replica
      unfold System.next at h
      dsimp only at h
      split at h
      · next r hstart =>
          rw [hstart] at hflag
          cases h
          exact ⟨rfl, hflag⟩
      · next job r hstart =>
          rw [hstart] at hflag
          cases h
          exact ⟨rfl, hflag⟩
  | runSnapshot =>
      unfold System.next at h
      dsimp only at h
      split at h
      · rcases Fallible.map_eq_ok h with ⟨_, _, rfl⟩
        exact ⟨rfl, rfl⟩
      · cases h
        exact ⟨rfl, rfl⟩
  | finishSnapshot env =>
      unfold System.next at h
      dsimp only at h
      split at h
      · rcases Fallible.map_eq_ok h with ⟨_, hfinish, rfl⟩
        exact ⟨rfl, finishSnapshot_background hfinish⟩
      · cases h
        exact ⟨rfl, rfl⟩
  | startCompaction =>
      unfold System.next ReplicatedStore.startCompaction at h
      dsimp only at h
      split at h
      · next hstart =>
          cases h
          split at hstart
          · cases hstart
          · split at hstart
            · cases hstart
              exact ⟨rfl, rfl⟩
            · cases hstart
      · next hstart =>
          cases h
          split at hstart
          · cases hstart
            exact ⟨rfl, rfl⟩
          · split at hstart
            · cases hstart
              exact ⟨rfl, rfl⟩
            · cases hstart
              exact ⟨rfl, rfl⟩
  | runCompaction =>
      unfold System.next at h
      dsimp only at h
      split at h
      · rcases Fallible.map_eq_ok h with ⟨_, _, rfl⟩
        exact ⟨rfl, rfl⟩
      · cases h
        exact ⟨rfl, rfl⟩
  | finishCompaction =>
      unfold System.next at h
      dsimp only at h
      split at h <;> cases h <;> exact ⟨rfl, rfl⟩
  | abandonCompaction left =>
      unfold System.next at h
      dsimp only at h
      split at h <;> cases h <;> exact ⟨rfl, rfl⟩
  | startRestore => cases haside
  | runRestore => cases haside
  | finishRestore env => cases haside
  | abandonRestore => cases haside
  | _ =>
      cases h
      exact ⟨rfl, rfl⟩

theorem Event.applies_aside {s s₁ : System} {e : Event} {env : Env}
    (haside : e.restores = false) (h : e.applies s = some (env, s₁)) :
    s₁.replica.applied = s.replica.applied ∧
      s₁.replica.backgroundSnapshots = s.replica.backgroundSnapshots := by
  cases e with
  | tick env' =>
      cases h
      exact ⟨rfl, rfl⟩
  | step env' sender message =>
      rcases Event.applies_step h with ⟨rfl, _⟩
      exact ⟨rfl, rfl⟩
  | finishRestore env' => cases haside
  | _ => cases h

theorem Placed.next {c : Committed} {s s' : System} {e : Event} (h : Placed c s)
    (hcommitted : Agrees c (e.node s.replica))
    (happlied : forall i, (e.node s.replica).storage.log.base.index < i ->
      i <= s.replica.applied ->
      (e.node s.replica).storage.entry i = some (c.entry i))
    (hnext : s.next e = Except.ok s') : Placed c s' := by
  rcases h.arrives hcommitted happlied hnext with ⟨hforward, harrived⟩
  have hbase : s.replica.snapshotIndex <= s'.replica.snapshotIndex :=
    Nat.le_trans (base_event s.replica e) harrived.base
  have hbegun := h.snapshot
  have haimed := h.restore
  constructor
  · have hkept : Begun (fun sink => sink.about.index <= s'.replica.applied ∧
        (c.entry sink.about.index).term = sink.about.term) s.snapshot :=
      hbegun.mono fun _ hsink => ⟨Nat.le_trans hsink.1 hforward, hsink.2⟩
    cases System.next_handled hnext with
    | same _ hsnapshot _ =>
        rcases hsnapshot with hsame | hgone
        · rw [hsame]
          exact hkept
        · rw [hgone]
          trivial
    | applied _ _ hsnapshot _ =>
        rw [hsnapshot]
        exact hkept
    | started hnode hstart hsnapshot =>
        rcases compactable_of_started hstart with ⟨hindex, hpast, hheld⟩
        rw [hnode] at happlied
        rw [hsnapshot]
        refine ⟨?_, ?_⟩
        · rw [hindex]
          exact hforward
        · rw [show s.replica.node.storage.log.entry s.replica.applied = _ from
            happlied _ hpast (Nat.le_refl _), Option.map_some] at hheld
          rw [hindex]
          exact Option.some.inj hheld
    | ran _ hwork hrun _ hsnapshot =>
        rw [hwork] at hkept
        rw [hsnapshot]
        show _ ∧ _
        rw [SnapshotJob.about_run hrun]
        exact hkept
    | finished _ _ _ hsnapshot =>
        rw [hsnapshot]
        trivial
  · cases haside : e.restores with
    | false =>
        rcases System.next_aside haside hnext with ⟨hsame, hflag⟩
        rw [hsame, hflag]
        have hwaits : forall index, s.replica.backgroundSnapshots = true ->
            s.replica.applied < index -> index <= s.replica.snapshotIndex ->
            s'.replica.applied = s.replica.applied := by
          intro index hbackground hahead hheld
          cases System.next_handled hnext with
          | same _ _ hstill => exact hstill
          | applied happlies hnode _ happly =>
              rcases Event.applies_aside haside happlies with ⟨hstill, hsame₁⟩
              have hnodeBase := base_event s.replica e
              rw [← hnode] at hnodeBase
              have hwaiting := apply_waits (hsame₁.trans hbackground) (by
                rw [hstill]
                exact Nat.lt_of_lt_of_le hahead
                  (Nat.le_trans hheld hnodeBase)) happly
              rw [hwaiting, hstill]
          | started _ hstart _ => exact startSnapshot_applied hstart
          | ran _ _ _ hreplica _ => rw [hreplica]
          | finished _ _ hfinish _ => exact finishSnapshot_applied hfinish
        refine haimed.mono ?_
        rintro index ⟨hbackground, hahead, hheld⟩
        rw [hwaits index hbackground hahead hheld]
        exact ⟨hbackground, hahead, Nat.le_trans hheld hbase⟩
    | true =>
        cases e with
        | startRestore =>
            unfold System.next at hnext
            dsimp only at hnext
            split at hnext
            · next r hstart =>
                cases hnext
                rw [startRestore_none hstart]
                exact haimed
            · next job r hstart =>
                cases hnext
                exact startRestore_aimed hstart
        | runRestore =>
            unfold System.next at hnext
            dsimp only at hnext
            split at hnext
            · next job hwork =>
                rw [hwork] at haimed
                rcases Fallible.map_eq_ok hnext with ⟨⟨done, dir⟩, hrun, rfl⟩
                have hindex := RestoreJob.index_run hrun
                unfold Aimed System.withDir
                dsimp only
                rw [hindex]
                exact haimed
            · cases hnext
              exact haimed
        | finishRestore env =>
            unfold System.next at hnext
            dsimp only at hnext
            split at hnext
            · rcases Fallible.map_eq_ok hnext with ⟨_, _, rfl⟩
              trivial
            · cases hnext
              exact haimed
        | abandonRestore =>
            unfold System.next at hnext
            dsimp only at hnext
            split at hnext
            · cases hnext
              trivial
            · cases hnext
              exact haimed
        | _ => cases haside

end Replicated
end Minicask
