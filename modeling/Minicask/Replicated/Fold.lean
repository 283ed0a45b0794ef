import Minicask.Replicated.Applying
import Minicask.Store.Map

/-!
# The replica's store is the fold of the log

Whatever the replica and its jobs do, and in whatever order, the store stands for
the writes of the committed log up to the applied index.
-/

namespace Minicask
namespace Replicated

open Raft Replay

/-- The id that has been left for a file written off to the side. -/
def System.slot (s : System) : Option FileId :=
  match s.compaction, s.restore with
  | Work.started job, _ => some job.mergedId
  | Work.finished merged, _ => some merged.id
  | Work.idle, Work.started job => some job.job.id
  | Work.idle, Work.finished done => some done.file.id
  | Work.idle, Work.idle => none

/-- A snapshot's view reads files that are there already, and not the one that a
job is about to put in its slot. -/
def SnapshotOk (c : Committed) (high : Nat) (s : System) : Prop :=
  match s.snapshot with
  | Work.idle => True
  | Work.started job =>
      job.Ok c high s.replica ∧ forall id, id ∈ job.view.readers ->
        id <= s.replica.store.writer.fileId ∧ s.slot ≠ some id
  | Work.finished sink =>
      (exists m, c.Stands high sink.about.index m ∧ Encodes sink.data m) ∧
        Covered sink.about.index s.replica

def CompactionOk (s : System) : Prop :=
  match s.compaction with
  | Work.idle => True
  | Work.started job =>
      job.Ok s.replica.store ∧ s.replica.store.compacting = true ∧
        s.replica.restoring = false
  | Work.finished merged =>
      merged.Ok s.replica.store ∧ s.replica.store.compacting = true ∧
        s.replica.restoring = false

def RestoreOk (c : Committed) (high : Nat) (s : System) : Prop :=
  match s.restore with
  | Work.idle => True
  | Work.started job =>
      s.replica.store.Reserved job.job.id job.job.oldIds ∧ job.job.Of [] ∧
        (exists m, c.Stands high job.index m ∧ Encodes job.reader m) ∧
        job.index = s.replica.snapshotIndex ∧ s.replica.restoring = true
  | Work.finished done =>
      (exists m, c.Stands high done.index m ∧
        done.file.Ok s.replica.store m) ∧
        done.index = s.replica.snapshotIndex ∧ s.replica.restoring = true

structure Invariant (c : Committed) (high : Nat) (s : System) : Prop where
  good : Good c high s.replica
  snapshot : SnapshotOk c high s
  compaction : CompactionOk s
  restore : RestoreOk c high s

/-!
# The replica moves on under its jobs
-/

theorem Covered.moved {index : Nat} {r r' : ReplicatedStore}
    (h : Covered index r) (happlied : r.applied <= r'.applied)
    (hhanded : r.node.lastApplied <= r'.node.lastApplied) : Covered index r' :=
  ⟨Nat.le_trans h.1 happlied, Nat.le_trans h.2 hhanded⟩

theorem SnapshotJob.Ok.moved {c : Committed} {high : Nat} {job : SnapshotJob}
    {r r' : ReplicatedStore} (h : job.Ok c high r)
    (happlied : r.applied <= r'.applied)
    (hhanded : r.node.lastApplied <= r'.node.lastApplied)
    (hkept : forall id, id ∈ job.view.readers ->
      r.store.dir.disk.handle id <+: r'.store.dir.disk.handle id) :
    job.Ok c high r' := by
  rcases h.shows with ⟨m, hstands, hshows⟩
  exact ⟨h.empty, ⟨m, hstands, hshows.kept hkept⟩,
    h.behind.moved happlied hhanded⟩

theorem SnapshotOk.moved {c : Committed} {high : Nat} {s s' : System}
    (h : SnapshotOk c high s) (hsnapshot : s'.snapshot = s.snapshot)
    (happlied : s.replica.applied <= s'.replica.applied)
    (hhanded : s.replica.node.lastApplied <= s'.replica.node.lastApplied)
    (hkept : s.replica.store.Kept s'.replica.store)
    (hslot : forall id, id <= s.replica.store.writer.fileId ->
      s.slot ≠ some id -> s'.slot ≠ some id) : SnapshotOk c high s' := by
  unfold SnapshotOk at h ⊢
  rw [hsnapshot]
  cases hwork : s.snapshot with
  | idle => trivial
  | started job =>
      rw [hwork] at h
      refine ⟨h.1.moved happlied hhanded
        (fun id hid => hkept.handles id (h.2 id hid).1), ?_⟩
      intro id hid
      exact ⟨Nat.le_trans (h.2 id hid).1 hkept.newer,
        hslot id (h.2 id hid).1 (h.2 id hid).2⟩
  | finished sink =>
      rw [hwork] at h
      exact ⟨h.1, h.2.moved happlied hhanded⟩

theorem CompactionOk.later {s s' : System} (h : CompactionOk s)
    (hcompaction : s'.compaction = s.compaction)
    (hlater : s.replica.store.compacting = true ->
      s.replica.store.Later s'.replica.store)
    (hrestoring : s'.replica.restoring = s.replica.restoring) :
    CompactionOk s' := by
  unfold CompactionOk at h ⊢
  rw [hcompaction]
  cases hwork : s.compaction with
  | idle => trivial
  | started job =>
      rw [hwork] at h
      have hl := hlater h.2.1
      exact ⟨h.1.later hl, hl.compacting.trans h.2.1, hrestoring.trans h.2.2⟩
  | finished merged =>
      rw [hwork] at h
      have hl := hlater h.2.1
      exact ⟨h.1.later hl, hl.compacting.trans h.2.1, hrestoring.trans h.2.2⟩

theorem RestoreOk.same {c : Committed} {high : Nat} {s s' : System}
    (h : RestoreOk c high s)
    (hrestore : s'.restore = s.restore)
    (hsame : s.replica.restoring = true ->
      s'.replica.store = s.replica.store ∧
        s'.replica.snapshotIndex = s.replica.snapshotIndex)
    (hrestoring : s'.replica.restoring = s.replica.restoring) :
    RestoreOk c high s' := by
  unfold RestoreOk at h ⊢
  rw [hrestore]
  cases hwork : s.restore with
  | idle => trivial
  | started job =>
      rw [hwork] at h
      rcases h with ⟨hslot, hof, hencodes, hindex, hwait⟩
      rcases hsame hwait with ⟨hstore, hsnapshot⟩
      exact ⟨hstore ▸ hslot, hof, hencodes, hindex.trans hsnapshot.symm,
        hrestoring.trans hwait⟩
  | finished done =>
      rw [hwork] at h
      rcases h with ⟨hfile, hindex, hwait⟩
      rcases hsame hwait with ⟨hstore, hsnapshot⟩
      exact ⟨hstore ▸ hfile, hindex.trans hsnapshot.symm, hrestoring.trans hwait⟩

theorem Good.background {c : Committed} {high : Nat} {r : ReplicatedStore}
    (h : Good c high r)
    (hcompacting : r.store.compacting = true) :
    r.backgroundSnapshots = true := by
  cases hb : r.backgroundSnapshots with
  | true => rfl
  | false =>
      rw [(h.inline hb).2.1] at hcompacting
      cases hcompacting

theorem Invariant.moved {c : Committed} {high : Nat} {s : System}
    (h : Invariant c high s)
    {r : ReplicatedStore} (hgood : Good c high r) (hmoved : Moved s.replica r) :
    Invariant c high { s with replica := r } where
  good := hgood
  snapshot := h.snapshot.moved rfl hmoved.applied hmoved.handed hmoved.kept
    (fun _ _ hslot => hslot)
  compaction := h.compaction.later rfl
    (fun hcompacting => hmoved.later (h.good.background hcompacting))
    hmoved.restoring
  restore := h.restore.same rfl hmoved.waiting hmoved.restoring

/-!
# Events on the node
-/

theorem Invariant.settled {c : Committed} {high : Nat} {s : System}
    (h : Invariant c high s)
    {n : Node} (hsettled : Node.Settled s.replica.node n) :
    Invariant c high { s with replica := { s.replica with node := n } } := by
  rcases h.good.settled hsettled with ⟨hgood, hmoved⟩
  exact h.moved hgood hmoved

theorem Invariant.apply {c : Committed} (hshort : c.Short) {high : Nat} {s : System}
    (h : Invariant c high s) (env : Env) (hagrees : Agrees c s.replica.node) :
    exists r, s.replica.apply env = Except.ok r ∧
      Invariant c high { s with replica := r } := by
  rcases apply_spec env hshort h.good hagrees with ⟨r, happly, hgood, hmoved⟩
  exact ⟨r, happly, h.moved hgood hmoved⟩

theorem Invariant.propose {c : Committed} {high : Nat} {s : System}
    (h : Invariant c high s)
    (op : Op) (now : UInt64) :
    Invariant c high (s.accepted (s.replica.propose op now)) := by
  unfold ReplicatedStore.propose
  split
  · exact h
  · split
    · exact h
    · next hpropose => exact h.settled (Node.steady_propose hpropose).toSettled

theorem Invariant.proposeBatch {c : Committed} {high : Nat} {s : System}
    (h : Invariant c high s) (commands : List Bytes) :
    Invariant c high (s.accepted (s.replica.proposeBatch commands)) := by
  unfold ReplicatedStore.proposeBatch
  cases hpropose : s.replica.node.proposeBatch commands with
  | error e => exact h
  | ok done => exact h.settled (Node.steady_proposeBatch hpropose).toSettled

theorem Invariant.proposeMembership {c : Committed} {high : Nat} {s : System}
    (h : Invariant c high s) (members : List Member) :
    Invariant c high (s.accepted (s.replica.proposeMembership members)) := by
  unfold ReplicatedStore.proposeMembership
  cases hpropose : s.replica.node.proposeMembership members with
  | error e => exact h
  | ok done =>
      exact h.settled (Node.steady_proposeMembership hpropose).toSettled

/-!
# Snapshots
-/

theorem Invariant.compaction_idle {c : Committed} {high : Nat} {s : System}
    (h : Invariant c high s)
    (hcompacting : s.replica.store.compacting = false) :
    s.compaction = Work.idle := by
  have hcompaction := h.compaction
  unfold CompactionOk at hcompaction
  cases hwork : s.compaction with
  | idle => rfl
  | started job =>
      rw [hwork] at hcompaction
      rw [hcompaction.2.1] at hcompacting
      cases hcompacting
  | finished merged =>
      rw [hwork] at hcompaction
      rw [hcompaction.2.1] at hcompacting
      cases hcompacting

theorem Invariant.restore_idle {c : Committed} {high : Nat} {s : System}
    (h : Invariant c high s) (hrestoring : s.replica.restoring = false) :
    s.restore = Work.idle := by
  have hrestore := h.restore
  unfold RestoreOk at hrestore
  cases hwork : s.restore with
  | idle => rfl
  | started job =>
      rw [hwork] at hrestore
      rw [hrestore.2.2.2.2] at hrestoring
      cases hrestoring
  | finished done =>
      rw [hwork] at hrestore
      rw [hrestore.2.2] at hrestoring
      cases hrestoring

/-- Nothing the store reads lies in the slot. -/
theorem Invariant.slot_unread {c : Committed} {high : Nat} {s : System}
    (h : Invariant c high s)
    {id : FileId} (hid : id ∈ s.replica.store.readers) : s.slot ≠ some id := by
  have hcompaction := h.compaction
  have hrestore := h.restore
  unfold CompactionOk at hcompaction
  unfold RestoreOk at hrestore
  unfold System.slot
  intro hslot
  split at hslot
  · next job hwork =>
      rw [hwork] at hcompaction
      cases hslot
      exact hcompaction.1.slot.unread hid
  · next merged hwork =>
      rw [hwork] at hcompaction
      cases hslot
      exact hcompaction.1.slot.unread hid
  · next job hwork =>
      rw [hwork] at hrestore
      cases hslot
      exact hrestore.1.unread hid
  · next done hwork =>
      rw [hwork] at hrestore
      cases hslot
      rcases hrestore.1 with ⟨_, _, hfile⟩
      exact hfile.slot.unread hid
  · cases hslot

theorem startSnapshot_level {r r' : ReplicatedStore} {job : SnapshotJob}
    (h : r.startSnapshot = (some job, r')) : r.snapshotIndex <= r.applied := by
  unfold ReplicatedStore.startSnapshot at h
  split at h
  · cases h
  · next hdue =>
      simp only [ReplicatedStore.snapshotDue, Bool.not_eq_true', Bool.not_eq_false,
        Bool.and_eq_true, decide_eq_true_eq] at hdue
      exact Nat.le_trans (Nat.le_add_right _ _) hdue.2

theorem Invariant.startSnapshot {c : Committed} {high : Nat} {s : System}
    (h : Invariant c high s) :
    exists s', s.next Event.startSnapshot = Except.ok s' ∧ Invariant c high s' := by
  unfold System.next
  rcases startSnapshot_spec h.good with
    hnone | ⟨job, store, hstart, hreaders, hlater, hjob, hgood⟩
  · rw [hnone]
    exact ⟨s, rfl, h⟩
  · have hwritable := h.good.writable (startSnapshot_level hstart)
    have hstarted := h.moved hgood
      (moved_of_later hwritable hlater (Nat.le_refl _) (Nat.le_refl _) rfl rfl)
    rw [hstart]
    refine ⟨_, rfl, ⟨hgood, ⟨hjob, ?_⟩, hstarted.compaction,
      hstarted.restore⟩⟩
    intro id hid
    rw [hreaders] at hid
    exact ⟨Nat.le_trans (h.good.ok.newest id (h.good.ok.linked id hid))
      hlater.newer, h.slot_unread hid⟩

theorem Invariant.runSnapshot {c : Committed} {high : Nat} {s : System}
    (h : Invariant c high s) :
    exists s', s.next Event.runSnapshot = Except.ok s' ∧ Invariant c high s' := by
  have hsnapshot := h.snapshot
  unfold SnapshotOk at hsnapshot
  unfold System.next
  cases hwork : s.snapshot with
  | idle => exact ⟨s, rfl, h⟩
  | started job =>
      rw [hwork] at hsnapshot
      rcases hsnapshot.1.run with ⟨sink, hrun, hencodes, hbehind⟩
      dsimp only
      rw [hrun]
      exact ⟨_, rfl, h.good, ⟨hencodes, hbehind⟩, h.compaction, h.restore⟩
  | finished sink => exact ⟨s, rfl, h⟩

theorem Invariant.finishSnapshot {c : Committed} {high : Nat} {s : System}
    (h : Invariant c high s) (env : Env) :
    exists s', s.next (Event.finishSnapshot env) = Except.ok s' ∧
      Invariant c high s' := by
  have hsnapshot := h.snapshot
  unfold SnapshotOk at hsnapshot
  unfold System.next
  cases hwork : s.snapshot with
  | idle => exact ⟨s, rfl, h⟩
  | started job => exact ⟨s, rfl, h⟩
  | finished sink =>
      rw [hwork] at hsnapshot
      rcases finishSnapshot_spec env h.good hsnapshot.1 hsnapshot.2 with
        ⟨r, hfinish, hgood, hmoved⟩
      have hinstalled := h.moved hgood hmoved
      dsimp only
      rw [hfinish]
      exact ⟨_, rfl, hgood, trivial, hinstalled.compaction,
        hinstalled.restore⟩

theorem Invariant.abandonSnapshot {c : Committed} {high : Nat} {s : System}
    (h : Invariant c high s) :
    Invariant c high { s with
      replica := s.replica.abandonSnapshot
      snapshot := Work.idle } :=
  ⟨⟨h.good.ok, h.good.stands, h.good.level, h.good.snapshot,
    h.good.restoring, h.good.waiting, h.good.inline⟩, trivial, h.compaction,
    h.restore⟩

theorem Invariant.setSnapshotEvery {c : Committed} {high : Nat} {s : System}
    (h : Invariant c high s) (entries : Nat) :
    Invariant c high { s with
      replica := { s.replica with snapshotEvery := entries } } := by
  refine h.moved ⟨h.good.ok, h.good.stands, h.good.level, h.good.snapshot,
    h.good.restoring, h.good.waiting, h.good.inline⟩ ?_
  exact ⟨Store.Kept.refl _, fun _ => Store.Later.refl _, Nat.le_refl _,
    Nat.le_refl _, rfl, fun _ => ⟨rfl, rfl⟩, rfl⟩

/-!
# Compactions
-/

/-- A file was put into the slot. -/
theorem SnapshotOk.placed {c : Committed} {high : Nat} {s : System}
    (h : SnapshotOk c high s)
    {slot : FileId} (hslot : s.slot = some slot) {bytes : Bytes} {dir : Dir}
    (hplaced : s.replica.store.dir.Placed slot bytes dir) {s' : System}
    (hreplica : s'.replica = (s.withDir dir).replica)
    (hsnapshot : s'.snapshot = s.snapshot) (hsame : s'.slot = some slot) :
    SnapshotOk c high s' := by
  unfold SnapshotOk at h ⊢
  rw [hsnapshot, hreplica, hsame]
  cases hwork : s.snapshot with
  | idle => trivial
  | started job =>
      rw [hwork, hslot] at h
      refine ⟨h.1.moved (Nat.le_refl _) (Nat.le_refl _) ?_, h.2⟩
      intro id hid
      have hne : id ≠ slot := fun heq => (h.2 id hid).2 (by rw [heq])
      show _ <+: dir.disk.handle id
      rw [hplaced.handle hne]
  | finished sink =>
      rw [hwork] at h
      exact h

theorem Good.placed {c : Committed} {high : Nat} {r : ReplicatedStore}
    (h : Good c high r)
    {slot : FileId} {oldIds : List FileId} {bytes : Bytes} {dir : Dir}
    (hslot : r.store.Reserved slot oldIds)
    (hplaced : r.store.dir.Placed slot bytes dir) :
    Good c high { r with store := { r.store with dir := dir } } := by
  rcases h.stands with ⟨m, hstands, hindexes⟩
  exact ⟨h.ok.placed hslot hplaced,
    ⟨m, hstands, hindexes.placed hslot hplaced⟩, h.level, h.snapshot,
    h.restoring, h.waiting, h.inline⟩

theorem Invariant.startCompaction {c : Committed} {high : Nat} {s : System}
    (h : Invariant c high s) :
    exists s', s.next Event.startCompaction = Except.ok s' ∧
      Invariant c high s' := by
  unfold System.next ReplicatedStore.startCompaction
  by_cases hdue : s.replica.compactionDue = true
  · rw [if_neg (by simp [hdue])]
    have hgood : Good c high { s.replica with compactionDue := false } :=
      ⟨h.good.ok, h.good.stands, h.good.level, h.good.snapshot,
        h.good.restoring, h.good.waiting,
        fun hinline => ⟨(h.good.inline hinline).1, (h.good.inline hinline).2.1,
          rfl⟩⟩
    have hnoted : Invariant c high { s with
        replica := { s.replica with compactionDue := false } } :=
      h.moved hgood ⟨Store.Kept.refl _, fun _ => Store.Later.refl _,
        Nat.le_refl _, Nat.le_refl _, rfl, fun _ => ⟨rfl, rfl⟩, rfl⟩
    dsimp only
    by_cases hbusy : s.replica.store.compacting = true ∨
        s.replica.store.restoring = true
    · have hbegin : s.replica.store.beginCompaction =
          Except.error compactionInProgress := by
        unfold Store.beginCompaction
        rw [if_pos (by simpa using hbusy)]
      rw [hbegin]
      exact ⟨_, rfl, hnoted⟩
    · rw [not_or, Bool.not_eq_true, Bool.not_eq_true] at hbusy
      rcases h.good.stands with ⟨m, hstands, hholds⟩
      rcases Store.beginCompaction_spec h.good.ok hholds hbusy.1 hbusy.2
        with ⟨job, store, hbegin, hok, hindexes, hkept, hcompacting,
          hrestoring, hbelow, hjob⟩
      have hidle : s.replica.restoring = false :=
        h.good.restoring.symm.trans hbusy.2
      rw [hbegin]
      refine ⟨_, rfl, ⟨hok, ⟨m, hstands, hindexes⟩, h.good.level,
        h.good.snapshot, hrestoring.trans hidle.symm, h.good.waiting, ?_⟩, ?_,
        ⟨hjob, hcompacting, hidle⟩, ?_⟩
      · intro hinline
        rw [(h.good.inline hinline).2.2] at hdue
        cases hdue
      · refine h.snapshot.moved rfl (Nat.le_refl _) (Nat.le_refl _) hkept ?_
        intro id hid _ hslot
        have heq : job.mergedId = id := Option.some.inj hslot
        rw [heq] at hbelow
        exact Nat.not_lt_of_le hid hbelow
      · unfold RestoreOk
        dsimp only
        rw [h.restore_idle hidle]
        trivial
  · rw [if_pos (by simp [hdue])]
    exact ⟨s, rfl, h⟩

theorem Invariant.runCompaction {c : Committed} {high : Nat} {s : System}
    (h : Invariant c high s) :
    exists s', s.next Event.runCompaction = Except.ok s' ∧ Invariant c high s' := by
  have hcompaction := h.compaction
  unfold CompactionOk at hcompaction
  unfold System.next
  cases hwork : s.compaction with
  | idle => exact ⟨s, rfl, h⟩
  | started job =>
      rw [hwork] at hcompaction
      rcases hcompaction with ⟨hjob, hcompacting, hidle⟩
      rcases hjob.run with ⟨merged, dir, bytes, hrun, hplaced, hid, hmerged⟩
      have hslot : s.slot = some job.mergedId := by
        unfold System.slot
        rw [hwork]
      dsimp only
      rw [hrun]
      refine ⟨_, rfl, h.good.placed hjob.slot hplaced, ?_,
        ⟨hmerged, hcompacting, hidle⟩, ?_⟩
      · exact h.snapshot.placed hslot hplaced rfl rfl (by rw [← hid]; rfl)
      · unfold RestoreOk System.withDir
        dsimp only
        rw [h.restore_idle hidle]
        trivial
  | finished merged => exact ⟨s, rfl, h⟩

theorem Invariant.finishCompaction {c : Committed} {high : Nat} {s : System}
    (h : Invariant c high s) :
    exists s', s.next Event.finishCompaction = Except.ok s' ∧
      Invariant c high s' := by
  have hcompaction := h.compaction
  unfold CompactionOk at hcompaction
  unfold System.next
  cases hwork : s.compaction with
  | idle => exact ⟨s, rfl, h⟩
  | started job => exact ⟨s, rfl, h⟩
  | finished merged =>
      rw [hwork] at hcompaction
      rcases hcompaction with ⟨hmerged, hcompacting, hidle⟩
      rcases h.good.stands with ⟨m, hstands, hholds⟩
      rcases Store.finishCompaction_spec h.good.ok hholds hmerged with
        ⟨hok, hindexes, hkept⟩
      have hbackground := h.good.background hcompacting
      refine ⟨_, rfl, ⟨hok, ⟨m, hstands, hindexes⟩, h.good.level, h.good.snapshot,
        h.good.restoring, h.good.waiting, ?_⟩, ?_, trivial, ?_⟩
      · intro hinline
        rw [show s.replica.backgroundSnapshots = false from hinline]
          at hbackground
        cases hbackground
      · refine h.snapshot.moved rfl (Nat.le_refl _) (Nat.le_refl _) hkept ?_
        intro id _ _
        unfold System.slot
        rw [h.restore_idle hidle]
        nofun
      · unfold RestoreOk
        dsimp only
        rw [h.restore_idle hidle]
        trivial

theorem Invariant.abandonCompaction {c : Committed} {high : Nat} {s : System}
    (h : Invariant c high s) (left : Bytes) :
    exists s', s.next (Event.abandonCompaction left) = Except.ok s' ∧
      Invariant c high s' := by
  have hcompaction := h.compaction
  unfold CompactionOk at hcompaction
  unfold System.next
  cases hwork : s.compaction with
  | idle => exact ⟨s, rfl, h⟩
  | started job =>
      rw [hwork] at hcompaction
      rcases hcompaction with ⟨_, hcompacting, hidle⟩
      rcases h.good.stands with ⟨m, hstands, hindexes⟩
      refine ⟨_, rfl, ⟨h.good.ok.flagged rfl rfl rfl,
        ⟨m, hstands, hindexes.flagged rfl rfl rfl rfl⟩,
        h.good.level, h.good.snapshot,
        h.good.restoring, h.good.waiting, ?_⟩, ?_, trivial, ?_⟩
      · intro hinline
        exact ⟨hidle, rfl, (h.good.inline hinline).2.2⟩
      · refine h.snapshot.moved rfl (Nat.le_refl _) (Nat.le_refl _)
          ⟨Nat.le_refl _, fun _ _ => List.prefix_refl _⟩ ?_
        intro id _ _
        unfold System.slot System.withDir
        dsimp only
        rw [h.restore_idle hidle]
        nofun
      · unfold RestoreOk System.withDir
        dsimp only
        rw [h.restore_idle hidle]
        trivial
  | finished merged => exact ⟨s, rfl, h⟩

/-!
# Restores
-/

theorem Invariant.not_compacting {c : Committed} {high : Nat} {s : System}
    (h : Invariant c high s) (hrestoring : s.replica.restoring = true) :
    s.compaction = Work.idle := by
  have hcompaction := h.compaction
  unfold CompactionOk at hcompaction
  cases hwork : s.compaction with
  | idle => rfl
  | started job =>
      rw [hwork] at hcompaction
      rw [hcompaction.2.2] at hrestoring
      cases hrestoring
  | finished merged =>
      rw [hwork] at hcompaction
      rw [hcompaction.2.2] at hrestoring
      cases hrestoring

/-- A replica that is being restored waits for its snapshot in the background. -/
theorem Good.waits {c : Committed} {high : Nat} {r : ReplicatedStore}
    (h : Good c high r)
    (hrestoring : r.restoring = true) : r.backgroundSnapshots = true := by
  cases hbackground : r.backgroundSnapshots with
  | true => rfl
  | false =>
      rw [(h.inline hbackground).1] at hrestoring
      cases hrestoring

/-- A restore is begun of a replica that is behind its snapshot, if nothing else is
at work on the store. -/
theorem startRestore_spec {c : Committed} {high : Nat} {r : ReplicatedStore}
    (h : Good c high r) :
    r.startRestore = (none, r) ∨
      exists job store, r.startRestore =
          (some { job := job, reader := r.node.storage.snapshot,
                  index := r.snapshotIndex },
            { r with store := store, restoring := true }) ∧
        Good c high { r with store := store, restoring := true } ∧
        r.store.Kept store ∧ r.store.compacting = false ∧
        r.store.writer.fileId < job.id ∧ store.Reserved job.id job.oldIds ∧
        job.Of [] := by
  unfold ReplicatedStore.startRestore
  split
  · exact Or.inl rfl
  · next hready =>
      simp only [Bool.or_eq_true, Bool.not_eq_true', decide_eq_true_eq,
        not_or, Bool.not_eq_false, Bool.not_eq_true, Nat.not_le] at hready
      rcases hready with ⟨⟨hbackground, hidle⟩, hahead⟩
      cases hcompacting : r.store.compacting with
      | true =>
          have hbusy : r.store.beginRestore =
              Except.error compactionInProgress := by
            unfold Store.beginRestore
            rw [if_pos (by simp [hcompacting])]
          rw [hbusy]
          exact Or.inl rfl
      | false =>
          rcases h.stands with ⟨m, hstands, hholds⟩
          rcases Store.beginRestore_spec h.ok hholds hcompacting
            (h.restoring.trans hidle) with ⟨job, store, hbegin, hok, hindexes,
            hkept, _, hrestoring, hbelow, hslot, hof⟩
          rw [hbegin]
          refine Or.inr ⟨job, store, rfl, ⟨hok, ⟨m, hstands, hindexes⟩, h.level,
            h.snapshot, hrestoring, fun _ => hahead, ?_⟩, hkept, rfl, hbelow,
            hslot, hof⟩
          intro hinline
          rw [show r.backgroundSnapshots = false from hinline] at hbackground
          cases hbackground

theorem Invariant.startRestore {c : Committed} {high : Nat} {s : System}
    (h : Invariant c high s) :
    exists s', s.next Event.startRestore = Except.ok s' ∧ Invariant c high s' := by
  unfold System.next
  rcases startRestore_spec h.good with
    hnone | ⟨job, store, hstart, hgood, hkept, hcompacting, hbelow, hslot, hof⟩
  · rw [hnone]
    exact ⟨s, rfl, h⟩
  · have hidle := h.compaction_idle hcompacting
    rw [hstart]
    refine ⟨_, rfl, hgood, ?_, ?_, ⟨hslot, hof, h.good.snapshot, rfl, rfl⟩⟩
    · refine h.snapshot.moved rfl (Nat.le_refl _) (Nat.le_refl _) hkept ?_
      intro id hid _
      unfold System.slot
      dsimp only
      rw [hidle]
      intro heq
      have hsame : job.id = id := Option.some.inj heq
      rw [hsame] at hbelow
      exact Nat.not_lt_of_le hid hbelow
    · unfold CompactionOk
      dsimp only
      rw [hidle]
      trivial

theorem Invariant.runRestore {c : Committed} {high : Nat} {s : System}
    (h : Invariant c high s) :
    exists s', s.next Event.runRestore = Except.ok s' ∧ Invariant c high s' := by
  have hrestore := h.restore
  unfold RestoreOk at hrestore
  unfold System.next
  cases hwork : s.restore with
  | idle => exact ⟨s, rfl, h⟩
  | started job =>
      rw [hwork] at hrestore
      rcases hrestore with
        ⟨hreserved, hof, ⟨m, hstands, hencodes⟩, hindex, hrestoring⟩
      rcases RestoreJob.run_spec hencodes.streams hreserved hof with
        ⟨done, dir, bytes, hrun, hplaced, hid, hsame, hdone⟩
      have hnone := h.not_compacting hrestoring
      dsimp only
      rw [hrun]
      refine ⟨_, rfl, h.good.placed hreserved hplaced, ?_, ?_, ?_⟩
      · have hslot : s.slot = some job.job.id := by
          unfold System.slot
          rw [hnone, hwork]
        refine h.snapshot.placed hslot hplaced rfl rfl ?_
        · unfold System.slot System.withDir
          dsimp only
          rw [hnone, ← hid]
      · unfold CompactionOk System.withDir
        dsimp only
        rw [hnone]
        trivial
      · refine ⟨?_, hsame.trans hindex, hrestoring⟩
        rw [hsame]
        exact ⟨m, hstands, hdone⟩
  | finished done => exact ⟨s, rfl, h⟩

theorem Invariant.restored {c : Committed} {high : Nat} {s : System}
    (h : Invariant c high s) {done : RestoredStore}
    (hwork : s.restore = Work.finished done) :
    Invariant c high { s with
      replica := { s.replica with
        restoring := false
        store := writeApplied (s.replica.store.finishRestore done.file).sync
          done.index
        applied := done.index }
      restore := Work.idle } := by
  have hrestore := h.restore
  unfold RestoreOk at hrestore
  rw [hwork] at hrestore
  rcases hrestore with ⟨⟨m, hstands, hfile⟩, hindex, hrestoring⟩
  rcases Store.finishRestore_spec h.good.ok hfile with ⟨hok, hindexes, hkept⟩
  have htakes : Takes (s.replica.store.finishRestore done.file) m :=
    ⟨hok, hindexes, rfl⟩
  rcases htakes.sync with ⟨hsynced, hlater⟩
  rcases hsynced.writeApplied done.index with ⟨hwritten, hlater'⟩
  have hahead := h.good.waiting hrestoring
  have hbackground := h.good.waits hrestoring
  have hnone := h.not_compacting hrestoring
  refine ⟨⟨hwritten.ok, ⟨m, hstands, hwritten.indexes⟩, ?_, h.good.snapshot,
    hwritten.restoring, nofun, ?_⟩, ?_, ?_, trivial⟩
  · show s.replica.snapshotIndex <= s.replica.node.lastApplied ∧
      s.replica.node.lastApplied <= max done.index s.replica.snapshotIndex
    have hlevel := h.good.level
    omega
  · intro hinline
    rw [show s.replica.backgroundSnapshots = false from hinline] at hbackground
    cases hbackground
  · refine h.snapshot.moved rfl ?_ (Nat.le_refl _)
      ((hkept.trans hlater.toKept).trans hlater'.toKept) ?_
    · show s.replica.applied <= done.index
      rw [hindex]
      exact Nat.le_of_lt hahead
    · intro id _ _
      unfold System.slot
      dsimp only
      rw [hnone]
      nofun
  · unfold CompactionOk
    dsimp only
    rw [hnone]
    trivial

theorem Invariant.abandonRestore {c : Committed} {high : Nat} {s : System}
    (h : Invariant c high s) :
    exists s', s.next Event.abandonRestore = Except.ok s' ∧
      Invariant c high s' := by
  have hrestore := h.restore
  unfold RestoreOk at hrestore
  unfold System.next
  cases hwork : s.restore with
  | idle => exact ⟨s, rfl, h⟩
  | started job =>
      rw [hwork] at hrestore
      rcases hrestore with ⟨_, _, _, _, hrestoring⟩
      have hbackground := h.good.waits hrestoring
      have hnone := h.not_compacting hrestoring
      rcases h.good.stands with ⟨m, hstands, hindexes⟩
      refine ⟨_, rfl, ⟨h.good.ok.flagged rfl rfl rfl,
        ⟨m, hstands, hindexes.flagged rfl rfl rfl rfl⟩,
        h.good.level, h.good.snapshot,
        rfl, nofun, ?_⟩, ?_, ?_, trivial⟩
      · intro hinline
        rw [show s.replica.backgroundSnapshots = false from hinline]
          at hbackground
        cases hbackground
      · refine h.snapshot.moved rfl (Nat.le_refl _) (Nat.le_refl _)
          ⟨Nat.le_refl _, fun _ _ => List.prefix_refl _⟩ ?_
        intro id _ _
        unfold System.slot System.withDir
        dsimp only
        rw [hnone]
        nofun
      · unfold CompactionOk System.withDir
        dsimp only
        rw [hnone]
        trivial
  | finished done => exact ⟨s, rfl, h⟩

/-!
# Applying
-/

/-- What is left to be applied to is in order, and what the node hands over is the
committed log. -/
theorem Invariant.applies {c : Committed} {high : Nat} {s s' : System}
    (h : Invariant c high s) {e : Event} (hpromised : Promised c s.replica e)
    {env : Env} (happlies : e.applies s = some (env, s')) :
    Invariant c high s' ∧ Agrees c s'.replica.node := by
  rcases hpromised with ⟨hagrees, hsnapshot⟩
  cases e with
  | tick env' =>
      cases happlies
      exact ⟨h.settled (Node.steady_tick s.replica.node).toSettled, hagrees⟩
  | step env' sender message =>
      rcases Event.applies_step happlies with ⟨rfl, hnode, hdelivered⟩
      rw [hnode] at hagrees hsnapshot
      have hreceived := Node.received_step s.replica.node sender message
      rcases h.good.node hreceived hsnapshot (by
        intro hrestoring
        exact congrArg SnapshotMeta.index
          (Node.settled_step _ sender (hdelivered hrestoring)).base) with
        ⟨hgood, hmoved⟩
      exact ⟨h.moved hgood hmoved, hagrees⟩
  | finishRestore env' =>
      unfold Event.applies at happlies
      dsimp only at happlies
      split at happlies
      · next done hwork =>
          cases happlies
          exact ⟨h.restored hwork, hagrees⟩
      · cases happlies
  | _ => cases happlies

theorem Invariant.applied {c : Committed} (hshort : c.Short) {high : Nat}
    {s : System} (h : Invariant c high s) {e : Event}
    (hpromised : Promised c s.replica e)
    (happly : (exists env, e = Event.tick env) ∨
      (exists env sender message, e = Event.step env sender message) ∨
      exists env, e = Event.finishRestore env) :
    exists s', s.next e = Except.ok s' ∧ Invariant c high s' := by
  cases happlies : e.applies s with
  | none => exact ⟨s, System.next_ignored happlies happly, h⟩
  | some begun =>
      rcases begun with ⟨env, s'⟩
      rcases h.applies hpromised happlies with ⟨hinv, hagrees⟩
      rcases hinv.apply hshort env hagrees with ⟨r, happly, hr⟩
      refine ⟨{ s' with replica := r }, ?_, hr⟩
      rw [System.next_applies happlies, happly]
      rfl

/-!
# Whole runs
-/

/-- Whatever happens, as long as consensus keeps its promises, succeeds and keeps
the replica and its jobs in order. -/
theorem Invariant.next {c : Committed} (hshort : c.Short) {high : Nat}
    {s : System} (h : Invariant c high s) (e : Event)
    (hpromised : Promised c s.replica e) :
    exists s', s.next e = Except.ok s' ∧ Invariant c high s' := by
  cases e with
  | tick env => exact h.applied hshort hpromised (Or.inl ⟨env, rfl⟩)
  | step env sender message =>
      exact h.applied hshort hpromised (Or.inr (Or.inl ⟨env, sender, message, rfl⟩))
  | campaign =>
      exact ⟨_, rfl, h.settled (Node.steady_campaign _).toSettled⟩
  | propose op now => exact ⟨_, rfl, h.propose op now⟩
  | proposeBatch commands => exact ⟨_, rfl, h.proposeBatch commands⟩
  | proposeMembership members => exact ⟨_, rfl, h.proposeMembership members⟩
  | readIndex =>
      exact ⟨_, rfl, h.settled (Node.steady_readIndex _).toSettled⟩
  | forgetRead request =>
      exact ⟨_, rfl, h.settled (Node.steady_forgetRead _ request).toSettled⟩
  | setSnapshotEvery entries => exact ⟨_, rfl, h.setSnapshotEvery entries⟩
  | startSnapshot => exact h.startSnapshot
  | runSnapshot => exact h.runSnapshot
  | finishSnapshot env => exact h.finishSnapshot env
  | abandonSnapshot => exact ⟨_, rfl, h.abandonSnapshot⟩
  | startCompaction => exact h.startCompaction
  | runCompaction => exact h.runCompaction
  | finishCompaction => exact h.finishCompaction
  | abandonCompaction left => exact h.abandonCompaction left
  | startRestore => exact h.startRestore
  | runRestore => exact h.runRestore
  | finishRestore env =>
      exact h.applied hshort hpromised (Or.inr (Or.inr ⟨env, rfl⟩))
  | abandonRestore => exact h.abandonRestore

theorem readApplied_open {opts : Options} {store : Store}
    (hopen : Store.openWith {} opts = Except.ok store) :
    readApplied store.dir = 0 := by
  have hbeside : (Store.openWith {} opts).map (fun s =>
      s.dir.disk.appliedIndex) = Except.ok none := rfl
  rw [hopen] at hbeside
  have hnone : store.dir.disk.appliedIndex = none := Except.ok.inj hbeside
  unfold readApplied
  rw [hnone]

theorem good_new (c : Committed) (high : Nat) {opts : Options} {store : Store}
    (hopen : Store.openWith {} opts = Except.ok store) {node : Node}
    (hsnapshot : node.storage.snapshotMeta.index = 0)
    (hdata : node.storage.snapshot = []) (hlast : node.lastApplied = 0)
    {env : Env} {r : ReplicatedStore}
    (hnew : ReplicatedStore.new node store env = Except.ok r)
    (snapshotEvery : Nat) (background : Bool) :
    Good c high { r with
      snapshotEvery := snapshotEvery
      backgroundSnapshots := background } := by
  rcases Store.serves_open opts with
    ⟨store', hopen', hok, hindexes, hcompacting, hrestoring, _⟩
  rw [hopen] at hopen'
  cases hopen'
  have happlied := readApplied_open hopen
  unfold ReplicatedStore.new ReplicatedStore.snapshotIndex at hnew
  dsimp only at hnew
  rw [happlied, hsnapshot, if_neg (Nat.lt_irrefl 0)] at hnew
  cases hnew
  refine ⟨hok, ⟨_, c.stands_contents high 0, hindexes⟩, ?_, ?_, hrestoring,
    nofun, fun _ => ⟨rfl, hcompacting, rfl⟩⟩
  · show node.storage.snapshotMeta.index <= node.lastApplied ∧
      node.lastApplied <= max 0 node.storage.snapshotMeta.index
    rw [hlast, hsnapshot]
    exact ⟨Nat.le_refl 0, Nat.le_refl 0⟩
  · show exists m, c.Stands high node.storage.snapshotMeta.index m ∧
      Encodes node.storage.snapshot m
    rw [hdata, hsnapshot]
    exact ⟨_, c.stands_contents high 0, encodes_nil⟩

theorem Run.invariant {c : Committed} (hshort : c.Short) {s : System}
    (h : Run c s) : Invariant c 0 s := by
  induction h with
  | start opts id bootstrap config env snapshotEvery background hopen hnew =>
      exact ⟨good_new c 0 hopen rfl rfl rfl hnew snapshotEvery background,
        trivial, trivial, trivial⟩
  | next e _ hpromised hnext ih =>
      rcases ih.next hshort e hpromised with ⟨s', hnext', hinv⟩
      rw [hnext] at hnext'
      cases hnext'
      exact hinv

/-- In every state of every run the store is the fold of the committed log up to
the applied index, and whatever comes next succeeds. -/
theorem replica_is_fold {c : Committed} (hshort : c.Short) {s : System}
    (hrun : Run c s) :
    (forall k, s.replica.get k =
      Except.ok (c.contents s.replica.applied k)) ∧
    (forall k, k ∈ s.replica.store.keys ↔
      (c.contents s.replica.applied k).isSome) ∧
    (forall e, Promised c s.replica e ->
      exists s', s.next e = Except.ok s' ∧ Run c s') := by
  have h := hrun.invariant hshort
  rcases h.good.stands with ⟨m, hstands, hindexes⟩
  rw [hstands.exact (Nat.zero_le _)] at hindexes
  refine ⟨Store.get_eq h.good.ok hindexes, Store.mem_keys_iff hindexes, ?_⟩
  intro e hpromised
  rcases h.next hshort e hpromised with ⟨s', hnext, _⟩
  exact ⟨s', hnext, hrun.next e hpromised hnext⟩

/-!
# One command, of any length

A new follower is sent the first entry of the log, already committed.
-/

def freshNode : Node :=
  Node.withMembers 2
    [{ id := 1, context := [], learner := false },
      { id := 2, context := [], learner := false }] {} {}

def firstEntry (bytes : Bytes) : Entry :=
  { term := 1, index := 1, command := Command.data bytes }

def firstMessage (bytes : Bytes) : Message :=
  Message.appendEntries 1 0 0 [firstEntry bytes] 1 1

def quietEnv : Env where
  clock _ := (0, 0)
  fragmented _ := false

def onePut {key value bytes : Bytes}
    (h : (Op.put key value).encode 0 = Except.ok bytes) : Committed where
  entry i :=
    if i = 1 then firstEntry bytes
    else { term := 1, index := i, command := Command.noop }
  op i := if i = 1 then some (Op.put key value) else none
  index i := by
    split
    · next heq => exact heq.symm
    · rfl
  carries i := by
    by_cases heq : i = 1
    · simp only [if_pos heq]
      exact ⟨Op.put key value, 0, rfl, h⟩
    · simp only [if_neg heq]

theorem freshNode_step (bytes : Bytes) :
    (freshNode.step 1 (firstMessage bytes)).1.commitIndex = 1 ∧
      (freshNode.step 1 (firstMessage bytes)).1.storage.log =
        { entries := [firstEntry bytes] } ∧
      (freshNode.step 1 (firstMessage bytes)).1.lastApplied = 0 := by
  refine ⟨?_, ?_, ?_⟩
  · with_unfolding_all rfl
  · with_unfolding_all rfl
  · with_unfolding_all rfl

def freshReplica (store : Store) : ReplicatedStore where
  node := freshNode
  store := store
  applied := 0
  snapshotEvery := defaultSnapshotEvery
  backgroundSnapshots := true
  snapshotting := false
  compactionDue := false
  restoring := false

theorem new_freshReplica {store : Store} (h : readApplied store.dir = 0) :
    ReplicatedStore.new freshNode store quietEnv = Except.ok
      { freshReplica store with backgroundSnapshots := false } := by
  unfold ReplicatedStore.new
  rw [h]
  rfl

theorem run_freshReplica (c : Committed) {store : Store}
    (hopen : Store.openWith {} {} = Except.ok store) :
    Run c
      { replica := freshReplica store
        snapshot := Work.idle
        compaction := Work.idle
        restore := Work.idle } :=
  Run.start {} 2 _ {} quietEnv defaultSnapshotEvery true hopen
    (new_freshReplica (readApplied_open hopen))

theorem step_freshReplica {key value bytes : Bytes}
    (h : (Op.put key value).encode 0 = Except.ok bytes) {store store' : Store}
    (hput : store.putDeferred key value 0 0 = Except.ok store') :
    exists node actions, node.storage.snapshotMeta.index = 0 ∧
      (freshReplica store).step quietEnv 1 (firstMessage bytes) = Except.ok
        ({ freshReplica store with
            node := node
            store := writeApplied store'.sync 1
            applied := 1 }, actions) := by
  rcases freshNode_step bytes with ⟨hcommit, hlog, hlast⟩
  unfold ReplicatedStore.step freshReplica
  dsimp only
  generalize freshNode.step 1 (firstMessage bytes) = stepped at *
  rcases stepped with ⟨node, actions⟩
  dsimp only at hcommit hlog hlast ⊢
  have hentries : node.takeCommitted.2 = [firstEntry bytes] := by
    show (MemStorage.indices (node.lastApplied + 1) node.commitIndex).filterMap
      node.storage.entry = _
    have hentry : node.storage.entry 1 = some (firstEntry bytes) := by
      rw [MemStorage.entry, hlog]
      rfl
    rw [hcommit, hlast]
    show [1].filterMap node.storage.entry = _
    rw [List.filterMap_cons_some hentry, List.filterMap_nil]
  have hsnapshot : node.storage.snapshotMeta.index = 0 := by
    rw [MemStorage.snapshotMeta, hlog]
  refine ⟨node.takeCommitted.1, actions, hsnapshot, ?_⟩
  unfold ReplicatedStore.apply ReplicatedStore.snapshotIndex
  dsimp only
  rw [hsnapshot]
  simp only [gt_iff_lt, Nat.lt_irrefl, decide_false, Bool.false_and,
    Bool.false_eq_true, if_false, Except.bind, hentries, List.foldlM_cons,
    List.foldlM_nil, applyEntry, firstEntry, Op.decode_encode h, quietEnv, hput,
    Except.map, bind]
  rfl

theorem next_firstMessage {key value bytes : Bytes}
    (h : (Op.put key value).encode 0 = Except.ok bytes) {store store' : Store}
    (hput : store.putDeferred key value 0 0 = Except.ok store') :
    exists node, node.storage.snapshotMeta.index = 0 ∧
      Promised (onePut h) (freshReplica store)
        (Event.step quietEnv 1 (firstMessage bytes)) ∧
      System.next
        { replica := freshReplica store
          snapshot := Work.idle
          compaction := Work.idle
          restore := Work.idle }
        (Event.step quietEnv 1 (firstMessage bytes)) = Except.ok
        { replica := { freshReplica store with
            node := node
            store := writeApplied store'.sync 1
            applied := 1 }
          snapshot := Work.idle
          compaction := Work.idle
          restore := Work.idle } := by
  rcases step_freshReplica h hput with ⟨node, actions, hsnapshot, hstep⟩
  rcases freshNode_step bytes with ⟨hcommit, hlog, _⟩
  have hnode : (Event.step quietEnv 1 (firstMessage bytes)).node
      (freshReplica store) = (freshNode.step 1 (firstMessage bytes)).1 := by
    unfold Event.node freshReplica firstMessage
    rfl
  refine ⟨node, hsnapshot, ⟨?_, ?_⟩, ?_⟩
  · rw [hnode]
    intro i hbase hi
    have hone : i = 1 := by
      rw [hcommit] at hi
      exact Nat.le_antisymm hi (Nat.lt_of_le_of_lt (Nat.zero_le _) hbase)
    rw [MemStorage.entry, hlog, hone]
    rfl
  · rw [hnode, MemStorage.snapshotMeta, hlog]
    exact fun hne => absurd rfl hne
  · unfold System.next
    dsimp only
    rw [hstep]
    rfl

theorem putDeferred_encoded {key value bytes : Bytes}
    (h : (Op.put key value).encode 0 = Except.ok bytes) {store : Store}
    (hwritable : store.restoring = false) :
    exists store', store.putDeferred key value 0 0 = Except.ok store' := by
  unfold Store.putDeferred Store.putWith
  rw [if_neg (by simp [hwritable])]
  change encode key (some value) 0 = Except.ok bytes at h
  rw [h]
  exact ⟨_, rfl⟩

theorem run_firstMessage {key value bytes : Bytes}
    (h : (Op.put key value).encode 0 = Except.ok bytes) :
    exists store store' s, Store.openWith {} {} = Except.ok store ∧
      store.putDeferred key value 0 0 = Except.ok store' ∧
      Run (onePut h) s ∧ s.replica.applied = 1 ∧
      s.replica.store = writeApplied store'.sync 1 := by
  rcases Store.serves_open {} with ⟨store, hopen, _, _, _, hrestoring, _⟩
  rcases putDeferred_encoded h hrestoring with ⟨store', hput⟩
  rcases next_firstMessage h hput with ⟨node, _, hpromised, hnext⟩
  exact ⟨store, store', _, hopen, hput,
    (run_freshReplica (onePut h) hopen).next _ hpromised hnext, rfl, rfl⟩

theorem length_encode_put {key value bytes : Bytes}
    (h : (Op.put key value).encode 0 = Except.ok bytes) :
    bytes.length = headerLen + (key.length + value.length) := by
  rcases encode_parts h with ⟨header, rfl, _⟩
  simp

theorem short_onePut {key value bytes : Bytes}
    (h : (Op.put key value).encode 0 = Except.ok bytes)
    (hlength : bytes.length < 2 ^ 32) : (onePut h).Short := by
  intro i sent hsent
  by_cases heq : i = 1
  · have hcommand : ((onePut h).entry i).command = Command.data bytes := by
      rw [heq]
      rfl
    rw [hcommand] at hsent
    rw [← Command.data.inj hsent]
    exact hlength
  · simp [onePut, heq] at hsent

/-- A follower that has taken over one put. -/
theorem replica_is_fold_follower :
    exists (c : Committed) (s : System), c.Short ∧ Run c s ∧
      s.replica.applied = 1 ∧ s.replica.get [7] = Except.ok (some [8, 9]) := by
  have hencode : exists bytes,
      (Op.put [7] [8, 9]).encode 0 = Except.ok bytes := ⟨_, rfl⟩
  rcases hencode with ⟨bytes, hencode⟩
  rcases run_firstMessage hencode with ⟨_, _, s, _, _, hrun, happlied, _⟩
  have hshort : (onePut hencode).Short := by
    apply short_onePut
    rw [length_encode_put hencode]
    decide
  refine ⟨onePut hencode, s, hshort, hrun, happlied, ?_⟩
  rw [(replica_is_fold hshort hrun).1 [7], happlied]
  rfl

theorem get_of_len_zero {s : Store} {key : Bytes} {loc : Location}
    (hlookup : s.keydir.lookup key = some loc) (hlen : loc.len.toNat = 0)
    (found : Option Bytes) : s.get key ≠ Except.ok found := by
  have hempty : forall (bytes : Bytes) (n : Nat),
      (decodeValue (slice bytes n (n + loc.len.toNat)) loc).map some ≠
        Except.ok found := by
    intro bytes n
    unfold decodeValue
    rw [hlen, if_pos (by simp [slice, headerLen])]
    intro h
    cases h
  unfold Store.get
  rw [hlookup]
  dsimp only
  split
  · next bytes hbuffered =>
      split at hbuffered
      · unfold LogWriter.buffered at hbuffered
        split at hbuffered
        · cases hbuffered
        · dsimp only at hbuffered
          split at hbuffered
          · cases hbuffered
            exact hempty _ _
          · cases hbuffered
      · cases hbuffered
  · unfold readValue readRecord Dir.readAt
    split
    · dsimp only
      split
      · exact hempty _ _
      · intro h
        cases h
    · intro h
      cases h

theorem lookup_putDeferred {s s' : Store} (hok : s.Ok) {key value bytes : Bytes}
    {now later : UInt64} (hencode : encode key (some value) now = Except.ok bytes)
    (h : s.putDeferred key value now later = Except.ok s') :
    exists loc, s'.keydir.lookup key = some loc ∧
      loc.len = UInt32.ofNat bytes.length := by
  have hlanded := (LogWriter.appended_append
    (Store.rolled hok bytes.length).1.writer bytes Reach.buffer).1
  unfold Store.putDeferred Store.putWith at h
  split at h
  · cases h
  · rw [hencode] at h
    cases h
    exact ⟨_, AList.lookup_insert _, congrArg Prod.snd hlanded⟩

theorem encode_long_put {value : Bytes} (hvalue : value.length = 2 ^ 32 - 22) :
    exists bytes, (Op.put [7] value).encode 0 = Except.ok bytes ∧
      bytes.length = 2 ^ 32 := by
  have hencode : exists bytes, (Op.put [7] value).encode 0 =
      Except.ok bytes := by
    show exists bytes, Minicask.encode [7] (some value) 0 = Except.ok bytes
    unfold Minicask.encode
    rw [if_neg (show ¬ List.isEmpty [(7 : UInt8)] = true by decide),
      if_neg (show ¬ [(7 : UInt8)].length > u32Max by decide)]
    dsimp only [Option.getD_some]
    rw [if_neg (by rw [hvalue]; decide)]
    exact ⟨_, rfl⟩
  rcases hencode with ⟨bytes, hencode⟩
  refine ⟨bytes, hencode, ?_⟩
  rw [length_encode_put hencode, hvalue]
  rfl

theorem get_long_put {value bytes : Bytes}
    (hencode : (Op.put [7] value).encode 0 = Except.ok bytes)
    (hlength : bytes.length = 2 ^ 32) {store store' : Store} (hok : store.Ok)
    (hput : store.putDeferred [7] value 0 0 = Except.ok store') (index : Nat)
    (found : Option Bytes) :
    (writeApplied store'.sync index).get [7] ≠ Except.ok found := by
  rcases lookup_putDeferred hok hencode hput with ⟨loc, hlookup, hlen⟩
  have hindexed : (writeApplied store'.sync index).keydir.lookup [7] =
      some loc :=
    hlookup
  refine get_of_len_zero hindexed ?_ found
  rw [hlen, hlength]
  decide

/-- A put whose record takes exactly 2^32 bytes is accepted, committed and applied,
and cannot be read, since the index has 0 for its length. -/
theorem long_put_unreadable :
    exists (value : Bytes) (c : Committed) (s : System),
      value.length = 2 ^ 32 - 22 ∧ c.op 1 = some (Op.put [7] value) ∧
      Run c s ∧ s.replica.applied = 1 ∧
      s.replica.get [7] ≠ Except.ok (c.contents s.replica.applied [7]) := by
  have hvalue : exists value : Bytes, value.length = 2 ^ 32 - 22 :=
    ⟨List.replicate (2 ^ 32 - 22) 0, List.length_replicate⟩
  rcases hvalue with ⟨value, hvalue⟩
  rcases encode_long_put hvalue with ⟨bytes, hencode, hlength⟩
  rcases run_firstMessage hencode with
    ⟨store, store', s, hopen, hput, hrun, happlied, hstore⟩
  rcases Store.serves_open {} with ⟨store'', hopen', hok, _⟩
  rw [hopen] at hopen'
  cases hopen'
  refine ⟨value, onePut hencode, s, hvalue, rfl, hrun, happlied, ?_⟩
  unfold ReplicatedStore.get
  rw [hstore]
  exact get_long_put hencode hlength hok hput 1 _

end Replicated
end Minicask
