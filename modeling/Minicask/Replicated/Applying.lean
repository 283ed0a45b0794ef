import Minicask.Raft.Frames
import Minicask.Replicated.System

/-!
# Applying keeps the store level with the log

A replica is good when what its store holds may stand at its applied index, what
the node's snapshot holds at the snapshot's index, and the node has handed over at
least as far as the snapshot and no further than either.  Applying keeps it so,
whichever of its branches it takes.
-/

namespace Minicask
namespace Replicated

open Raft Replay

structure Good (c : Committed) (high : Nat) (r : ReplicatedStore) : Prop where
  ok : r.store.Ok
  stands : exists m, c.Stands high r.applied m ∧ r.store.Indexes m
  level : r.snapshotIndex <= r.node.lastApplied ∧
    r.node.lastApplied <= max r.applied r.snapshotIndex
  snapshot : exists m, c.Stands high r.snapshotIndex m ∧
    Encodes r.node.storage.snapshot m
  restoring : r.store.restoring = r.restoring
  waiting : r.restoring = true -> r.applied < r.snapshotIndex
  inline : r.backgroundSnapshots = false ->
    r.restoring = false ∧ r.store.compacting = false ∧
      r.compactionDue = false

theorem Good.takes {c : Committed} {high : Nat} {r : ReplicatedStore}
    (h : Good c high r) (hlevel : r.restoring = false) :
    exists m, c.Stands high r.applied m ∧ Takes r.store m := by
  rcases h.stands with ⟨m, hstands, hindexes⟩
  exact ⟨m, hstands, h.ok, hindexes, h.restoring.trans hlevel⟩

theorem Good.writable {c : Committed} {high : Nat} {r : ReplicatedStore}
    (h : Good c high r)
    (hlevel : r.snapshotIndex <= r.applied) : r.restoring = false := by
  cases hrestoring : r.restoring with
  | false => rfl
  | true => exact absurd (h.waiting hrestoring) (Nat.not_lt_of_le hlevel)

theorem Good.moved {c : Committed} {high : Nat} {r r' : ReplicatedStore}
    (h : Good c high r) {m : Contents} (hstands : c.Stands high r'.applied m)
    (htakes : Takes r'.store m)
    (hlater : r.store.Later r'.store) (hrestoring : r.restoring = false)
    (hstorage : r'.node.storage = r.node.storage)
    (hlevel : r.snapshotIndex <= r'.node.lastApplied ∧
      r'.node.lastApplied <= max r'.applied r.snapshotIndex)
    (hflags : r'.backgroundSnapshots = r.backgroundSnapshots ∧
      r'.restoring = r.restoring ∧ r'.compactionDue = r.compactionDue) :
    Good c high r' := by
  rcases hflags with ⟨hbackground, hflag, hdue⟩
  have hindex : r'.snapshotIndex = r.snapshotIndex := by
    unfold ReplicatedStore.snapshotIndex
    rw [hstorage]
  refine ⟨htakes.ok, ⟨m, hstands, htakes.indexes⟩, hindex ▸ hlevel, ?_, ?_, ?_,
    ?_⟩
  · rw [hindex, hstorage]
    exact h.snapshot
  · rw [htakes.restoring, hflag, hrestoring]
  · intro hwait
    rw [hflag, hrestoring] at hwait
    cases hwait
  · intro hinline
    rcases h.inline (hbackground ▸ hinline) with ⟨hrest, hcomp, hnot⟩
    exact ⟨hflag.trans hrest, hlater.compacting.trans hcomp, hdue.trans hnot⟩

/-!
# Snapshots
-/

/-- What a snapshot covers has been applied, and handed over. -/
def Covered (index : Nat) (r : ReplicatedStore) : Prop :=
  index <= r.applied ∧ index <= r.node.lastApplied

/-- A snapshot under way: nothing is written yet, and what its view shows may stand
at its index. -/
structure SnapshotJob.Ok (c : Committed) (high : Nat) (job : SnapshotJob)
    (r : ReplicatedStore) : Prop where
  empty : job.sink.data = []
  shows : exists m, c.Stands high job.sink.about.index m ∧
    job.view.Shows r.store.dir m
  behind : Covered job.sink.about.index r

theorem startSnapshot_spec {c : Committed} {high : Nat} {r : ReplicatedStore}
    (h : Good c high r) :
    r.startSnapshot = (none, r) ∨
      exists job store, r.startSnapshot =
          (some job, { r with store := store, snapshotting := true }) ∧
        job.view.readers = r.store.readers ∧ r.store.Later store ∧
        job.Ok c high { r with store := store, snapshotting := true } ∧
        Good c high { r with store := store, snapshotting := true } := by
  unfold ReplicatedStore.startSnapshot
  split
  · exact Or.inl rfl
  · cases hbegin : r.node.beginCompaction r.applied with
    | none => exact Or.inl rfl
    | some sink =>
        have hlater := Store.later_flushed h.ok
        have hadvanced := Store.advanced_flushed h.ok
        rcases h.stands with ⟨m, hstands, hindexes⟩
        have hsink : sink.data = [] ∧ sink.about.index = r.applied ∧
            r.applied <= r.node.lastApplied := by
          unfold Node.beginCompaction at hbegin
          split at hbegin
          · cases hbegin
          · next hhanded =>
              simp only [Bool.or_eq_true, decide_eq_true_eq, not_or,
                Nat.not_lt] at hhanded
              rcases Option.map_eq_some_iff.mp hbegin with ⟨term, _, heq⟩
              rw [← heq]
              exact ⟨rfl, rfl, hhanded.2⟩
        rcases hsink with ⟨hempty, hindex, hhanded⟩
        refine Or.inr ⟨{ view := r.store.view.1, sink := sink }, r.store.flushed,
          rfl, rfl, hlater, ⟨hempty, ⟨m, hindex ▸ hstands, ?_⟩,
            Nat.le_of_eq hindex, hindex ▸ hhanded⟩,
          ⟨hadvanced.ok h.ok, ⟨m, hstands,
            hindexes.carried (hadvanced.carries h.ok) rfl⟩, h.level, h.snapshot,
            h.restoring, h.waiting, h.inline⟩⟩
        exact Store.view_shows h.ok hindexes

theorem SnapshotJob.Ok.run {c : Committed} {high : Nat} {job : SnapshotJob}
    {r : ReplicatedStore} (h : job.Ok c high r) :
    exists sink, job.run r.store.dir = Except.ok sink ∧
      (exists m, c.Stands high sink.about.index m ∧ Encodes sink.data m) ∧
      Covered sink.about.index r := by
  rcases h.shows with ⟨m, hstands, hshows⟩
  rcases writeSnapshot_encodes hshows h.empty with
    ⟨sink, hrun, habout, _, hencodes⟩
  refine ⟨sink, hrun, ⟨m, ?_, hencodes⟩, ?_⟩
  · rw [habout]
    exact hstands
  · rw [habout]
    exact h.behind

/-- What installing a snapshot, or applying, may do to a replica. -/
structure Moved (r r' : ReplicatedStore) : Prop where
  kept : r.store.Kept r'.store
  later : r.backgroundSnapshots = true -> r.store.Later r'.store
  applied : r.applied <= r'.applied
  handed : r.node.lastApplied <= r'.node.lastApplied
  background : r'.backgroundSnapshots = r.backgroundSnapshots
  waiting : r.restoring = true ->
    r'.store = r.store ∧ r'.snapshotIndex = r.snapshotIndex
  restoring : r'.restoring = r.restoring

theorem Moved.refl (r : ReplicatedStore) : Moved r r :=
  ⟨Store.Kept.refl _, fun _ => Store.Later.refl _, Nat.le_refl _, Nat.le_refl _,
    rfl, fun _ => ⟨rfl, rfl⟩, rfl⟩

theorem moved_of_later {r r' : ReplicatedStore} (hwritable : r.restoring = false)
    (hlater : r.store.Later r'.store) (happlied : r.applied <= r'.applied)
    (hhanded : r.node.lastApplied <= r'.node.lastApplied)
    (hbackground : r'.backgroundSnapshots = r.backgroundSnapshots)
    (hrestoring : r'.restoring = r.restoring) : Moved r r' := by
  refine ⟨hlater.toKept, fun _ => hlater, happlied, hhanded, hbackground, ?_,
    hrestoring⟩
  intro hwait
  rw [hwritable] at hwait
  cases hwait

theorem Moved.trans {r r' r'' : ReplicatedStore} (h : Moved r r')
    (h' : Moved r' r'') : Moved r r'' where
  kept := h.kept.trans h'.kept
  later hb := (h.later hb).trans (h'.later (h.background.trans hb))
  applied := Nat.le_trans h.applied h'.applied
  handed := Nat.le_trans h.handed h'.handed
  background := h'.background.trans h.background
  waiting hw := by
    rcases h.waiting hw with ⟨hstore, hindex⟩
    rcases h'.waiting (h.restoring.trans hw) with ⟨hstore', hindex'⟩
    exact ⟨hstore'.trans hstore, hindex'.trans hindex⟩
  restoring := h'.restoring.trans h.restoring

theorem finishCompaction_cases (n : Node) (sink : MemSnapshot) :
    (n.finishCompaction sink = (n, false) ∧
      sink.about.index <= n.storage.snapshotMeta.index) ∨
    exists n', n.finishCompaction sink = (n', true) ∧
      n.storage.snapshotMeta.index < sink.about.index ∧
      n'.storage.log.base = sink.about ∧ n'.storage.snapshot = sink.data ∧
      n'.lastApplied = n.lastApplied := by
  unfold Node.finishCompaction
  split
  · next hle => exact Or.inl ⟨rfl, hle⟩
  · next hlt =>
      change ¬ sink.about.index <= n.storage.log.base.index at hlt
      refine Or.inr ⟨_, rfl, Nat.lt_of_not_le hlt, ?_⟩
      have hcompact : (n.storage.log.compact sink.about).1 = true ∧
          (n.storage.log.compact sink.about).2.base = sink.about := by
        unfold EntryLog.compact
        rw [if_neg hlt]
        exact ⟨rfl, rfl⟩
      unfold MemStorage.installSnapshot
      rcases hresult : n.storage.log.compact sink.about with ⟨flag, log⟩
      rw [hresult] at hcompact
      rcases hcompact with ⟨hflag, hlog⟩
      subst hflag
      exact ⟨hlog, rfl, rfl⟩

theorem finishSnapshot_spec (env : Env) {c : Committed} {high : Nat}
    {r : ReplicatedStore} (h : Good c high r) {sink : MemSnapshot}
    (hencodes : exists m, c.Stands high sink.about.index m ∧
      Encodes sink.data m)
    (hbehind : Covered sink.about.index r) :
    exists r', r.finishSnapshot env sink = Except.ok r' ∧ Good c high r' ∧
      Moved r r' := by
  rcases finishCompaction_cases r.node sink with
    ⟨hsame, _⟩ | ⟨node, hnew, hlt, hbase, hdata, hlast⟩
  · refine ⟨{ r with snapshotting := false }, ?_,
      ⟨h.ok, h.stands, h.level, h.snapshot, h.restoring, h.waiting, h.inline⟩,
      ⟨Store.Kept.refl _, fun _ => Store.Later.refl _, Nat.le_refl _,
        Nat.le_refl _, rfl, fun _ => ⟨rfl, rfl⟩, rfl⟩⟩
    unfold ReplicatedStore.finishSnapshot
    rw [hsame]
    rfl
  · have hold : r.snapshotIndex < sink.about.index := hlt
    have hwritable : r.restoring = false :=
      h.writable (Nat.le_trans (Nat.le_of_lt hold) hbehind.1)
    have hindex : node.storage.snapshotMeta.index = sink.about.index := by
      rw [MemStorage.snapshotMeta, hbase]
    have hgood : forall due, (r.backgroundSnapshots = false -> due = false) ->
        Good c high { r with
          node := node
          snapshotting := false
          compactionDue := due } := by
      intro due hdue
      refine ⟨h.ok, h.stands, ?_, ?_, h.restoring, ?_, ?_⟩
      · show node.storage.snapshotMeta.index <= node.lastApplied ∧
          node.lastApplied <= max r.applied node.storage.snapshotMeta.index
        rw [hlast, hindex]
        have hreached := h.level.2
        exact ⟨hbehind.2, by omega⟩
      · show exists m, c.Stands high node.storage.snapshotMeta.index m ∧
          Encodes node.storage.snapshot m
        rw [hdata, hindex]
        exact hencodes
      · intro hwait
        rw [show r.restoring = true from hwait] at hwritable
        cases hwritable
      · intro hinline
        exact ⟨hwritable, (h.inline hinline).2.1, hdue hinline⟩
    have hquiet : forall r' : ReplicatedStore, r.store.Kept r'.store ->
        (r.backgroundSnapshots = true -> r'.store = r.store) ->
        r'.applied = r.applied -> r'.node = node ->
        r'.backgroundSnapshots = r.backgroundSnapshots ->
        r'.restoring = r.restoring -> Moved r r' := by
      intro r' hkept hstore happlied hnode hbackground hrestoring
      refine ⟨hkept, ?_, Nat.le_of_eq happlied.symm, ?_, hbackground, ?_,
        hrestoring⟩
      · intro hb
        rw [hstore hb]
        exact Store.Later.refl _
      · rw [hnode, hlast]
      · intro hwait
        rw [hwritable] at hwait
        cases hwait
    unfold ReplicatedStore.finishSnapshot
    rw [hnew]
    dsimp only
    by_cases hfragmented : env.fragmented r.store.stats = true
    · rw [if_pos (by simpa using hfragmented)]
      by_cases hbackground : r.backgroundSnapshots = true
      · rw [if_pos hbackground]
        refine ⟨_, rfl, hgood true ?_, ?_⟩
        · intro hinline
          rw [hbackground] at hinline
          cases hinline
        · exact hquiet _ (Store.Kept.refl _) (fun _ => rfl) rfl rfl rfl rfl
      · rw [if_neg hbackground]
        have hinline := h.inline (by simpa using hbackground)
        rcases h.stands with ⟨m, hstands, hholds⟩
        rcases Store.compact_spec h.ok hholds hinline.2.1
          (h.restoring.trans hwritable) with
          ⟨store, rs, hcompact, hok, hindexes, hkept, _, _, hcompacting,
            hrestoring, _⟩
        have hbase' := hgood r.compactionDue (fun _ => hinline.2.2)
        rw [hcompact]
        refine ⟨_, rfl, ⟨hok, ⟨m, hstands, hindexes⟩, hbase'.level,
          hbase'.snapshot, hrestoring.trans hwritable.symm, hbase'.waiting, ?_⟩,
          ?_⟩
        · exact fun _ => ⟨hwritable, hcompacting, hinline.2.2⟩
        · exact hquiet { r with
              node := node
              snapshotting := false
              store := store } hkept (fun hb => absurd hb hbackground) rfl rfl
            rfl rfl
    · rw [if_neg (by simpa using hfragmented)]
      refine ⟨_, rfl, hgood r.compactionDue
        (fun hinline => (h.inline hinline).2.2), ?_⟩
      exact hquiet _ (Store.Kept.refl _) (fun _ => rfl) rfl rfl rfl rfl

/-!
# Applying
-/

theorem takeCommitted_eq {c : Committed} {n : Node} (hagrees : Agrees c n)
    (hbase : n.storage.log.base.index <= n.lastApplied) :
    n.takeCommitted.2 = (List.range' (n.lastApplied + 1)
      (n.commitIndex - n.lastApplied)).map c.entry := by
  have hcount : n.commitIndex + 1 - (n.lastApplied + 1) =
      n.commitIndex - n.lastApplied := by
    omega
  show (MemStorage.indices (n.lastApplied + 1) n.commitIndex).filterMap
    n.storage.entry = _
  rw [MemStorage.indices, hcount, ← List.filterMap_eq_map]
  apply List.filterMap_congr
  intro i hi
  rw [List.mem_range'_1] at hi
  exact hagrees i (by omega) (by omega)

theorem applied_spec (env : Env) {c : Committed} (hshort : c.Short) {high : Nat}
    {r : ReplicatedStore} (h : Good c high r) (hagrees : Agrees c r.node)
    (hlevel : r.snapshotIndex <= r.applied) :
    exists store applied, r.node.takeCommitted.2.foldlM (applyEntry env)
        (r.store, r.applied) = Except.ok (store, applied) ∧
      Good c high { r with
        node := r.node.takeCommitted.1
        store := if applied > r.applied then writeApplied store.sync applied
          else store
        applied := applied } ∧
      Moved r { r with
        node := r.node.takeCommitted.1
        store := if applied > r.applied then writeApplied store.sync applied
          else store
        applied := applied } := by
  have hwritable := h.writable hlevel
  have hreached : r.node.lastApplied <= r.applied := by
    have hmost := h.level.2
    rwa [Nat.max_eq_left hlevel] at hmost
  rcases h.takes hwritable with ⟨m, hstands, htakes⟩
  rcases foldlM_batch env hshort hreached
    (r.node.commitIndex - r.node.lastApplied) hstands htakes with
    ⟨store, m', hloop, hstands', htakes', hlater⟩
  rw [← takeCommitted_eq hagrees h.level.1] at hloop
  generalize happlied : max r.applied (r.node.lastApplied +
    (r.node.commitIndex - r.node.lastApplied)) = applied at *
  have hmore : r.applied <= applied := by omega
  have hstored : exists store', store' =
        (if applied > r.applied then writeApplied store.sync applied
        else store) ∧
      Takes store' m' ∧ r.store.Later store' := by
    refine ⟨_, rfl, ?_⟩
    split
    · rcases htakes'.sync with ⟨hsynced, hlater'⟩
      rcases hsynced.writeApplied applied with ⟨hwritten, hlater''⟩
      exact ⟨hwritten, (hlater.trans hlater').trans hlater''⟩
    · exact ⟨htakes', hlater⟩
  rcases hstored with ⟨store', heq, htakes'', hlater'⟩
  refine ⟨store, applied, hloop, ?_⟩
  rw [← heq]
  refine ⟨h.moved hstands' htakes'' hlater' hwritable rfl ?_ ⟨rfl, rfl, rfl⟩,
    moved_of_later hwritable hlater' hmore (Nat.le_max_left _ _) rfl rfl⟩
  show r.snapshotIndex <= max r.node.lastApplied r.node.commitIndex ∧
    max r.node.lastApplied r.node.commitIndex <= max applied r.snapshotIndex
  have hleast := h.level.1
  omega

theorem inlineSnapshot_spec (env : Env) {c : Committed} {high : Nat}
    {r : ReplicatedStore} (h : Good c high r) (hwritable : r.restoring = false) :
    exists r', (match r.startSnapshot with
        | (none, r) => Except.ok r
        | (some job, r) =>
            (job.run r.store.dir).bind (r.finishSnapshot env)) =
        Except.ok r' ∧ Good c high r' ∧ Moved r r' := by
  rcases startSnapshot_spec h with
    hnone | ⟨job, store, hstart, _, hlater, hjob, hgood⟩
  · rw [hnone]
    exact ⟨r, rfl, h, Moved.refl r⟩
  · rcases hjob.run with ⟨sink, hrun, hencodes, hbehind⟩
    rcases finishSnapshot_spec env hgood hencodes hbehind with
      ⟨r', hfinish, hgood', hmoved⟩
    rw [hstart]
    dsimp only
    rw [hrun]
    have hstarted : Moved r { r with store := store, snapshotting := true } :=
      moved_of_later hwritable hlater (Nat.le_refl _) (Nat.le_refl _) rfl rfl
    exact ⟨r', hfinish, hgood', hstarted.trans hmoved⟩

theorem applyLevel_spec (env : Env) {c : Committed} (hshort : c.Short)
    {high : Nat} {r : ReplicatedStore} (h : Good c high r) (hagrees : Agrees c r.node)
    (hlevel : r.snapshotIndex <= r.applied) :
    exists r', (r.node.takeCommitted.2.foldlM (applyEntry env)
        (r.store, r.applied)).bind (fun (store, applied) =>
          let store :=
            if applied > r.applied then writeApplied store.sync applied
            else store
          let r := { r with
            node := r.node.takeCommitted.1
            store := store
            applied := applied }
          if r.backgroundSnapshots then Except.ok r
          else
            match r.startSnapshot with
            | (none, r) => Except.ok r
            | (some job, r) =>
                (job.run r.store.dir).bind (r.finishSnapshot env)) =
        Except.ok r' ∧ Good c high r' ∧ Moved r r' := by
  rcases applied_spec env hshort h hagrees hlevel with
    ⟨store, applied, hloop, hgood, hmoved⟩
  rw [hloop]
  simp only [Except.bind]
  by_cases hbackground : r.backgroundSnapshots = true
  · simp only [if_pos hbackground]
    exact ⟨_, rfl, hgood, hmoved⟩
  · simp only [if_neg hbackground]
    rcases inlineSnapshot_spec env hgood (h.writable hlevel) with
      ⟨r', hinline, hgood', hmoved'⟩
    exact ⟨r', hinline, hgood', hmoved.trans hmoved'⟩

theorem restored_spec (env : Env) {c : Committed} {high : Nat}
    {r : ReplicatedStore} (h : Good c high r)
    (hahead : r.applied < r.snapshotIndex)
    (hinline : r.backgroundSnapshots = false) :
    exists store, r.restore env = Except.ok { r with
        store := store
        applied := r.snapshotIndex } ∧
      Good c high { r with store := store, applied := r.snapshotIndex } ∧
      Moved r { r with store := store, applied := r.snapshotIndex } := by
  have hwritable := (h.inline hinline).1
  rcases h.takes hwritable with ⟨m, _, hholds⟩
  rcases h.snapshot with ⟨target, hstands, hencodes⟩
  rcases restore_spec env hholds hencodes.streams with
    ⟨store, hrestore, htakes, hlater⟩
  refine ⟨store, hrestore, h.moved hstands htakes hlater hwritable rfl ?_
    ⟨rfl, rfl, rfl⟩, moved_of_later hwritable hlater (Nat.le_of_lt hahead)
      (Nat.le_refl _) rfl rfl⟩
  show r.snapshotIndex <= r.node.lastApplied ∧
    r.node.lastApplied <= max r.snapshotIndex r.snapshotIndex
  have hreached := h.level
  omega

theorem apply_spec (env : Env) {c : Committed} (hshort : c.Short) {high : Nat}
    {r : ReplicatedStore} (h : Good c high r) (hagrees : Agrees c r.node) :
    exists r', r.apply env = Except.ok r' ∧ Good c high r' ∧ Moved r r' := by
  unfold ReplicatedStore.apply
  by_cases hahead : r.snapshotIndex > r.applied
  · by_cases hbackground : r.backgroundSnapshots = true
    · rw [if_pos (by simp [hahead, hbackground])]
      exact ⟨r, rfl, h, Moved.refl r⟩
    · rw [if_neg (by simp [hbackground]), if_pos hahead]
      rcases restored_spec env h hahead (by simpa using hbackground) with
        ⟨store, hrestore, hgood, hrestored⟩
      rw [hrestore]
      rcases applyLevel_spec env hshort hgood hagrees (Nat.le_refl _) with
        ⟨r', happly, hgood', hmoved⟩
      exact ⟨r', happly, hgood', hrestored.trans hmoved⟩
  · rw [if_neg (by simp [hahead]), if_neg hahead]
    exact applyLevel_spec env hshort h hagrees (Nat.le_of_not_lt hahead)

/-!
# What the node does by itself
-/

theorem Good.node {c : Committed} {high : Nat} {r : ReplicatedStore}
    (h : Good c high r) {n : Node} (hreceived : Node.Received r.node n)
    (hpromise : n.storage.snapshotMeta.index ≠ r.snapshotIndex ->
      Encodes n.storage.snapshot (c.contents n.storage.snapshotMeta.index))
    (hwait : r.restoring = true ->
      n.storage.snapshotMeta.index = r.snapshotIndex) :
    Good c high { r with node := n } ∧ Moved r { r with node := n } := by
  have hlevel : r.node.storage.log.base.index <= r.node.lastApplied ∧
    r.node.lastApplied <= max r.applied r.node.storage.log.base.index := h.level
  refine ⟨⟨h.ok, h.stands, ?_, ?_, h.restoring, ?_, h.inline⟩,
    ⟨Store.Kept.refl _, fun _ => Store.Later.refl _, Nat.le_refl _, ?_, rfl,
      fun hw => ⟨rfl, hwait hw⟩, rfl⟩⟩
  · show n.storage.log.base.index <= n.lastApplied ∧
      n.lastApplied <= max r.applied n.storage.log.base.index
    cases hreceived with
    | same index covered base _ lastApplied =>
        rw [lastApplied, base]
        omega
    | newer newer lastApplied =>
        rw [lastApplied]
        omega
  · show exists m, c.Stands high n.storage.snapshotMeta.index m ∧
      Encodes n.storage.snapshot m
    by_cases hsame : n.storage.snapshotMeta.index = r.snapshotIndex
    · cases hreceived with
      | same index covered base snapshot _ =>
          rw [hsame, snapshot]
          exact h.snapshot
      | newer newer _ =>
          exact absurd hsame (Nat.ne_of_gt newer)
    · exact ⟨_, c.stands_contents high _, hpromise hsame⟩
  · intro hw
    show r.applied < n.storage.snapshotMeta.index
    rw [hwait hw]
    exact h.waiting hw
  · show r.node.lastApplied <= n.lastApplied
    cases hreceived with
    | same index covered base _ lastApplied =>
        rw [lastApplied]
        exact Nat.le_max_left _ _
    | newer newer lastApplied =>
        rw [lastApplied]
        exact Nat.le_max_left _ _

theorem Good.settled {c : Committed} {high : Nat} {r : ReplicatedStore}
    (h : Good c high r) {n : Node} (hsettled : Node.Settled r.node n) :
    Good c high { r with node := n } ∧ Moved r { r with node := n } := by
  have hindex : n.storage.snapshotMeta.index = r.snapshotIndex :=
    congrArg SnapshotMeta.index hsettled.base
  exact h.node hsettled.received (fun hne => absurd hindex hne)
    (fun _ => hindex)

end Replicated
end Minicask
