import Minicask.Replicated.Fold
import Minicask.Replicated.Restarts
import Minicask.Store.Survival

/-!
# What a running replica has on the disk

Between two calls nothing of a replica's store is still buffered, and the index
beside the store says how far it has got.  Once something has been applied, or some
work on the side has begun, all of the store is synced; before that, whatever start
of it a crash leaves stands at the applied index as well.
-/

namespace Minicask
namespace Replicated

open Raft Replay

/-!
# What keeps a store sturdy

Each way in which a store goes on leaves it on whole records that its index is an index
of, whatever work is out on it.
-/

namespace Sturdy

variable {s s' : Store} {out : Out}

theorem idle (h : Sturdy s out) (hcompacting : s.compacting = false)
    (hrestoring : s.restoring = false) : out = Out.idle := by
  rcases h with ⟨halive, hbacked⟩
  cases out with
  | idle => rfl
  | merging job =>
      rcases hbacked with ⟨m, chart, hbacks⟩
      rw [hbacks.work.1] at hcompacting
      cases hcompacting
  | merged merged =>
      rcases hbacked with ⟨m, chart, hbacks⟩
      rw [hbacks.work.1] at hcompacting
      cases hcompacting
  | restoring job =>
      rw [halive.out.2.1] at hrestoring
      cases hrestoring
  | restored restored =>
      rw [halive.out.2.1] at hrestoring
      cases hrestoring

theorem compact (h : Sturdy s Out.idle) (hcompact : s.compact = Except.ok s') :
    Sturdy s' Out.idle :=
  ⟨h.1.compact hcompact, Backed.compact h.2 h.1 hcompact⟩

theorem beginCompaction (h : Sturdy s Out.idle) {job : CompactionJob}
    (hbegin : s.beginCompaction = Except.ok (job, s')) :
    Sturdy s' (Out.merging job) :=
  ⟨h.1.beginCompaction hbegin, Backed.beginCompaction h.2 h.1 hbegin⟩

theorem runCompaction {job : CompactionJob} (h : Sturdy s (Out.merging job))
    {merged : MergedFile} {dir : Dir}
    (hrun : job.run s.dir = Except.ok (merged, dir)) :
    Sturdy { s with dir := dir } (Out.merged merged) :=
  ⟨h.1.runCompaction hrun, Backed.runCompaction h.2 hrun⟩

theorem finishCompaction {merged : MergedFile}
    (h : Sturdy s (Out.merged merged)) :
    Sturdy (s.finishCompaction merged) Out.idle :=
  ⟨h.1.finishCompaction, Backed.finishCompaction h.2⟩

theorem abandonCompaction {job : CompactionJob} (h : Sturdy s (Out.merging job))
    (left : Bytes) :
    Sturdy { s.abandonCompaction with
      dir := s.dir.writePart job.mergedId left } Out.idle := by
  rcases h with ⟨halive, hbacked⟩
  rcases halive.charted with ⟨chart, hcharted⟩
  have hsound : s.dir.SoundAs chart := ⟨halive.through, hcharted.soundAs⟩
  have hreplayed : Replayed s.abandonCompaction :=
    Backed.abandonCompaction hbacked
  exact ⟨halive.abandoned halive.out.2.1 rfl rfl rfl rfl rfl rfl
      (hsound.writePart job.mergedId left).through rfl halive.out.1,
    hreplayed.flagged rfl rfl rfl rfl rfl rfl⟩

theorem beginRestore (h : Sturdy s Out.idle) {job : Minicask.RestoreJob}
    (hbegin : s.beginRestore = Except.ok (job, s')) :
    Sturdy s' (Out.restoring job) :=
  ⟨h.1.beginRestore hbegin, Backed.beginRestore h.2 h.1 hbegin⟩

theorem runRestore {job : RestoreJob} (h : Sturdy s (Out.restoring job.job))
    {m : Contents} (hencodes : Encodes job.reader m) {done : RestoredStore}
    {dir : Dir} (hrun : job.run s.dir = Except.ok (done, dir)) :
    Sturdy { s with dir := dir } (Out.restored done.file) := by
  rcases run_cases hencodes hrun with ⟨rs, pushed, hloop, rfl, rfl⟩
  rcases alive_pushed h.1 h.2 hloop with ⟨halive, hbacked⟩
  exact ⟨halive.finish, Backed.finish hbacked halive⟩

theorem finishRestore {restored : RestoredFile}
    (h : Sturdy s (Out.restored restored)) :
    Sturdy (s.finishRestore restored) Out.idle :=
  ⟨h.1.finishRestore, Backed.restored h.2 h.1⟩

theorem abandonRestore {job : Minicask.RestoreJob}
    (h : Sturdy s (Out.restoring job)) :
    Sturdy { s.abandonRestore with dir := job.drop s.dir } Out.idle :=
  ⟨h.1.abandonRestore, Backed.abandonRestore h.2⟩

end Sturdy

/-!
# What keeps it on the disk

What a crash leaves of the store is the map that it held at some index since the last
one it was synced at.
-/

/-- What a replica relies on its files for, whatever work is out on them. -/
structure Lasting (c : Committed) (high : Nat) (out : Out) (applied : Nat)
    (s : Store) : Prop where
  sturdy : Sturdy s out
  pending : s.writer.pending = []
  recorded : readApplied s.dir = applied
  durable : s.Durable ∨ (out = Out.idle ∧
    exists chart, Survives (c.Stands high applied) s chart ∧
      s.Indexes (Minicask.recorded chart s.writer.fileId))

namespace Lasting

variable {c : Committed} {high applied : Nat} {out : Out} {s s' : Store}

theorem of_durable (hsturdy : Sturdy s out)
    (hrecorded : readApplied s.dir = applied) (hdurable : s.Durable) :
    Lasting c high out applied s :=
  ⟨hsturdy, hdurable.pending hsturdy.1.ok, hrecorded, Or.inl hdurable⟩

/-- With no work out, what a crash leaves of the store stands where it does. -/
theorem survives (h : Lasting c high Out.idle applied s) {m : Contents}
    (hstands : c.Stands high applied m) (hindexes : s.Indexes m) :
    exists chart, Survives (c.Stands high applied) s chart ∧
      s.Indexes (Minicask.recorded chart s.writer.fileId) := by
  rcases h.durable with hdurable | ⟨_, hsurvives⟩
  · rcases h.sturdy.2 with ⟨chart, hcharted, hrecorded⟩
    have hok := h.sturdy.1.ok
    rw [indexes_unique hok hindexes hrecorded] at hstands
    exact ⟨chart, Survives.of_synced (h.sturdy.1.chartedIdle hcharted) hok
      hdurable hstands, hrecorded⟩
  · exact hsurvives

theorem flushed (h : Lasting c high out applied s) : s.flushed = s := by
  unfold Store.flushed LogWriter.flush
  rw [if_pos (by rw [h.pending]; rfl)]

theorem tended (h : Lasting c high out applied s) (hbusy : out ≠ Out.idle)
    {out' : Out} (hsturdy : Sturdy s' out') (htended : Tended s s') :
    Lasting c high out' applied s' := by
  have hdurable : s.Durable :=
    h.durable.resolve_right (fun hidle => hbusy hidle.1)
  refine of_durable hsturdy ?_ (htended.durable hdurable)
  rw [← h.recorded]
  exact readApplied_congr htended.applied

theorem sealed (h : Lasting c high Out.idle applied s) {out' : Out}
    (hsturdy : Sturdy s' out')
    (hwriter : s'.writer = (s.sealInto (s.writer.fileId + 2)).writer)
    (happlied : s'.dir.disk.appliedIndex =
      (s.sealInto (s.writer.fileId + 2)).dir.disk.appliedIndex) :
    Lasting c high out' applied s' := by
  refine of_durable hsturdy ?_ (durable_of_empty hsturdy.1.ok ?_)
  · rw [← h.recorded]
    exact readApplied_congr
      (happlied.trans (appliedIndex_sealInto h.sturdy.1.ok _))
  · rw [hwriter]
    exact h.sturdy.1.bare.empty

end Lasting

/-!
# Entries
-/

/-- A command was carried out on a store. -/
inductive Op.Ran : Op -> Store -> Store -> Prop where
  | put {s s' : Store} {key value : Bytes} {now later : UInt64}
      (hfits : Fits key value)
      (hput : s.putDeferred key value now later = Except.ok s') :
      Ran (Op.put key value) s s'
  | delete {s s' : Store} {key : Bytes} {now later : UInt64} {was : Bool}
      (hdelete : s.deleteDeferred key now later = Except.ok (s', was)) :
      Ran (Op.delete key) s s'

theorem Written.ran {P : Store -> Prop} (hP : Written P) {op : Op}
    {s s' : Store} (h : P s) (hran : op.Ran s s') : P s' := by
  cases hran with
  | put hfits hput => exact hP.put h hfits hput
  | delete hdelete => exact hP.delete h hdelete

/-- One record was buffered, if there was anything to write. -/
theorem Op.Ran.spec {op : Op} {s s' : Store} (h : op.Ran s s') (hok : s.Ok)
    {m : Contents} (hindexes : s.Indexes m) :
    s'.Indexes (act m op.write) ∧ (s' = s ∨
      exists r : Rec, r.write = op.write ∧ s.Wrote r s' ∧
        s.Flowed Reach.buffer s') := by
  cases h with
  | @put s s' key value now later hfits hput =>
      rcases Store.wrote_of_putWith hok hfits hput with
        ⟨r, hkey, hvalue, _, _, hwrote, hafter⟩
      have hwrite : r.write = (Op.put key value).write := by
        rw [Rec.write, hkey, hvalue]
        rfl
      exact ⟨hwrite ▸ hafter m hindexes,
        Or.inr ⟨r, hwrite, hwrote, Store.flowed_putWith hput⟩⟩
  | @delete s s' key now later was hdelete =>
      have hwritable := (Store.deleteWith_eq_ok hdelete).1
      rcases Store.deleteWith_spec hok hindexes hwritable key Reach.buffer now
        later with ⟨s'', hdelete', hafter, hcases⟩
      have hpair := Except.ok.inj (hdelete'.symm.trans hdelete)
      cases hpair
      refine ⟨hafter, ?_⟩
      rcases hcases with ⟨hsame, _⟩ | ⟨r, hwrite, hwrote⟩
      · exact Or.inl hsame
      · by_cases hlive : (m key).isSome = true
        · rw [hlive] at hdelete'
          exact Or.inr ⟨r, hwrite, hwrote, Store.flowed_deleteWith hdelete'⟩
        · rcases Store.deleteWith_eq_ok hdelete' with
            ⟨_, _, ⟨_, hsame⟩ | ⟨hwas, _⟩⟩
          · exact Or.inl hsame
          · exact absurd hwas hlive

/-- An entry that is new is carried out, and is the applied index from then on. -/
theorem applyEntry_cases {c : Committed} (hshort : c.Short) {env : Env}
    {s : Store} {i j : Nat} {state : Store × Nat}
    (h : applyEntry env (s, i) (c.entry j) = Except.ok state) :
    (j <= i ∧ state = (s, i)) ∨
      i < j ∧ state.2 = j ∧ ((c.op j = none ∧ state.1 = s) ∨
        exists op, c.op j = some op ∧ op.Ran s state.1) := by
  have hcarries := c.carries j
  unfold applyEntry at h
  dsimp only at h
  rw [c.index j] at h
  split at h
  · next hold =>
      cases h
      exact Or.inl ⟨hold, rfl⟩
  · next hnew =>
      right
      refine ⟨Nat.lt_of_not_le hnew, ?_⟩
      cases hcommand : (c.entry j).command with
      | noop =>
          rw [hcommand] at h hcarries
          cases h
          exact ⟨rfl, Or.inl ⟨hcarries, rfl⟩⟩
      | config members =>
          rw [hcommand] at h hcarries
          cases h
          exact ⟨rfl, Or.inl ⟨hcarries, rfl⟩⟩
      | data bytes =>
          rw [hcommand] at h hcarries
          rcases hcarries with ⟨op, now, hop, hencode⟩
          have hlength := hshort j bytes hcommand
          dsimp only at h
          rw [Op.decode_encode hencode] at h
          cases op with
          | put key value =>
              rcases Fallible.map_eq_ok h with ⟨s', hput, rfl⟩
              refine ⟨rfl, Or.inr ⟨_, hop, Op.Ran.put ?_ hput⟩⟩
              rcases encode_parts hencode with ⟨header, rfl, _⟩
              simp only [List.length_append, Header.length_encode,
                Option.getD_some] at hlength
              unfold Fits
              omega
          | delete key =>
              rcases Fallible.map_eq_ok h with ⟨done, hdelete, rfl⟩
              exact ⟨rfl, Or.inr ⟨_, hop, Op.Ran.delete hdelete⟩⟩

theorem Written.batch {P : Store -> Prop} (hP : Written P) {c : Committed}
    (hshort : c.Short) {env : Env} {js : List Nat} {state state' : Store × Nat}
    (h : P state.1)
    (hloop : (js.map c.entry).foldlM (applyEntry env) state =
      Except.ok state') : P state'.1 := by
  apply Fallible.foldlM_keeps (P := fun state => P state.1) _ h hloop
  intro entry hentry state next hstate happly
  rcases List.mem_map.mp hentry with ⟨j, _, rfl⟩
  rcases applyEntry_cases hshort happly with
    ⟨_, rfl⟩ | ⟨_, _, ⟨_, hsame⟩ | ⟨op, _, hran⟩⟩
  · exact hstate
  · rw [hsame]
    exact hstate
  · exact hP.ran hstate hran

theorem batch_moves {c : Committed} (hshort : c.Short) {env : Env}
    {js : List Nat} {state state' : Store × Nat}
    (hloop : (js.map c.entry).foldlM (applyEntry env) state =
      Except.ok state') : state' = state ∨ state.2 < state'.2 := by
  apply Fallible.foldlM_keeps
    (P := fun found => found = state ∨ state.2 < found.2) _ (Or.inl rfl) hloop
  intro entry hentry found next hfound happly
  rcases List.mem_map.mp hentry with ⟨j, _, rfl⟩
  rcases applyEntry_cases hshort happly with ⟨_, rfl⟩ | ⟨hnew, hindex, _⟩
  · exact hfound
  · right
    rw [hindex]
    rcases hfound with rfl | hless
    · exact hnew
    · exact Nat.lt_trans hless hnew

namespace Lasting

variable {c : Committed} {high applied : Nat} {out : Out} {s s' : Store}

/-- A store that was synced before the index was written. -/
theorem written (hsturdy : Sturdy s out) {index : Nat}
    (hindex : index < 2 ^ 64) :
    Lasting c high out index (writeApplied s.sync index) := by
  have hdurable : s.sync.Durable := Store.synced_sync hsturdy.1.ok
  exact of_durable (hsturdy.sync.writeApplied index)
    (readApplied_writeApplied _ hindex) hdurable

theorem batch (hshort : c.Short) (h : Lasting c high out applied s) {env : Env}
    {js : List Nat} {index : Nat}
    (hloop : (js.map c.entry).foldlM (applyEntry env) (s, applied) =
      Except.ok (s', index)) (hindex : index < 2 ^ 64) :
    Lasting c high out index
      (if index > applied then writeApplied s'.sync index else s') := by
  have hsturdy : Sturdy s' out :=
    (written_sturdy out).batch hshort h.sturdy hloop
  rcases batch_moves hshort hloop with hsame | hmore
  · cases hsame
    rw [if_neg (Nat.lt_irrefl _)]
    exact h
  · rw [if_pos hmore]
    exact written hsturdy hindex

theorem compact (h : Lasting c high out applied s)
    (hcompact : s.compact = Except.ok s') : Lasting c high out applied s' := by
  have hflags : s.compacting = false ∧ s.restoring = false := by
    unfold Store.compact at hcompact
    split at hcompact
    · cases hcompact
    · next hidle => simpa using hidle
  have hidle := h.sturdy.idle hflags.1 hflags.2
  subst hidle
  rcases h.sturdy.1.indexes with ⟨m, hindexes⟩
  rcases Store.compact_spec h.sturdy.1.ok hindexes hflags.1 hflags.2 with
    ⟨s'', _, hcompact', _, _, _, _, hdurable, _, _, happlied, _⟩
  have hsame := Except.ok.inj (hcompact'.symm.trans hcompact)
  subst hsame
  refine of_durable (h.sturdy.compact hcompact) ?_ hdurable
  rw [← h.recorded]
  exact readApplied_congr happlied

end Lasting

/-!
# Applying
-/

/-- The replica whose entries `apply` goes on to write: it is level with its
snapshot, or has just been brought up to it. -/
inductive Levelled (env : Env) (r : ReplicatedStore) : ReplicatedStore -> Prop where
  | same (hlevel : r.snapshotIndex <= r.applied) : Levelled env r r
  | restored {r' : ReplicatedStore} (hahead : r.applied < r.snapshotIndex)
      (hinline : r.backgroundSnapshots = false)
      (hrestore : r.restore env = Except.ok r') : Levelled env r r'

def ReplicatedStore.batched (r : ReplicatedStore) (store : Store)
    (applied : Nat) : ReplicatedStore :=
  { r with
    node := r.node.takeCommitted.1
    store :=
      if applied > r.applied then writeApplied store.sync applied else store
    applied := applied }

/-- Applying waits for a snapshot, or goes through a batch and may end with a
snapshot of its own. -/
theorem apply_cases {env : Env} {r r' : ReplicatedStore}
    (h : r.apply env = Except.ok r') :
    r' = r ∨ exists level store applied, Levelled env r level ∧
      level.node.takeCommitted.2.foldlM (applyEntry env)
        (level.store, level.applied) = Except.ok (store, applied) ∧
      (r' = level.batched store applied ∨
        r' = (level.batched store applied).startSnapshot.2 ∨
        exists sink,
          (level.batched store applied).startSnapshot.2.finishSnapshot env sink =
            Except.ok r') := by
  unfold ReplicatedStore.apply at h
  split at h
  · cases h
    exact Or.inl rfl
  · next hgoes =>
      rcases Fallible.bind_eq_ok h with ⟨level, hlevel, h⟩
      rcases Fallible.bind_eq_ok h with ⟨⟨store, applied⟩, hloop, h⟩
      have hlevelled : Levelled env r level := by
        split at hlevel
        · next hahead =>
            exact Levelled.restored hahead (by simpa [hahead] using hgoes)
              hlevel
        · next hnot =>
            cases hlevel
            exact Levelled.same (Nat.le_of_not_lt hnot)
      refine Or.inr ⟨level, store, applied, hlevelled, hloop, ?_⟩
      dsimp only at h
      by_cases hbackground : level.backgroundSnapshots = true
      · rw [if_pos hbackground] at h
        cases h
        exact Or.inl rfl
      · rw [if_neg hbackground] at h
        right
        split at h
        · next started hstart =>
            cases h
            have hbatched : (level.batched store applied).startSnapshot =
              (none, r') := hstart
            rw [hbatched]
            exact Or.inl rfl
        · next job started hstart =>
            have hbatched : (level.batched store applied).startSnapshot =
              (some job, started) := hstart
            rw [hbatched]
            rcases Fallible.bind_eq_ok h with ⟨sink, _, hfinish⟩
            exact Or.inr ⟨sink, hfinish⟩

theorem Levelled.good {env : Env} {c : Committed} {high : Nat}
    {r r' : ReplicatedStore} (h : Levelled env r r') (hgood : Good c high r) :
    Good c high r' ∧ r'.snapshotIndex <= r'.applied ∧ r'.node = r.node := by
  cases h with
  | same hlevel => exact ⟨hgood, hlevel, rfl⟩
  | restored hahead hinline hrestore =>
      rcases restored_spec env hgood hahead hinline with
        ⟨store, hrestore', hgood', _⟩
      rw [hrestore'] at hrestore
      cases hrestore
      exact ⟨hgood', Nat.le_refl _, rfl⟩

theorem applied_startSnapshot (r : ReplicatedStore) :
    r.startSnapshot.2.applied = r.applied := by
  unfold ReplicatedStore.startSnapshot
  split
  · rfl
  · split <;> rfl

theorem store_startSnapshot {r : ReplicatedStore}
    (hflushed : r.store.flushed = r.store) :
    r.startSnapshot.2.store = r.store := by
  unfold ReplicatedStore.startSnapshot
  split
  · rfl
  · split
    · rfl
    · exact hflushed

theorem finishSnapshot_cases {env : Env} {r r' : ReplicatedStore}
    {sink : MemSnapshot} (h : r.finishSnapshot env sink = Except.ok r') :
    r'.applied = r.applied ∧
      (r'.store = r.store ∨ r.store.compact = Except.ok r'.store) := by
  unfold ReplicatedStore.finishSnapshot at h
  dsimp only at h
  split at h
  · split at h
    · cases h
      exact ⟨rfl, Or.inl rfl⟩
    · rcases Fallible.map_eq_ok h with ⟨store, hcompact, rfl⟩
      exact ⟨rfl, Or.inr hcompact⟩
  · cases h
    exact ⟨rfl, Or.inl rfl⟩

namespace Lasting

variable {c : Committed} {high : Nat} {out : Out} {r r' : ReplicatedStore}

theorem startSnapshot (h : Lasting c high out r.applied r.store) :
    Lasting c high out r.startSnapshot.2.applied r.startSnapshot.2.store := by
  rw [applied_startSnapshot, store_startSnapshot h.flushed]
  exact h

theorem finishSnapshot (h : Lasting c high out r.applied r.store) {env : Env}
    {sink : MemSnapshot} (hfinish : r.finishSnapshot env sink = Except.ok r') :
    Lasting c high out r'.applied r'.store := by
  rcases finishSnapshot_cases hfinish with ⟨happlied, hsame | hcompact⟩
  · rw [happlied, hsame]
    exact h
  · rw [happlied]
    exact h.compact hcompact

theorem levelled (h : Lasting c high out r.applied r.store)
    (hgood : Good c high r) {env : Env} (hlevel : Levelled env r r')
    (hindex : r'.applied < 2 ^ 64) :
    Lasting c high out r'.applied r'.store := by
  cases hlevel with
  | same _ => exact h
  | restored _ _ hrestore =>
      rcases hgood.snapshot with ⟨m, _, hencodes⟩
      rcases (written_sturdy out).restore h.sturdy hencodes hrestore with
        ⟨s, hsturdy, rfl⟩
      exact written hsturdy hindex

theorem apply (hshort : c.Short) (h : Lasting c high out r.applied r.store)
    (hgood : Good c high r) (hagrees : Agrees c r.node) {env : Env}
    (happly : r.apply env = Except.ok r') (hindex : r'.applied < 2 ^ 64) :
    Lasting c high out r'.applied r'.store := by
  rcases apply_cases happly with rfl | ⟨level, store, applied, hlevel, hloop, hend⟩
  · exact h
  · rcases hlevel.good hgood with ⟨hgood', _, hnode⟩
    rw [takeCommitted_eq (hnode ▸ hagrees) hgood'.level.1] at hloop
    have hless : level.applied <= applied := by
      rcases batch_moves hshort hloop with hsame | hmore
      · exact Nat.le_of_eq (congrArg Prod.snd hsame).symm
      · exact Nat.le_of_lt hmore
    have hbatched : forall (happlied : applied < 2 ^ 64),
        Lasting c high out (level.batched store applied).applied
          (level.batched store applied).store := by
      intro happlied
      exact (h.levelled hgood hlevel (Nat.lt_of_le_of_lt hless happlied)).batch
        hshort hloop happlied
    rcases hend with rfl | rfl | ⟨sink, hfinish⟩
    · exact hbatched hindex
    · rw [applied_startSnapshot] at hindex
      exact (hbatched hindex).startSnapshot
    · rw [(finishSnapshot_cases hfinish).1, applied_startSnapshot] at hindex
      exact (hbatched hindex).startSnapshot.finishSnapshot hfinish

end Lasting

/-!
# Work on the side
-/

/-- A compaction is begun, or only its being due is forgotten. -/
theorem startCompaction_cases {r r' : ReplicatedStore}
    {result : Except Error (Option CompactionJob)}
    (h : r.startCompaction = (result, r')) :
    (exists job store, result = Except.ok (some job) ∧
      r.store.beginCompaction = Except.ok (job, store) ∧
      r'.store = store ∧ r'.applied = r.applied) ∨
    (forall job, result ≠ Except.ok (some job)) ∧ r'.store = r.store ∧
      r'.applied = r.applied := by
  unfold ReplicatedStore.startCompaction at h
  split at h
  · cases h
    exact Or.inr ⟨nofun, rfl, rfl⟩
  · dsimp only at h
    split at h
    · next job store hbegin =>
        cases h
        exact Or.inl ⟨job, store, rfl, hbegin, rfl, rfl⟩
    · cases h
      exact Or.inr ⟨nofun, rfl, rfl⟩

namespace Lasting

variable {c : Committed} {high applied : Nat} {s s' : Store}

theorem beginCompaction (h : Lasting c high Out.idle applied s)
    {job : CompactionJob}
    (hbegin : s.beginCompaction = Except.ok (job, s')) :
    Lasting c high (Out.merging job) applied s' := by
  have hsturdy := h.sturdy.beginCompaction hbegin
  unfold Store.beginCompaction at hbegin
  rw [if_neg (by simp [h.sturdy.1.out.1, h.sturdy.1.out.2.1])] at hbegin
  cases hbegin
  exact h.sealed hsturdy rfl rfl

theorem runCompaction {job : CompactionJob}
    (h : Lasting c high (Out.merging job) applied s) {merged : MergedFile}
    {dir : Dir} (hrun : job.run s.dir = Except.ok (merged, dir)) :
    Lasting c high (Out.merged merged) applied { s with dir := dir } := by
  rcases h.sturdy.1.out with ⟨_, _, hjob, _⟩
  rcases hjob.run with ⟨merged', dir', bytes, hrun', hplaced, _, _⟩
  have hpair := Except.ok.inj (hrun'.symm.trans hrun)
  cases hpair
  exact h.tended nofun (h.sturdy.runCompaction hrun)
    (tended_placed hjob.slot hplaced (appliedIndex_run hrun))

theorem finishCompaction {merged : MergedFile}
    (h : Lasting c high (Out.merged merged) applied s) :
    Lasting c high Out.idle applied (s.finishCompaction merged) := by
  rcases h.sturdy.1.out with ⟨_, _, hmerged⟩
  have htrimmed : s.Trimmed merged.oldIds (s.finishCompaction merged) :=
    ⟨rfl, rfl⟩
  exact h.tended nofun h.sturdy.finishCompaction
    (tended_removed htrimmed hmerged.slot.active_notMem)

theorem abandonCompaction {job : CompactionJob}
    (h : Lasting c high (Out.merging job) applied s) (left : Bytes) :
    Lasting c high Out.idle applied { s.abandonCompaction with
      dir := s.dir.writePart job.mergedId left } :=
  h.tended nofun (h.sturdy.abandonCompaction left) ⟨rfl, rfl, rfl⟩

theorem beginRestore (h : Lasting c high Out.idle applied s)
    {job : Minicask.RestoreJob}
    (hbegin : s.beginRestore = Except.ok (job, s')) :
    Lasting c high (Out.restoring job) applied s' := by
  have hsturdy := h.sturdy.beginRestore hbegin
  unfold Store.beginRestore at hbegin
  rw [if_neg (by simp [h.sturdy.1.out.1, h.sturdy.1.out.2.1])] at hbegin
  cases hbegin
  exact h.sealed hsturdy rfl rfl

theorem runRestore {job : RestoreJob}
    (h : Lasting c high (Out.restoring job.job) applied s) {m : Contents}
    (hencodes : Encodes job.reader m) {done : RestoredStore} {dir : Dir}
    (hrun : job.run s.dir = Except.ok (done, dir)) :
    Lasting c high (Out.restored done.file) applied { s with dir := dir } := by
  have hsturdy := h.sturdy.runRestore hencodes hrun
  rcases run_cases hencodes hrun with ⟨rs, pushed, hloop, rfl, rfl⟩
  rcases alive_pushed h.sturdy.1 h.sturdy.2 hloop with ⟨halive, _⟩
  rcases halive.out with ⟨_, _, _, hslot, _, _⟩
  exact h.tended nofun hsturdy (tended_placed hslot
    (Dir.placed_renamePart s.dir pushed.id pushed.file pushed.offset
      pushed.hints) (appliedIndex_placed _ _ _ _ _))

theorem finishRestore {restored : RestoredFile}
    (h : Lasting c high (Out.restored restored) applied s) {index : Nat}
    (hindex : index < 2 ^ 64) :
    Lasting c high Out.idle index
      (writeApplied (s.finishRestore restored).sync index) :=
  written h.sturdy.finishRestore hindex

theorem abandonRestore {job : Minicask.RestoreJob}
    (h : Lasting c high (Out.restoring job) applied s) :
    Lasting c high Out.idle applied
      { s.abandonRestore with dir := job.drop s.dir } :=
  h.tended nofun h.sturdy.abandonRestore ⟨rfl, rfl, rfl⟩

end Lasting

/-!
# Events

An event leaves what the store is relied on for as it was, or it applies a batch.
-/

def System.out (s : System) : Out :=
  match s.compaction, s.restore with
  | Work.started job, _ => Out.merging job
  | Work.finished merged, _ => Out.merged merged
  | Work.idle, Work.started job => Out.restoring job.job
  | Work.idle, Work.finished done => Out.restored done.file
  | Work.idle, Work.idle => Out.idle

namespace System

variable {s : System}

theorem out_idle (hcompaction : s.compaction = Work.idle)
    (hrestore : s.restore = Work.idle) : s.out = Out.idle := by
  unfold out
  rw [hcompaction, hrestore]

theorem out_merging {job : CompactionJob}
    (h : s.compaction = Work.started job) : s.out = Out.merging job := by
  unfold out
  rw [h]

theorem out_merged {merged : MergedFile}
    (h : s.compaction = Work.finished merged) : s.out = Out.merged merged := by
  unfold out
  rw [h]

theorem out_restoring (hcompaction : s.compaction = Work.idle)
    {job : RestoreJob} (h : s.restore = Work.started job) :
    s.out = Out.restoring job.job := by
  unfold out
  rw [hcompaction, h]

theorem out_restored (hcompaction : s.compaction = Work.idle)
    {done : RestoredStore} (h : s.restore = Work.finished done) :
    s.out = Out.restored done.file := by
  unfold out
  rw [hcompaction, h]

end System

/-- A replica that is in order, in memory and on the disk. -/
structure Enduring (c : Committed) (high : Nat) (s : System) : Prop where
  inv : Invariant c high s
  lasting : Lasting c high s.out s.replica.applied s.replica.store

theorem Lasting.of_out {c : Committed} {high : Nat} {s : System} {out : Out}
    (hout : s.out = out)
    (h : Lasting c high out s.replica.applied s.replica.store) :
    Lasting c high s.out s.replica.applied s.replica.store := by
  rw [hout]
  exact h

namespace Enduring

variable {c : Committed} {high : Nat} {s s' : System}

theorem applies (h : Enduring c high s) {e : Event}
    (hpromised : Promised c s.replica e) {env : Env}
    (happlies : e.applies s = some (env, s'))
    (hindex : s'.replica.applied < 2 ^ 64) :
    Enduring c high s' ∧ Agrees c s'.replica.node := by
  rcases h.inv.applies hpromised happlies with ⟨hinv, hagrees⟩
  refine ⟨⟨hinv, ?_⟩, hagrees⟩
  cases e with
  | tick env' =>
      cases happlies
      exact h.lasting
  | step env' sender message =>
      rcases Event.applies_step happlies with ⟨rfl, _⟩
      exact h.lasting
  | finishRestore env' =>
      unfold Event.applies at happlies
      dsimp only at happlies
      split at happlies
      · next done hwork =>
          cases happlies
          have hrestore := h.inv.restore
          unfold RestoreOk at hrestore
          rw [hwork] at hrestore
          have hnone := h.inv.not_compacting hrestore.2.2
          have hlasting := h.lasting
          rw [System.out_restored hnone hwork] at hlasting
          exact Lasting.of_out (System.out_idle hnone rfl)
            (hlasting.finishRestore hindex)
      · cases happlies
  | _ => cases happlies

theorem apply (hshort : c.Short) (h : Enduring c high s) {env : Env}
    (hagrees : Agrees c s.replica.node) {r : ReplicatedStore}
    (happly : s.replica.apply env = Except.ok r)
    (hindex : r.applied < 2 ^ 64) : Enduring c high { s with replica := r } := by
  rcases h.inv.apply hshort env hagrees with ⟨r', happly', hinv⟩
  rw [happly] at happly'
  cases happly'
  exact ⟨hinv, h.lasting.apply hshort h.inv.good hagrees happly hindex⟩

theorem applied (hshort : c.Short) (h : Enduring c high s) {e : Event}
    (hpromised : Promised c s.replica e)
    (happly : (exists env, e = Event.tick env) ∨
      (exists env sender message, e = Event.step env sender message) ∨
      exists env, e = Event.finishRestore env)
    (hnext : s.next e = Except.ok s') (hindex : s'.replica.applied < 2 ^ 64) :
    Enduring c high s' := by
  cases happlies : e.applies s with
  | none =>
      rw [System.next_ignored happlies happly] at hnext
      cases hnext
      exact h
  | some begun =>
      rcases begun with ⟨env, s₁⟩
      rw [System.next_applies happlies] at hnext
      rcases Fallible.map_eq_ok hnext with ⟨r, hr, rfl⟩
      rcases h.inv.applies hpromised happlies with ⟨hinv, hagrees⟩
      rcases apply_spec env hshort hinv.good hagrees with
        ⟨r', hr', _, hmoved⟩
      rw [hr] at hr'
      cases hr'
      have hbegun := (h.applies hpromised happlies
        (Nat.lt_of_le_of_lt hmoved.applied hindex)).1
      exact hbegun.apply hshort hagrees hr hindex

theorem quiet (h : Enduring c high s) (hout : s'.out = s.out)
    (happlied : s'.replica.applied = s.replica.applied)
    (hstore : s'.replica.store = s.replica.store) :
    Lasting c high s'.out s'.replica.applied s'.replica.store := by
  rw [hout, happlied, hstore]
  exact h.lasting

theorem startSnapshot (h : Enduring c high s)
    (hnext : s.next Event.startSnapshot = Except.ok s') :
    Lasting c high s'.out s'.replica.applied s'.replica.store := by
  have hstarted := h.lasting.startSnapshot
  unfold System.next at hnext
  dsimp only at hnext
  split at hnext
  · next replica hstart =>
      cases hnext
      rw [hstart] at hstarted
      exact hstarted
  · next job replica hstart =>
      cases hnext
      rw [hstart] at hstarted
      exact hstarted

theorem finishSnapshot (h : Enduring c high s) {env : Env}
    (hnext : s.next (Event.finishSnapshot env) = Except.ok s') :
    Lasting c high s'.out s'.replica.applied s'.replica.store := by
  unfold System.next at hnext
  dsimp only at hnext
  split at hnext
  · rcases Fallible.map_eq_ok hnext with ⟨r, hfinish, rfl⟩
    exact h.lasting.finishSnapshot hfinish
  · cases hnext
    exact h.lasting

theorem startCompaction (h : Enduring c high s)
    (hnext : s.next Event.startCompaction = Except.ok s') :
    Lasting c high s'.out s'.replica.applied s'.replica.store := by
  unfold System.next at hnext
  dsimp only at hnext
  split at hnext
  · next job replica hstart =>
      cases hnext
      rcases startCompaction_cases hstart with
        ⟨job', store, hjob, hbegin, hstore, happlied⟩ | ⟨hnone, _⟩
      · cases hjob
        have hflags := Store.idle_of_beginCompaction hbegin
        have hlasting := h.lasting
        rw [h.lasting.sturdy.idle hflags.1 hflags.2] at hlasting
        show Lasting c high (Out.merging job) replica.applied replica.store
        rw [happlied, hstore]
        exact hlasting.beginCompaction hbegin
      · exact absurd rfl (hnone job)
  · next replica hother hstart =>
      cases hnext
      rcases startCompaction_cases hstart with
        ⟨job, _, heq, _⟩ | ⟨_, hstore, happlied⟩
      · exact (hother job heq).elim
      · exact h.quiet rfl happlied hstore

theorem runCompaction (h : Enduring c high s)
    (hnext : s.next Event.runCompaction = Except.ok s') :
    Lasting c high s'.out s'.replica.applied s'.replica.store := by
  have hlasting := h.lasting
  unfold System.next at hnext
  dsimp only at hnext
  split at hnext
  · next job hwork =>
      rcases Fallible.map_eq_ok hnext with ⟨done, hrun, rfl⟩
      rw [System.out_merging hwork] at hlasting
      exact hlasting.runCompaction hrun
  · cases hnext
    exact hlasting

theorem finishCompaction (h : Enduring c high s)
    (hnext : s.next Event.finishCompaction = Except.ok s') :
    Lasting c high s'.out s'.replica.applied s'.replica.store := by
  have hlasting := h.lasting
  have hcompaction := h.inv.compaction
  unfold System.next at hnext
  unfold CompactionOk at hcompaction
  dsimp only at hnext
  split at hnext
  · next merged hwork =>
      cases hnext
      rw [hwork] at hcompaction
      rw [System.out_merged hwork] at hlasting
      exact Lasting.of_out
        (System.out_idle rfl (h.inv.restore_idle hcompaction.2.2))
        hlasting.finishCompaction
  · cases hnext
    exact hlasting

theorem abandonCompaction (h : Enduring c high s) {left : Bytes}
    (hnext : s.next (Event.abandonCompaction left) = Except.ok s') :
    Lasting c high s'.out s'.replica.applied s'.replica.store := by
  have hlasting := h.lasting
  have hcompaction := h.inv.compaction
  unfold System.next at hnext
  unfold CompactionOk at hcompaction
  dsimp only at hnext
  split at hnext
  · next job hwork =>
      cases hnext
      rw [hwork] at hcompaction
      rw [System.out_merging hwork] at hlasting
      exact Lasting.of_out
        (System.out_idle rfl (h.inv.restore_idle hcompaction.2.2))
        (hlasting.abandonCompaction left)
  · cases hnext
    exact hlasting

theorem startRestore (h : Enduring c high s)
    (hnext : s.next Event.startRestore = Except.ok s') :
    Lasting c high s'.out s'.replica.applied s'.replica.store := by
  unfold System.next at hnext
  dsimp only at hnext
  split at hnext
  · next replica hstart =>
      cases hnext
      have hsame : replica = s.replica := by
        unfold ReplicatedStore.startRestore at hstart
        split at hstart
        · cases hstart
          rfl
        · split at hstart <;> cases hstart
          rfl
      exact h.quiet rfl (by rw [hsame]) (by rw [hsame])
  · next job replica hstart =>
      cases hnext
      rcases startRestore_cases hstart with ⟨begun, store, hbegin, rfl, rfl⟩
      have hflags := Store.idle_of_beginRestore hbegin
      have hlasting := h.lasting
      rw [h.lasting.sturdy.idle hflags.1 hflags.2] at hlasting
      refine Lasting.of_out (System.out_restoring ?_ rfl)
        (hlasting.beginRestore hbegin)
      exact h.inv.compaction_idle hflags.1

theorem runRestore (h : Enduring c high s)
    (hnext : s.next Event.runRestore = Except.ok s') :
    Lasting c high s'.out s'.replica.applied s'.replica.store := by
  have hlasting := h.lasting
  have hrestore := h.inv.restore
  unfold System.next at hnext
  unfold RestoreOk at hrestore
  dsimp only at hnext
  split at hnext
  · next job hwork =>
      rcases Fallible.map_eq_ok hnext with ⟨⟨done, dir⟩, hrun, rfl⟩
      rw [hwork] at hrestore
      rcases hrestore with ⟨_, _, ⟨m, _, hencodes⟩, _, hrestoring⟩
      have hnone := h.inv.not_compacting hrestoring
      rw [System.out_restoring hnone hwork] at hlasting
      refine Lasting.of_out (System.out_restored ?_ rfl)
        (hlasting.runRestore hencodes hrun)
      exact hnone
  · cases hnext
    exact hlasting

theorem abandonRestore (h : Enduring c high s)
    (hnext : s.next Event.abandonRestore = Except.ok s') :
    Lasting c high s'.out s'.replica.applied s'.replica.store := by
  have hlasting := h.lasting
  have hrestore := h.inv.restore
  unfold System.next at hnext
  unfold RestoreOk at hrestore
  dsimp only at hnext
  split at hnext
  · next job hwork =>
      cases hnext
      rw [hwork] at hrestore
      have hnone := h.inv.not_compacting hrestore.2.2.2.2
      rw [System.out_restoring hnone hwork] at hlasting
      exact Lasting.of_out (System.out_idle hnone rfl) hlasting.abandonRestore
  · cases hnext
    exact hlasting

/-- Whatever happens next. -/
theorem next (hshort : c.Short) (h : Enduring c high s) {e : Event}
    (hpromised : Promised c s.replica e) (hnext : s.next e = Except.ok s')
    (hindex : s'.replica.applied < 2 ^ 64) : Enduring c high s' := by
  rcases h.inv.next hshort e hpromised with ⟨s'', hnext', hinv⟩
  rw [hnext] at hnext'
  cases hnext'
  cases e with
  | tick env => exact h.applied hshort hpromised (Or.inl ⟨env, rfl⟩) hnext hindex
  | step env sender message =>
      exact h.applied hshort hpromised
        (Or.inr (Or.inl ⟨env, sender, message, rfl⟩)) hnext hindex
  | finishRestore env =>
      exact h.applied hshort hpromised (Or.inr (Or.inr ⟨env, rfl⟩)) hnext hindex
  | campaign =>
      cases hnext
      exact ⟨hinv, h.lasting⟩
  | propose op now =>
      cases hnext
      refine ⟨hinv, ?_⟩
      unfold ReplicatedStore.propose
      split
      · exact h.lasting
      · split <;> exact h.lasting
  | proposeBatch commands =>
      cases hnext
      refine ⟨hinv, ?_⟩
      unfold ReplicatedStore.proposeBatch
      cases s.replica.node.proposeBatch commands <;> exact h.lasting
  | proposeMembership members =>
      cases hnext
      refine ⟨hinv, ?_⟩
      unfold ReplicatedStore.proposeMembership
      cases s.replica.node.proposeMembership members <;> exact h.lasting
  | readIndex =>
      cases hnext
      exact ⟨hinv, h.lasting⟩
  | forgetRead request =>
      cases hnext
      exact ⟨hinv, h.lasting⟩
  | setSnapshotEvery entries =>
      cases hnext
      exact ⟨hinv, h.lasting⟩
  | startSnapshot => exact ⟨hinv, h.startSnapshot hnext⟩
  | runSnapshot =>
      refine ⟨hinv, ?_⟩
      unfold System.next at hnext
      dsimp only at hnext
      split at hnext
      · rcases Fallible.map_eq_ok hnext with ⟨sink, _, rfl⟩
        exact h.lasting
      · cases hnext
        exact h.lasting
  | finishSnapshot env => exact ⟨hinv, h.finishSnapshot hnext⟩
  | abandonSnapshot =>
      cases hnext
      exact ⟨hinv, h.lasting⟩
  | startCompaction => exact ⟨hinv, h.startCompaction hnext⟩
  | runCompaction => exact ⟨hinv, h.runCompaction hnext⟩
  | finishCompaction => exact ⟨hinv, h.finishCompaction hnext⟩
  | abandonCompaction left => exact ⟨hinv, h.abandonCompaction hnext⟩
  | startRestore => exact ⟨hinv, h.startRestore hnext⟩
  | runRestore => exact ⟨hinv, h.runRestore hnext⟩
  | abandonRestore => exact ⟨hinv, h.abandonRestore hnext⟩

end Enduring

end Replicated
end Minicask
