import Minicask.Replicated.Durability

/-!
# Crashes of a replica, and what it comes back to

A replica is killed, or loses its power, between two calls or at any point of
applying a batch.  It keeps its raft storage, its files, and the applied index if
that is not lost as well.  The index never says more than the files hold, and
replaying the log from it comes to the log again, however far ahead of it each key
is found.
-/

namespace Minicask
namespace Replicated

open Raft Replay

/-!
# Crashes while entries are applied
-/

def afresh (s : Store) : Store :=
  { s with dir := { disk := s.dir.disk } }

/-- What a crash may find while a replica applies what its node hands over: the last
entry that has been given to the store, the files, and the raft storage. -/
inductive Applying (env : Env) (r : ReplicatedStore) :
    Nat -> Disk -> MemStorage -> Prop where
  | writing {done left : List Entry} {store : Store} {applied incoming : Nat}
      {disk : Disk} (hhanded : r.node.takeCommitted.2 = done ++ left)
      (hloop : done.foldlM (applyEntry env) (afresh r.store, r.applied) =
        Except.ok (store, applied))
      (hdisk : disk ∈ (store.rollIfNeeded incoming).dir.states) :
      Applying env r applied disk r.node.storage
  | recording {store : Store} {applied : Nat} {disk : Disk}
      (hloop : r.node.takeCommitted.2.foldlM (applyEntry env)
        (afresh r.store, r.applied) = Except.ok (store, applied))
      (hnew : r.applied < applied)
      (hdisk : disk ∈ (writeApplied store.sync applied).dir.states) :
      Applying env r applied disk r.node.storage
  | installed {store : Store} {applied : Nat} {job : SnapshotJob}
      {started : ReplicatedStore} {sink : MemSnapshot}
      (hloop : r.node.takeCommitted.2.foldlM (applyEntry env)
        (r.store, r.applied) = Except.ok (store, applied))
      (hstart : (r.batched store applied).startSnapshot = (some job, started))
      (hrun : job.run started.store.dir = Except.ok sink) :
      Applying env r applied started.store.dir.disk
        (started.node.finishCompaction sink).1.storage

/-!
# Runs with crashes
-/

/-- A replica that is running, or what is left of one. -/
inductive Stage where
  | up (s : System)
  | down (disk : Disk) (storage : MemStorage)

/-- No compaction of the store and no restore of it is under way. -/
def Quiet (r : ReplicatedStore) : Prop :=
  r.store.compacting = false ∧ r.store.restoring = false

/-- A replica that starts with nothing, and all that happens to it, crashes and
restarts among it.  It may be stopped between two events, when the node has been
through one and nothing is applied yet, or in the middle of applying.  The number is
the last entry it had applied before any of the crashes; an applied index is a number
of 64 bits. -/
inductive CrashRun (c : Committed) : Nat -> Stage -> Prop where
  | start (opts : Options) (id : NodeId) (bootstrap : List Member)
      (config : Config) (env : Env) (snapshotEvery : Nat) (background : Bool)
      {store : Store} {replica : ReplicatedStore}
      (hopen : Store.openWith {} opts = Except.ok store)
      (hnew : ReplicatedStore.new (Node.withMembers id bootstrap config {})
        store env = Except.ok replica) :
      CrashRun c 0 (Stage.up
        { replica := { replica with
            snapshotEvery := snapshotEvery
            backgroundSnapshots := background }
          snapshot := Work.idle
          compaction := Work.idle
          restore := Work.idle })
  | next {high : Nat} {s s' : System} (e : Event)
      (hrun : CrashRun c high (Stage.up s)) (hpromised : Promised c s.replica e)
      (hnext : s.next e = Except.ok s')
      (hindex : s'.replica.applied < 2 ^ 64) : CrashRun c high (Stage.up s')
  | stopped {high : Nat} {s : System} {disk : Disk}
      (hrun : CrashRun c high (Stage.up s)) (hquiet : Quiet s.replica)
      (hkilled : s.replica.store.dir.disk.Killed disk) :
      CrashRun c (max high s.replica.applied)
        (Stage.down disk s.replica.node.storage)
  | caught {high : Nat} {s s' : System} {e : Event} {env : Env} {disk : Disk}
      (hrun : CrashRun c high (Stage.up s)) (hpromised : Promised c s.replica e)
      (happlies : e.applies s = some (env, s')) (hquiet : Quiet s'.replica)
      (hindex : s'.replica.applied < 2 ^ 64)
      (hkilled : s'.replica.store.dir.disk.Killed disk) :
      CrashRun c (max high s'.replica.applied)
        (Stage.down disk s'.replica.node.storage)
  | interrupted {high : Nat} {s s' : System} {e : Event} {env : Env}
      {level : ReplicatedStore} {applied : Nat} {disk disk' : Disk}
      {storage : MemStorage} (hrun : CrashRun c high (Stage.up s))
      (hpromised : Promised c s.replica e)
      (happlies : e.applies s = some (env, s'))
      (hlevel : Levelled env s'.replica level) (hquiet : Quiet level)
      (hcut : Applying env level applied disk storage)
      (hindex : applied < 2 ^ 64) (hkilled : disk.Killed disk') :
      CrashRun c (max high applied) (Stage.down disk' storage)
  | damaged {high : Nat} {disk : Disk} {storage : MemStorage}
      {bytes : Option Bytes} (hrun : CrashRun c high (Stage.down disk storage))
      (hnone : readApplied { disk := { disk with appliedIndex := bytes } } = 0) :
      CrashRun c high (Stage.down { disk with appliedIndex := bytes } storage)
  | restarted {high : Nat} {disk : Disk} {storage : MemStorage}
      (hrun : CrashRun c high (Stage.down disk storage)) (opts : Options)
      (id : NodeId) (bootstrap : List Member) (config : Config) (env : Env)
      (snapshotEvery : Nat) (background : Bool) {store : Store}
      {replica : ReplicatedStore}
      (hopen : Store.openWith { disk := disk } opts = Except.ok store)
      (hnew : ReplicatedStore.new (Node.withMembers id bootstrap config storage)
        store env = Except.ok replica)
      (hindex : replica.applied < 2 ^ 64) :
      CrashRun c high (Stage.up
        { replica := { replica with
            snapshotEvery := snapshotEvery
            backgroundSnapshots := background }
          snapshot := Work.idle
          compaction := Work.idle
          restore := Work.idle })

/-- What a crash leaves: files any cut of which come to what stands at the index
beside them, and a snapshot of what stands at its own. -/
structure Fallen (c : Committed) (high : Nat) (disk : Disk)
    (storage : MemStorage) : Prop where
  left : exists whole : Disk, whole.Killed disk ∧
    whole.Leaves (c.Stands high (readApplied { disk := disk }))
  recorded : readApplied { disk := disk } <= high
  snapshot : exists m, c.Stands high storage.snapshotMeta.index m ∧
    Encodes storage.snapshot m

/-!
# What a crash leaves
-/

/-- A store that entries are being applied to, from one index on. -/
structure Writing (c : Committed) (high low : Nat) (recorded : Option Bytes)
    (state : Store × Nat) : Prop where
  steady : Steady recorded state.1
  reached : low <= state.2
  survives : exists chart,
    Survives (c.Stands (max high state.2) low) state.1 chart ∧
    c.Stands high state.2
      (Minicask.recorded chart state.1.writer.fileId) ∧
    state.1.Indexes (Minicask.recorded chart state.1.writer.fileId)
  through : state.1.dir.Through (Disk.Leaves (c.Stands (max high state.2) low))

namespace Writing

variable {c : Committed} {high low : Nat} {recorded : Option Bytes}

theorem start {s : Store} (h : Sure s) {i : Nat} {chart : Chart}
    (hsurvives : Survives (c.Stands high i) s chart)
    (hindexes : s.Indexes (Minicask.recorded chart s.writer.fileId)) :
    Writing c high i s.dir.disk.appliedIndex (afresh s, i) := by
  have hsteady : Steady s.dir.disk.appliedIndex (afresh s) := h.beside _
  have hafresh : Survives (c.Stands (max high i) i) (afresh s) chart := by
    refine ⟨hsurvives.charted.congr rfl rfl rfl rfl hsurvives.charted.known, ?_⟩
    intro kept hkept
    exact (hsurvives.starts kept hkept).mono (Nat.le_refl i)
      (Nat.le_max_left high i) (Nat.le_max_left i _)
  refine ⟨hsteady, Nat.le_refl i, ⟨chart, hafresh, hsurvives.whole,
    hindexes.flagged rfl rfl rfl rfl⟩, hafresh.leaves hsteady.sure.1.ok, ?_⟩
  exact fun _ hpast => absurd hpast List.not_mem_nil

/-- What stands at an index may be left from any index before it. -/
theorem left_of_stands {i : Nat} (hreached : low <= i) {m : Contents}
    (h : c.Stands high i m) : c.Stands (max high i) low m :=
  h.mono hreached (Nat.le_max_left high i)
    (Nat.le_trans (Nat.le_max_right high i) (Nat.le_max_right low _))

theorem applyEntry (hshort : c.Short) {env : Env} {s : Store} {i j : Nat}
    (h : Writing c high low recorded (s, i)) (hj : j <= i + 1)
    {state : Store × Nat}
    (happly : Replicated.applyEntry env (s, i) (c.entry j) = Except.ok state) :
    Writing c high low recorded state ∧ state.2 = max i j := by
  rcases applyEntry_cases hshort happly with ⟨hold, rfl⟩ | ⟨hnew, hindex, hdone⟩
  · exact ⟨h, (Nat.max_eq_left hold).symm⟩
  · refine ⟨?_, by rw [hindex, Nat.max_eq_right (Nat.le_of_lt hnew)]⟩
    have hnext : j = i + 1 := Nat.le_antisymm hj hnew
    subst hnext
    rcases state with ⟨s', i'⟩
    subst hindex
    rcases h with ⟨hsteady, hreached, ⟨chart, hsurvives, hstands, hindexes⟩,
      hthrough⟩
    dsimp only at *
    have hok := hsteady.sure.1.ok
    have hwider : forall m, c.Stands (max high i) low m ->
        c.Stands (max high (i + 1)) low m :=
      fun m hm => hm.mono (Nat.le_refl low) (by omega) (by omega)
    have hsurvives' := hsurvives.mono hwider
    have hthrough' := hthrough.mono (fun disk hdisk => hdisk.mono hwider)
    have hlater := hstands.next
    have hlow : low <= i + 1 := Nat.le_succ_of_le hreached
    rcases hdone with ⟨hnone, rfl⟩ | ⟨op, hop, hran⟩
    · rw [hnone] at hlater
      exact ⟨hsteady, hlow, ⟨chart, hsurvives', hlater, hindexes⟩, hthrough'⟩
    · rw [hop] at hlater
      change c.Stands high (i + 1) (act _ op.write) at hlater
      rcases hran.spec hok hindexes with
        ⟨hafter, rfl | ⟨r, hwrite, hwrote, _, _, _, hdir⟩⟩
      · rw [← indexes_unique hok hindexes hafter] at hlater
        exact ⟨hsteady, hlow, ⟨chart, hsurvives', hlater, hindexes⟩, hthrough'⟩
      · rw [← hwrite] at hlater hafter
        rcases hsurvives.charted.wrote hok hwrote with ⟨_, hrecorded⟩
        have hmap := left_of_stands hlow hlater
        refine ⟨(written_steady recorded).ran hsteady hran, hlow,
          ⟨chart.extend s'.writer.fileId [r], hsurvives'.wrote hok hwrote hmap,
            ?_, ?_⟩, hsurvives'.through_wrote hok hwrote hmap hthrough' hdir⟩
        · rw [hrecorded]
          exact hlater
        · rw [hrecorded]
          exact hafter

theorem batch (hshort : c.Short) {env : Env} (count : Nat) {first : Nat}
    {s s' : Store} {i i' : Nat} (h : Writing c high low recorded (s, i))
    (hfirst : first <= i + 1)
    (hloop : ((List.range' first count).map c.entry).foldlM
      (Replicated.applyEntry env) (s, i) = Except.ok (s', i')) :
    Writing c high low recorded (s', i') := by
  induction count generalizing first s i with
  | zero =>
      cases hloop
      exact h
  | succ count ih =>
      rw [List.range'_succ, List.map_cons] at hloop
      rcases Fallible.foldlM_cons_eq_ok hloop with ⟨⟨s₁, i₁⟩, happly, hrest⟩
      rcases h.applyEntry hshort hfirst happly with ⟨hnext, hi⟩
      dsimp only at hi
      exact ih hnext (by omega) hrest

theorem left {s : Store} {i : Nat} (h : Writing c high low recorded (s, i))
    {incoming : Nat} {disk : Disk}
    (hdisk : disk ∈ (s.rollIfNeeded incoming).dir.states) :
    disk.Leaves (c.Stands (max high i) low) ∧ disk.appliedIndex = recorded := by
  rcases h.survives with ⟨chart, hsurvives, _⟩
  have halive := h.steady.sure.1
  have hthrough := hsurvives.through_rolled halive.ok h.through incoming
  have hready := (halive.guarded_rollIfNeeded h.steady.ready incoming).through
  exact ⟨Dir.through_iff.mp hthrough disk hdisk,
    (Dir.through_iff.mp hready disk hdisk).appliedIndex⟩

theorem written {s : Store} {i : Nat} (h : Writing c high low recorded (s, i))
    {disk : Disk} (hdisk : disk ∈ (writeApplied s.sync i).dir.states) :
    (disk.Leaves (c.Stands (max high i) low) ∧ disk.appliedIndex = recorded) ∨
      disk.Leaves (c.Stands (max high i) i) ∧
        disk.appliedIndex = some (encodeApplied i) := by
  rcases h.survives with ⟨chart, hsurvives, hstands, _⟩
  have halive := h.steady.sure.1
  have hok := halive.ok
  have hsync := Store.advanced_sync hok
  rcases List.mem_cons.mp hdisk with hlast | hbefore
  · right
    have hmap : c.Stands (max high i) i
        (Minicask.recorded chart s.sync.writer.fileId) := by
      rw [hsync.appended.fileId]
      exact left_of_stands (Nat.le_refl i) hstands
    have hsynced : Survives (c.Stands (max high i) i) s.sync chart :=
      Survives.of_synced (hsurvives.sync hok).charted (hsync.ok hok)
        (Store.synced_sync hok) hmap
    rw [hlast]
    exact ⟨(hsynced.leaves (hsync.ok hok)).congr rfl rfl, rfl⟩
  · left
    have hthrough := hsurvives.through_sync hok h.through
    exact ⟨Dir.through_iff.mp hthrough disk hbefore,
      (Dir.through_iff.mp h.steady.sync.ready disk hbefore).appliedIndex⟩

end Writing

/-- Files beside an index that is no further than they are. -/
theorem fallen_of_leaves {c : Committed} {high index : Nat}
    {disk disk' : Disk} {storage : MemStorage}
    (hleaves : disk.Leaves (c.Stands high index))
    (hrecorded : readApplied { disk := disk } = index) (hle : index <= high)
    (hkilled : disk.Killed disk')
    (hsnapshot : exists m, c.Stands high storage.snapshotMeta.index m ∧
      Encodes storage.snapshot m) : Fallen c high disk' storage := by
  have hsame : readApplied { disk := disk' } = index :=
    (readApplied_congr hkilled.appliedIndex).trans hrecorded
  refine ⟨⟨disk, hkilled, ?_⟩, ?_, hsnapshot⟩
  · rw [hsame]
    exact hleaves
  · rw [hsame]
    exact hle

theorem Lasting.fallen {c : Committed} {high applied : Nat} {s : Store}
    (h : Lasting c high Out.idle applied s)
    (hstands : exists m, c.Stands high applied m ∧ s.Indexes m) {disk : Disk}
    (hkilled : s.dir.disk.Killed disk) {storage : MemStorage}
    (hsnapshot : exists m, c.Stands high storage.snapshotMeta.index m ∧
      Encodes storage.snapshot m) :
    Fallen c (max high applied) disk storage := by
  rcases hstands with ⟨m, hm, hindexes⟩
  rcases h.survives hm hindexes with ⟨chart, hsurvives, _⟩
  refine fallen_of_leaves ?_ ?_ (Nat.le_max_right high applied) hkilled ?_
  · exact (hsurvives.leaves h.sturdy.1.ok).mono
      (fun _ => Writing.left_of_stands (Nat.le_refl applied))
  · exact h.recorded
  · rcases hsnapshot with ⟨snapshot, hsnapshot, hencodes⟩
    exact ⟨snapshot, hsnapshot.mono (Nat.le_refl _) (Nat.le_max_left _ _)
      (Nat.le_max_left _ _), hencodes⟩

theorem Enduring.fallen {c : Committed} {high : Nat} {s : System}
    (h : Enduring c high s) (hquiet : Quiet s.replica) {disk : Disk}
    (hkilled : s.replica.store.dir.disk.Killed disk) :
    Fallen c (max high s.replica.applied) disk s.replica.node.storage := by
  have hlasting := h.lasting
  rw [hlasting.sturdy.idle hquiet.1 hquiet.2] at hlasting
  exact hlasting.fallen h.inv.good.stands hkilled h.inv.good.snapshot

theorem handed_prefix {c : Committed} {first count : Nat}
    {done left : List Entry}
    (h : (List.range' first count).map c.entry = done ++ left) :
    exists k, done = (List.range' first k).map c.entry := by
  rcases List.map_eq_append_iff.mp h with ⟨js, rest, hjs, rfl, _⟩
  rcases List.range'_eq_append_iff.mp hjs with ⟨k, _, rfl, _⟩
  exact ⟨k, rfl⟩

/-- A crash at any point of applying a batch. -/
theorem fallen_of_applying {c : Committed} (hshort : c.Short) {high : Nat}
    {env : Env} {r : ReplicatedStore} (hgood : Good c high r)
    (hlasting : Lasting c high Out.idle r.applied r.store)
    (hagrees : Agrees c r.node) (hlevel : r.snapshotIndex <= r.applied)
    {applied : Nat} {disk disk' : Disk} {storage : MemStorage}
    (hcut : Applying env r applied disk storage) (hindex : applied < 2 ^ 64)
    (hkilled : disk.Killed disk') : Fallen c (max high applied) disk' storage := by
  rcases hgood.stands with ⟨m, hstands, hindexes⟩
  rcases hlasting.survives hstands hindexes with
    ⟨chart, hsurvives, hrecorded⟩
  have hcommitted := takeCommitted_eq hagrees hgood.level.1
  have hfirst : r.node.lastApplied + 1 <= r.applied + 1 := by
    have hreached := hgood.level.2
    omega
  have hwriting : Writing c high r.applied r.store.dir.disk.appliedIndex
      (afresh r.store, r.applied) :=
    Writing.start hlasting.sturdy hsurvives hrecorded
  have hsnapshot : exists m, c.Stands (max high applied)
      r.node.storage.snapshotMeta.index m ∧ Encodes r.node.storage.snapshot m := by
    rcases hgood.snapshot with ⟨snapshot, hsnapshot, hencodes⟩
    exact ⟨snapshot, hsnapshot.mono (Nat.le_refl _) (Nat.le_max_left _ _)
      (Nat.le_max_left _ _), hencodes⟩
  cases hcut with
  | @writing done left store _ _ _ hhanded hloop hdisk =>
      rw [hcommitted] at hhanded
      rcases handed_prefix hhanded with ⟨k, rfl⟩
      have hdone := hwriting.batch hshort k hfirst hloop
      rcases hdone.left hdisk with ⟨hleaves, hrecorded⟩
      exact fallen_of_leaves hleaves
        ((readApplied_congr hrecorded).trans hlasting.recorded)
        (Nat.le_trans hdone.reached (Nat.le_max_right _ _)) hkilled hsnapshot
  | @recording store _ _ hloop hnew hdisk =>
      rw [hcommitted] at hloop
      have hdone := hwriting.batch hshort _ hfirst hloop
      rcases hdone.written hdisk with
        ⟨hleaves, hrecorded⟩ | ⟨hleaves, hrecorded⟩
      · exact fallen_of_leaves hleaves
          ((readApplied_congr hrecorded).trans hlasting.recorded)
          (Nat.le_trans hdone.reached (Nat.le_max_right _ _)) hkilled hsnapshot
      · have hread : readApplied { disk := disk } = applied := by
          rw [← readApplied_writeApplied store hindex]
          exact readApplied_congr hrecorded
        exact fallen_of_leaves hleaves hread (Nat.le_max_right _ _) hkilled
          hsnapshot
  | @installed store _ job started sink hloop hstart hrun =>
      rcases applied_spec env hshort hgood hagrees hlevel with
        ⟨store', applied', hloop', hbatched, _⟩
      have hpair := Except.ok.inj (hloop.symm.trans hloop')
      cases hpair
      change Good c high (r.batched store applied) at hbatched
      rw [hcommitted] at hloop
      have hlast : Lasting c high Out.idle (r.batched store applied).applied
          (r.batched store applied).store :=
        hlasting.batch hshort hloop hindex
      have hstarted := hlast.startSnapshot
      rw [hstart] at hstarted
      rcases startSnapshot_spec hbatched with
        hnone | ⟨job', _, hstart', _, _, hjob, hgood'⟩
      · rw [hstart] at hnone
        cases hnone
      · have hsame := hstart.symm.trans hstart'
        cases hsame
        rcases hjob.run with ⟨sink', hrun', hencodes, _⟩
        have hsink := Except.ok.inj (hrun'.symm.trans hrun)
        subst hsink
        refine hstarted.fallen hgood'.stands hkilled ?_
        rcases finishCompaction_cases
            (r.batched store applied).node sink' with
          ⟨hkept, _⟩ | ⟨node, hnew, _, hbase, hdata, _⟩
        · rw [show (Node.finishCompaction _ sink').1 = _ from
            congrArg Prod.fst hkept]
          exact hgood'.snapshot
        · rw [show (Node.finishCompaction _ sink').1 = _ from
            congrArg Prod.fst hnew, MemStorage.snapshotMeta, hbase, hdata]
          exact hencodes

theorem Levelled.reached {env : Env} {r r' : ReplicatedStore}
    (h : Levelled env r r') : r.applied <= r'.applied := by
  cases h with
  | same _ => exact Nat.le_refl _
  | restored hahead _ hrestore =>
      rcases ReplicatedStore.restore_eq_ok hrestore with ⟨_, _, _, _, rfl⟩
      exact Nat.le_of_lt hahead

theorem Applying.reached {c : Committed} (hshort : c.Short) {env : Env}
    {r : ReplicatedStore} {count first : Nat}
    (hcommitted : r.node.takeCommitted.2 =
      (List.range' first count).map c.entry) {applied : Nat} {disk : Disk}
    {storage : MemStorage} (h : Applying env r applied disk storage) :
    r.applied <= applied := by
  have hmoved : forall {js : List Nat} {s s' : Store},
      (js.map c.entry).foldlM (applyEntry env) (s, r.applied) =
        Except.ok (s', applied) -> r.applied <= applied := by
    intro js s s' hloop
    rcases batch_moves hshort hloop with hsame | hmore
    · exact Nat.le_of_eq (congrArg Prod.snd hsame).symm
    · exact Nat.le_of_lt hmore
  cases h with
  | writing hhanded hloop _ =>
      rw [hcommitted] at hhanded
      rcases handed_prefix hhanded with ⟨k, rfl⟩
      exact hmoved hloop
  | recording _ hnew _ => exact Nat.le_of_lt hnew
  | installed hloop _ _ =>
      rw [hcommitted] at hloop
      exact hmoved hloop

/-- A replica in order, wherever in applying it is stopped. -/
theorem Enduring.interrupted {c : Committed} (hshort : c.Short) {high : Nat}
    {s s' : System} (h : Enduring c high s) {e : Event}
    (hpromised : Promised c s.replica e) {env : Env}
    (happlies : e.applies s = some (env, s')) {level : ReplicatedStore}
    (hlevel : Levelled env s'.replica level) (hquiet : Quiet level)
    {applied : Nat} {disk disk' : Disk} {storage : MemStorage}
    (hcut : Applying env level applied disk storage)
    (hindex : applied < 2 ^ 64) (hkilled : disk.Killed disk') :
    Fallen c (max high applied) disk' storage := by
  rcases h.inv.applies hpromised happlies with ⟨hinv, hagrees⟩
  rcases hlevel.good hinv.good with ⟨hgood, hreached, hnode⟩
  rw [← hnode] at hagrees
  have hbefore : level.applied < 2 ^ 64 :=
    Nat.lt_of_le_of_lt
      (hcut.reached hshort (takeCommitted_eq hagrees hgood.level.1)) hindex
  have hbegun := (h.applies hpromised happlies
    (Nat.lt_of_le_of_lt hlevel.reached hbefore)).1
  have hlasting := hbegun.lasting.levelled hinv.good hlevel hbefore
  rw [hlasting.sturdy.idle hquiet.1 hquiet.2] at hlasting
  exact fallen_of_applying hshort hgood hlasting hagrees hreached hcut hindex
    hkilled

/-- The index is a part of it that can be done without. -/
theorem Fallen.damaged {c : Committed} {high : Nat} {disk : Disk}
    {storage : MemStorage} (h : Fallen c high disk storage)
    {bytes : Option Bytes}
    (hnone : readApplied { disk := { disk with appliedIndex := bytes } } = 0) :
    Fallen c high { disk with appliedIndex := bytes } storage := by
  rcases h.left with ⟨whole, hkilled, hleaves⟩
  have hbeside : ({ whole with appliedIndex := bytes } : Disk).Leaves
      (c.Stands high (readApplied { disk := disk })) :=
    hleaves.congr rfl rfl
  refine ⟨⟨{ whole with appliedIndex := bytes }, ⟨hkilled.kept, hkilled.linked,
    hkilled.synced, hkilled.hints, rfl⟩, hbeside.mono ?_⟩, ?_, h.snapshot⟩
  · rw [hnone]
    intro m hm
    exact hm.mono (Nat.zero_le _) (Nat.le_refl high)
      (Nat.le_trans h.recorded (Nat.le_max_right 0 high))
  · rw [hnone]
    exact Nat.zero_le high

/-!
# Restarts
-/

/-- A store opens on what a crash left, and each key is as the log has it at the
recorded index or at some later one. -/
theorem Fallen.opens {c : Committed} {high : Nat} {disk : Disk}
    {storage : MemStorage} (h : Fallen c high disk storage) (opts : Options) :
    exists store m, Store.openWith { disk := disk } opts = Except.ok store ∧
      c.Stands high (readApplied { disk := disk }) m ∧ Takes store m ∧
      store.compacting = false ∧
      Lasting c high Out.idle (readApplied { disk := disk }) store := by
  rcases h.left with ⟨whole, hkilled, hleaves⟩
  rcases hleaves.opens hkilled opts with
    ⟨store, chart, hopen, halive, hopened, hsurvives, hstands⟩
  exact ⟨store, _, hopen, hstands, ⟨hopened.ok, hopened.indexes,
    hopened.restoring⟩, hopened.compacting, ⟨halive, hopened.replayed⟩,
    hopened.pending, readApplied_congr hopened.appliedIndex,
    Or.inr ⟨rfl, chart, hsurvives, hopened.indexes⟩⟩

def joined (node : Node) (store : Store) : ReplicatedStore where
  node := node
  store := store
  applied := readApplied store.dir
  snapshotEvery := defaultSnapshotEvery
  backgroundSnapshots := false
  snapshotting := false
  compactionDue := false
  restoring := false

theorem new_eq (node : Node) (store : Store) (env : Env) :
    ReplicatedStore.new node store env =
      if (joined node store).applied < (joined node store).snapshotIndex then
        (joined node store).restore env
      else Except.ok (joined node store) := rfl

theorem new_cases {node : Node} {store : Store} {env : Env}
    {r : ReplicatedStore}
    (h : ReplicatedStore.new node store env = Except.ok r) :
    Levelled env (joined node store) r := by
  rw [new_eq] at h
  split at h
  · next hahead => exact Levelled.restored hahead rfl h
  · next hnot =>
      cases h
      exact Levelled.same (Nat.le_of_not_lt hnot)

theorem new_succeeds {c : Committed} {high : Nat} {node : Node} {store : Store}
    (h : Good c high (joined node store)) (env : Env) :
    exists r, ReplicatedStore.new node store env = Except.ok r := by
  rw [new_eq]
  split
  · next hahead =>
      rcases restored_spec env h hahead rfl with ⟨_, hrestore, _⟩
      exact ⟨_, hrestore⟩
  · exact ⟨_, rfl⟩

theorem lastApplied_withMembers (id : NodeId) (bootstrap : List Member)
    (config : Config) (storage : MemStorage) :
    (Node.withMembers id bootstrap config storage).lastApplied =
      storage.snapshotMeta.index := by
  unfold Node.withMembers
  exact lastApplied_reloadMembership _

/-- What is left of a replica is good once it is joined again. -/
theorem Fallen.joins {c : Committed} {high : Nat} {disk : Disk}
    {storage : MemStorage} (h : Fallen c high disk storage) {opts : Options}
    {store : Store}
    (hopen : Store.openWith { disk := disk } opts = Except.ok store)
    (id : NodeId) (bootstrap : List Member) (config : Config) :
    Good c high (joined (Node.withMembers id bootstrap config storage) store) ∧
      Lasting c high Out.idle (readApplied store.dir) store := by
  rcases h.opens opts with
    ⟨store', m, hopen', hstands, htakes, hcompacting, hlasting⟩
  rw [hopen] at hopen'
  cases hopen'
  have happlied := hlasting.recorded
  have hstorage := withMembers_storage id bootstrap config storage
  have hindex : (joined (Node.withMembers id bootstrap config storage)
      store).snapshotIndex = storage.snapshotMeta.index := by
    show (Node.withMembers id bootstrap config storage).storage.snapshotMeta.index
      = _
    rw [hstorage]
  rw [← happlied] at hstands hlasting
  refine ⟨⟨htakes.ok, ⟨m, hstands, htakes.indexes⟩, ?_, ?_, htakes.restoring,
    nofun, fun _ => ⟨rfl, hcompacting, rfl⟩⟩, hlasting⟩
  · rw [hindex]
    show _ <= (Node.withMembers id bootstrap config storage).lastApplied ∧
      (Node.withMembers id bootstrap config storage).lastApplied <= max _ _
    rw [lastApplied_withMembers]
    exact ⟨Nat.le_refl _, Nat.le_max_right _ _⟩
  · rw [hindex]
    show exists m, _ ∧ Encodes
      (Node.withMembers id bootstrap config storage).storage.snapshot m
    rw [hstorage]
    exact h.snapshot

theorem enduring_of_joined {c : Committed} {high : Nat} {node : Node}
    {store : Store} (hgood : Good c high (joined node store))
    (hlasting : Lasting c high Out.idle (readApplied store.dir) store)
    {env : Env} {r : ReplicatedStore}
    (hnew : ReplicatedStore.new node store env = Except.ok r)
    (hindex : r.applied < 2 ^ 64) (snapshotEvery : Nat) (background : Bool) :
    Enduring c high
      { replica := { r with
          snapshotEvery := snapshotEvery
          backgroundSnapshots := background }
        snapshot := Work.idle
        compaction := Work.idle
        restore := Work.idle } := by
  have hlevel := new_cases hnew
  have hbegun : Lasting c high Out.idle (joined node store).applied
      (joined node store).store := hlasting
  have hlast := hbegun.levelled hgood hlevel hindex
  have hgood' := (hlevel.good hgood).1
  have hinline : r.backgroundSnapshots = false := by
    cases hlevel with
    | same _ => rfl
    | restored hahead hinline hrestore =>
        rcases restored_spec env hgood hahead hinline with ⟨_, hrestore', _⟩
        rw [hrestore'] at hrestore
        cases hrestore
        rfl
  rcases hgood'.inline hinline with ⟨hrestoring, hcompacting, hdue⟩
  exact ⟨⟨⟨hgood'.ok, hgood'.stands, hgood'.level, hgood'.snapshot,
    hgood'.restoring, hgood'.waiting, fun _ => ⟨hrestoring, hcompacting, hdue⟩⟩,
    trivial, trivial, trivial⟩, hlast⟩

/-!
# Whole runs
-/

def Stage.Sound (c : Committed) (high : Nat) : Stage -> Prop
  | Stage.up s => Enduring c high s
  | Stage.down disk storage => Fallen c high disk storage

theorem enduring_new (c : Committed) {opts : Options} {store : Store}
    (hopen : Store.openWith {} opts = Except.ok store) {id : NodeId}
    {bootstrap : List Member} {config : Config} {env : Env}
    {r : ReplicatedStore}
    (hnew : ReplicatedStore.new (Node.withMembers id bootstrap config {}) store
      env = Except.ok r) (snapshotEvery : Nat) (background : Bool) :
    Enduring c 0
      { replica := { r with
          snapshotEvery := snapshotEvery
          backgroundSnapshots := background }
        snapshot := Work.idle
        compaction := Work.idle
        restore := Work.idle } := by
  have hgood := good_new c 0 hopen rfl rfl rfl hnew snapshotEvery background
  refine ⟨⟨hgood, trivial, trivial, trivial⟩, ?_⟩
  have halive : Alive store Out.idle := Disk.Sound.new.opened hopen
  have hreplayed : Replayed store := Disk.Sound.new.replayed hopen
  have hempty : store.writer.offset = 0 := by
    rw [openWith_nothing] at hopen
    cases hopen
    rfl
  cases new_cases hnew with
  | same _ =>
      exact Lasting.of_durable ⟨halive, hreplayed⟩ rfl
        (durable_of_empty halive.ok hempty)
  | restored hahead _ _ => exact absurd hahead (Nat.not_lt_zero _)

/-- In every run with crashes, a replica that runs is in order, and one that does
not has left files and a snapshot to begin again from. -/
theorem CrashRun.sound {c : Committed} (hshort : c.Short) {high : Nat}
    {stage : Stage} (h : CrashRun c high stage) : stage.Sound c high := by
  induction h with
  | start opts id bootstrap config env snapshotEvery background hopen hnew =>
      exact enduring_new c hopen hnew snapshotEvery background
  | next e _ hpromised hnext hindex ih =>
      exact Enduring.next hshort ih hpromised hnext hindex
  | stopped _ hquiet hkilled ih => exact Enduring.fallen ih hquiet hkilled
  | caught _ hpromised happlies hquiet hindex hkilled ih =>
      have hbegun := (Enduring.applies ih hpromised happlies hindex).1
      exact hbegun.fallen hquiet hkilled
  | interrupted _ hpromised happlies hlevel hquiet hcut hindex hkilled ih =>
      exact Enduring.interrupted hshort ih hpromised happlies hlevel hquiet hcut
        hindex hkilled
  | damaged _ hnone ih => exact Fallen.damaged ih hnone
  | restarted _ opts id bootstrap config env snapshotEvery background hopen hnew
      hindex ih =>
      have hfallen : Fallen c _ _ _ := ih
      rcases hfallen.joins hopen id bootstrap config with ⟨hgood, hlasting⟩
      exact enduring_of_joined hgood hlasting hnew hindex snapshotEvery background

/-- However often and wherever a replica crashes: every key is found as the log has
it at the recorded index or at a later one that was applied, so that no write up to
that index is lost; the replica starts again; and once it has applied as much as it
ever had, it is the fold of the log. -/
theorem replica_recovers {c : Committed} (hshort : c.Short) {high : Nat}
    {stage : Stage} (hrun : CrashRun c high stage) :
    match stage with
    | Stage.down disk storage =>
        readApplied { disk := disk } <= high ∧
        forall opts, exists store,
          Store.openWith { disk := disk } opts = Except.ok store ∧
          (forall k, exists i, readApplied { disk := disk } <= i ∧ i <= high ∧
            store.get k = Except.ok (c.contents i k)) ∧
          forall id bootstrap config env, exists r,
            ReplicatedStore.new (Node.withMembers id bootstrap config storage)
              store env = Except.ok r
    | Stage.up s =>
        (forall k, exists i, s.replica.applied <= i ∧
          i <= max s.replica.applied high ∧
          s.replica.get k = Except.ok (c.contents i k)) ∧
        (high <= s.replica.applied ->
          (forall k, s.replica.get k =
            Except.ok (c.contents s.replica.applied k)) ∧
          forall k, k ∈ s.replica.store.keys ↔
            (c.contents s.replica.applied k).isSome) ∧
        forall e, Promised c s.replica e ->
          exists s', s.next e = Except.ok s' := by
  have h := hrun.sound hshort
  cases stage with
  | down disk storage =>
      have hfallen : Fallen c high disk storage := h
      refine ⟨hfallen.recorded, ?_⟩
      intro opts
      rcases hfallen.opens opts with ⟨store, m, hopen, hstands, htakes, _⟩
      refine ⟨store, hopen, ?_, ?_⟩
      · intro k
        rcases hstands k with ⟨i, hleast, hmost, heq⟩
        rw [Nat.max_eq_right hfallen.recorded] at hmost
        refine ⟨i, hleast, hmost, ?_⟩
        rw [← heq]
        exact Store.get_eq htakes.ok htakes.indexes k
      · intro id bootstrap config env
        exact new_succeeds (hfallen.joins hopen id bootstrap config).1 env
  | up s =>
      have henduring : Enduring c high s := h
      have hgood := henduring.inv.good
      rcases hgood.stands with ⟨m, hstands, hindexes⟩
      refine ⟨?_, ?_, ?_⟩
      · intro k
        rcases hstands k with ⟨i, hleast, hmost, heq⟩
        refine ⟨i, hleast, hmost, ?_⟩
        rw [← heq]
        exact Store.get_eq hgood.ok hindexes k
      · intro hreached
        rw [hstands.exact hreached] at hindexes
        exact ⟨Store.get_eq hgood.ok hindexes, Store.mem_keys_iff hindexes⟩
      · intro e hpromised
        rcases henduring.inv.next hshort e hpromised with ⟨s', hnext, _⟩
        exact ⟨s', hnext⟩

/-!
# One command, after a crash

The follower crashes before it is sent the command, and is started again.
-/

theorem crashRun_fresh (c : Committed) :
    exists disk store, CrashRun c 0 (Stage.down disk {}) ∧
      Store.openWith { disk := disk } {} = Except.ok store ∧ store.Ok ∧
      store.compacting = false ∧ store.restoring = false ∧
      CrashRun c 0 (Stage.up
        { replica := freshReplica store
          snapshot := Work.idle
          compaction := Work.idle
          restore := Work.idle }) := by
  have hopen := openWith_nothing {}
  have hnew := new_freshReplica (readApplied_open hopen)
  have hstorage : freshNode.storage = {} := withMembers_storage 2 _ {} {}
  have hstopped := (CrashRun.start (c := c) {} 2 _ {} quietEnv
    defaultSnapshotEvery true hopen hnew).stopped ⟨rfl, rfl⟩ (killed_refl _)
  have henduring := enduring_new c hopen hnew defaultSnapshotEvery true
  have hfallen := henduring.fallen ⟨rfl, rfl⟩ (killed_refl _)
  have hdown : CrashRun c 0 (Stage.down (newStore {}).dir.disk {}) := by
    rw [← hstorage]
    exact hstopped
  rcases hfallen.opens {} with
    ⟨store, m, hopen', _, htakes, hcompacting, hlasting⟩
  exact ⟨_, store, hdown, hopen', htakes.ok, hcompacting, htakes.restoring,
    hdown.restarted {} 2 _ {} quietEnv defaultSnapshotEvery true hopen'
      (new_freshReplica hlasting.recorded) (show (0 : Nat) < 2 ^ 64 by decide)⟩

theorem crashRun_firstMessage {key value bytes : Bytes}
    (h : (Op.put key value).encode 0 = Except.ok bytes) :
    exists disk store store' node, CrashRun (onePut h) 0 (Stage.down disk {}) ∧
      Store.openWith { disk := disk } {} = Except.ok store ∧ store.Ok ∧
      store.compacting = false ∧ store.restoring = false ∧
      store.putDeferred key value 0 0 = Except.ok store' ∧
      node.storage.snapshotMeta.index = 0 ∧
      CrashRun (onePut h) 0 (Stage.up
        { replica := { freshReplica store with
            node := node
            store := writeApplied store'.sync 1
            applied := 1 }
          snapshot := Work.idle
          compaction := Work.idle
          restore := Work.idle }) := by
  rcases crashRun_fresh (onePut h) with
    ⟨disk, store, hdown, hopen, hok, hcompacting, hrestoring, hup⟩
  rcases putDeferred_encoded h hrestoring with ⟨store', hput⟩
  rcases next_firstMessage h hput with ⟨node, hsnapshot, hpromised, hnext⟩
  exact ⟨disk, store, store', node, hdown, hopen, hok, hcompacting, hrestoring,
    hput, hsnapshot, hup.next _ hpromised hnext
      (show (1 : Nat) < 2 ^ 64 by decide)⟩

/-- A follower that crashed before it was sent one put, and again after it. -/
theorem replica_recovers_follower :
    exists (c : Committed) (disk : Disk) (storage : MemStorage) (s : System),
      c.Short ∧ CrashRun c 1 (Stage.down disk storage) ∧
      readApplied { disk := disk } = 1 ∧ CrashRun c 1 (Stage.up s) ∧
      s.replica.applied = 1 ∧ s.replica.get [7] = Except.ok (some [8, 9]) := by
  have hencode : exists bytes,
      (Op.put [7] [8, 9]).encode 0 = Except.ok bytes := ⟨_, rfl⟩
  rcases hencode with ⟨bytes, hencode⟩
  have hlength : bytes.length < 2 ^ 32 := by
    rw [length_encode_put hencode]
    decide
  have hshort := short_onePut hencode hlength
  rcases crashRun_firstMessage hencode with
    ⟨_, store, store', node, _, _, hok, hcompacting, hrestoring, hput,
      hsnapshot, hup⟩
  rcases Store.wrote_of_putWith hok (show Fits [7] [8, 9] by unfold Fits; decide)
    hput with ⟨_, _, _, _, _, hwrote, _⟩
  have hdown := hup.stopped ⟨hwrote.compacting.trans hcompacting,
    hwrote.restoring.trans hrestoring⟩ (killed_refl _)
  rw [Nat.max_eq_right (Nat.zero_le _)] at hdown
  have hrecorded : readApplied (writeApplied store'.sync 1).dir = 1 :=
    readApplied_writeApplied _ (by decide)
  have hdisk : readApplied { disk := (writeApplied store'.sync 1).dir.disk } =
      1 := hrecorded
  rcases (replica_recovers hshort hdown).2 {} with ⟨opened, hopen, _, hjoins⟩
  rcases hjoins 2 [] {} quietEnv with ⟨r, hnew⟩
  have hfallen : Fallen _ _ _ _ := hdown.sound hshort
  have happlied : r.applied = 1 := by
    rcases hfallen.opens {} with ⟨opened', _, hopen', _, _, _, hlasting⟩
    have hsame := Except.ok.inj (hopen'.symm.trans hopen)
    subst hsame
    cases new_cases hnew with
    | same _ => exact hlasting.recorded.trans hrecorded
    | restored hahead _ _ =>
        have hindex : (joined (Node.withMembers 2 [] {} node.storage)
            opened').snapshotIndex = 0 := by
          show (Node.withMembers 2 [] {} node.storage).storage.snapshotMeta.index
            = 0
          rw [withMembers_storage]
          exact hsnapshot
        rw [hindex] at hahead
        exact absurd hahead (Nat.not_lt_zero _)
  have hagain := hdown.restarted {} 2 [] {} quietEnv 0 false hopen hnew
    (by rw [happlied]; decide)
  have hrecovers := replica_recovers hshort hagain
  refine ⟨onePut hencode, _, _, _, hshort, hdown, hdisk, hagain, happlied, ?_⟩
  rw [hrecovers.2.1 (Nat.le_of_eq happlied.symm) |>.1 [7]]
  show Except.ok ((onePut hencode).contents r.applied [7]) = _
  rw [happlied]
  rfl

/-- A put whose record takes exactly 2^32 bytes is applied after a restart, and
cannot be read. -/
theorem long_put_lost_to_recovery :
    exists (value : Bytes) (c : Committed) (disk : Disk) (s : System),
      value.length = 2 ^ 32 - 22 ∧ c.op 1 = some (Op.put [7] value) ∧
      CrashRun c 0 (Stage.down disk {}) ∧ CrashRun c 0 (Stage.up s) ∧
      s.replica.applied = 1 ∧
      s.replica.get [7] ≠ Except.ok (c.contents s.replica.applied [7]) := by
  have hvalue : exists value : Bytes, value.length = 2 ^ 32 - 22 :=
    ⟨List.replicate (2 ^ 32 - 22) 0, List.length_replicate⟩
  rcases hvalue with ⟨value, hvalue⟩
  rcases encode_long_put hvalue with ⟨bytes, hencode, hlength⟩
  rcases crashRun_firstMessage hencode with
    ⟨disk, store, store', node, hdown, _, hok, _, _, hput, _, hup⟩
  exact ⟨value, onePut hencode, disk, _, hvalue, rfl, hdown, hup, rfl,
    get_long_put hencode hlength hok hput 1 _⟩

end Replicated
end Minicask
