import Minicask.Raft.Frames
import Minicask.Replicated.Contents
import Minicask.Store.Interruptions

/-!
# Restarting after an interrupted restore

The applied index moves only once the store is the snapshot and all of it is synced.
So what a kill leaves before that is behind the snapshot, whatever mix of files it
is, and joining the node to the store that opens on it restores it again.
-/

namespace Minicask
namespace Replicated

open Raft Replay

/-!
# Snapshots of some pairs
-/

def encodePairs (pairs : List (Bytes × Bytes)) : Except Error Bytes :=
  pairs.foldlM (fun data pair =>
    (Minicask.encode pair.1 (some pair.2) 0).map (fun bytes => data ++ bytes)) []

/-- One record for each pair, in the order of the keys. -/
structure SnapshotOf (pairs : List (Bytes × Bytes)) (data : Bytes) : Prop where
  ascending : Ascending (pairs.map Prod.fst)
  data : encodePairs pairs = Except.ok data

theorem records_of_pairs {pairs : List (Bytes × Bytes)}
    (hfits : forall pair, pair ∈ pairs -> Fits pair.1 pair.2)
    {before data : Bytes}
    (h : pairs.foldlM (fun data pair =>
      (Minicask.encode pair.1 (some pair.2) 0).map
        (fun bytes => data ++ bytes)) before = Except.ok data) :
    exists rs : List Rec, data = before ++ Rec.join rs ∧
      rs.map Rec.write = pairs.map
        (fun pair => { key := pair.1, value := some pair.2 }) := by
  induction pairs generalizing before with
  | nil =>
      cases h
      exact ⟨[], (List.append_nil _).symm, rfl⟩
  | cons pair pairs ih =>
      have hkey : pair.1 ≠ [] := by
        intro hnil
        rw [List.foldlM_cons, hnil, encode_nil] at h
        cases h
      let r : Rec :=
        ⟨pair.1, some pair.2, 0, hkey, hfits pair List.mem_cons_self⟩
      have hencode : Minicask.encode pair.1 (some pair.2) 0 =
          Except.ok r.bytes := encode_rec r
      rw [List.foldlM_cons, hencode] at h
      rcases ih (fun other hin => hfits other (List.mem_cons_of_mem pair hin))
        h with ⟨rs, hdata, hwrites⟩
      refine ⟨r :: rs, ?_, ?_⟩
      · rw [hdata, Rec.join_cons, List.append_assoc]
      · rw [List.map_cons, List.map_cons, hwrites]
        rfl

theorem replay_pairs {pairs : List (Bytes × Bytes)}
    (hnodup : (pairs.map Prod.fst).Nodup) (m : Contents) (key : Bytes) :
    replay m (pairs.map
      (fun pair => { key := pair.1, value := some pair.2 })) key =
        (pairs.lookup key).or (m key) := by
  induction pairs generalizing m with
  | nil => rfl
  | cons pair pairs ih =>
      rw [List.map_cons, List.nodup_cons] at hnodup
      rw [List.map_cons, replay_cons, ih hnodup.2]
      by_cases heq : key = pair.1
      · have hnone : pairs.lookup key = none := by
          rw [List.lookup_eq_none_iff]
          intro other hin
          rw [bne_iff_ne, heq]
          intro hsame
          exact hnodup.1 (hsame ▸ List.mem_map_of_mem hin)
        rw [hnone, heq, List.lookup_cons_self]
        exact act_self m { key := pair.1, value := some pair.2 }
      · have hbeq : (key == pair.1) = false := beq_eq_false_iff_ne.mpr heq
        rw [List.lookup_cons, hbeq, act_of_ne _ _ heq]

theorem SnapshotOf.records {pairs : List (Bytes × Bytes)} {data : Bytes}
    (h : SnapshotOf pairs data)
    (hfits : forall pair, pair ∈ pairs -> Fits pair.1 pair.2) :
    exists rs : List Rec, data = Rec.join rs ∧
      rs.map Rec.write = pairs.map
        (fun pair => { key := pair.1, value := some pair.2 }) ∧
      rs.map Rec.key = pairs.map Prod.fst ∧ forall r, r ∈ rs -> r.value ≠ none := by
  rcases records_of_pairs hfits h.data with ⟨rs, hdata, hwrites⟩
  have hkeys : rs.map Rec.key = pairs.map Prod.fst := by
    have hmapped := congrArg (List.map Write.key) hwrites
    rw [List.map_map, List.map_map] at hmapped
    exact hmapped
  refine ⟨rs, hdata, hwrites, hkeys, ?_⟩
  intro r hr hnone
  have hwrite : r.write ∈ rs.map Rec.write := List.mem_map_of_mem hr
  rw [hwrites] at hwrite
  rcases List.mem_map.mp hwrite with ⟨pair, _, heq⟩
  have hvalue : some pair.2 = r.value := congrArg Write.value heq
  rw [hnone] at hvalue
  cases hvalue

theorem SnapshotOf.encodes {pairs : List (Bytes × Bytes)} {data : Bytes}
    (h : SnapshotOf pairs data)
    (hfits : forall pair, pair ∈ pairs -> Fits pair.1 pair.2) :
    Encodes data (fun key => pairs.lookup key) := by
  rcases h.records hfits with ⟨rs, hdata, hwrites, hkeys, hlive⟩
  refine ⟨rs, hdata, ?_, hlive, ?_⟩
  · rw [hkeys]
    exact h.ascending
  · funext key
    rw [hwrites, replay_pairs h.ascending.nodup]
    exact Option.or_none

/-!
# The applied index
-/

theorem readApplied_congr {dir dir' : Dir}
    (h : dir'.disk.appliedIndex = dir.disk.appliedIndex) :
    readApplied dir' = readApplied dir := by
  unfold readApplied
  rw [h]

theorem readApplied_writeApplied (store : Store) {index : Nat}
    (h : index < 2 ^ 64) :
    readApplied (writeApplied store index).dir = index := by
  have hcrc : (leBytes 4 (Crc.crc32Parts [leBytes 8 index]).toNat).length = 4 :=
    length_leBytes 4 _
  have hlength : (encodeApplied index).length = 12 := by
    unfold encodeApplied
    rw [List.length_append, length_leBytes, length_leBytes]
  have hbody : (encodeApplied index).drop 4 = leBytes 8 index := by
    unfold encodeApplied
    exact List.drop_left' hcrc
  have hindex : slice (encodeApplied index) 4 12 = leBytes 8 index := by
    rw [slice, hbody]
    exact List.take_of_length_le (Nat.le_of_eq (length_leBytes 8 _))
  have hsum : slice (encodeApplied index) 0 4 =
      leBytes 4 (Crc.crc32Parts [leBytes 8 index]).toNat := by
    rw [slice, List.drop_zero]
    unfold encodeApplied
    exact List.take_left' hcrc
  have hbefore : (Crc.crc32Parts [leBytes 8 index]).toNat < 256 ^ 4 :=
    UInt32.toNat_lt _
  have hwritten : (writeApplied store index).dir.disk.appliedIndex =
      some (encodeApplied index) := rfl
  unfold readApplied
  rw [hwritten]
  dsimp only
  rw [if_neg (by simp [hlength]), hbody, hsum, hindex,
    fromLe_leBytes_of_lt hbefore, UInt32.ofNat_toNat, if_neg (by simp),
    fromLe_leBytes_of_lt h]

theorem appliedIndex_close (store : Store) :
    store.close.disk.appliedIndex = store.dir.disk.appliedIndex := by
  unfold Store.close LogWriter.flush
  split
  · rfl
  · dsimp only [Dir.writeAll, Dir.modify]
    split
    · rfl
    · rfl

/-!
# Bringing a store up to a snapshot
-/

/-- A store that any history may have come to, with some applied index beside it. -/
def beside (s : Store) (applied : Option Bytes) : Store :=
  { s with dir := { disk := { s.dir.disk with appliedIndex := applied } } }

/-- A replica whose node holds a snapshot that its store has not got to. -/
structure Behind (pairs : List (Bytes × Bytes)) (r : ReplicatedStore) :
    Prop where
  store : exists s applied, History Fits (Life.up s Out.idle) ∧
    r.store = beside s applied
  written : readApplied r.store.dir <= r.applied
  behind : r.applied < r.snapshotIndex
  index : r.snapshotIndex < 2 ^ 64
  snapshot : SnapshotOf pairs r.node.storage.snapshot
  fits : forall pair, pair ∈ pairs -> Fits pair.1 pair.2

def withDir (r : ReplicatedStore) (dir : Dir) : ReplicatedStore :=
  { r with store := { r.store with dir := dir } }

def installed (r : ReplicatedStore) (done : RestoredStore) : ReplicatedStore :=
  { r with
    restoring := false
    store := writeApplied (r.store.finishRestore done.file).sync done.index
    applied := done.index }

theorem finishRestore_eq (r : ReplicatedStore) (env : Env)
    (done : RestoredStore) :
    r.finishRestore env done = (installed r done).apply env := rfl

/-- What a kill leaves at any point of a restore, inline or in the background: of
any state that the files are in until the new index has been written. -/
inductive Interrupted (r : ReplicatedStore) : Disk -> Prop where
  | inline {env : Env} {done : ReplicatedStore} {disk disk' : Disk}
      (hrestore : r.restore env = Except.ok done)
      (hdisk : disk ∈ done.store.dir.states) (hkilled : disk.Killed disk') :
      Interrupted r disk'
  | started {job : RestoreJob} {r' : ReplicatedStore} {disk disk' : Disk}
      (hstart : r.startRestore = (some job, r'))
      (hdisk : disk ∈ r'.store.dir.states) (hkilled : disk.Killed disk') :
      Interrupted r disk'
  | written {job : RestoreJob} {r' : ReplicatedStore} {done : RestoredStore}
      {dir : Dir} {disk disk' : Disk}
      (hstart : r.startRestore = (some job, r'))
      (hrun : job.run r'.store.dir = Except.ok (done, dir))
      (hdisk : disk ∈ dir.states) (hkilled : disk.Killed disk') :
      Interrupted r disk'
  | installed {job : RestoreJob} {r' : ReplicatedStore} {done : RestoredStore}
      {dir : Dir} {disk disk' : Disk}
      (hstart : r.startRestore = (some job, r'))
      (hrun : job.run r'.store.dir = Except.ok (done, dir))
      (hdisk : disk ∈ (installed (withDir r' dir) done).store.dir.states)
      (hkilled : disk.Killed disk') : Interrupted r disk'

/-!
# What a restore writes
-/

/-- One record of a snapshot is some deletes, and a put unless it is there. -/
theorem restoreRecord_cases {env : Env} {s : Store} {held : List Bytes}
    {key value : Bytes} {state : Store × List Bytes}
    (h : restoreRecord env (s, held) key value = Except.ok state) :
    exists s', (held.takeWhile (· < key)).foldlM
        (fun (store : Store) stale =>
          (store.deleteDeferred stale (env.clock store).1
            (env.clock store).2).map Prod.fst) s = Except.ok s' ∧
      ((s'.get key = Except.ok (some value) ∧ state.1 = s') ∨
        exists now later, s'.putDeferred key value now later =
          Except.ok state.1) := by
  unfold restoreRecord at h
  dsimp only at h
  rcases Fallible.bind_eq_ok h with ⟨s', hdeletes, h⟩
  rcases Fallible.bind_eq_ok h with ⟨found, hget, h⟩
  exists s'
  constructor
  · exact hdeletes
  · split at h
    · rcases Fallible.map_eq_ok h with ⟨s'', hput, rfl⟩
      exact Or.inr ⟨_, _, hput⟩
    · next hsame =>
        cases h
        rw [not_not] at hsame
        rw [hsame] at hget
        exact Or.inl ⟨hget, rfl⟩

theorem deleteAll_keeps {P : Store -> Prop}
    (hP : forall {s s' : Store} {key : Bytes} {now later : UInt64} {was : Bool},
      P s -> s.deleteDeferred key now later = Except.ok (s', was) -> P s')
    (env : Env) {stale : List Bytes} {s s' : Store} (h : P s)
    (hloop : stale.foldlM (fun (store : Store) stale =>
      (store.deleteDeferred stale (env.clock store).1
        (env.clock store).2).map Prod.fst) s = Except.ok s') : P s' := by
  apply Fallible.foldlM_keeps _ h hloop
  intro key _ s s' hs hdelete
  rcases Fallible.map_eq_ok hdelete with ⟨done, hdone, rfl⟩
  exact hP hs hdone

/-- A property of stores that deferred writes of records keep. -/
structure Written (P : Store -> Prop) : Prop where
  put : forall {s s' : Store} {key value : Bytes} {now later : UInt64}, P s ->
    Fits key value -> s.putDeferred key value now later = Except.ok s' -> P s'
  delete : forall {s s' : Store} {key : Bytes} {now later : UInt64} {was : Bool},
    P s -> s.deleteDeferred key now later = Except.ok (s', was) -> P s'

namespace Written

variable {P : Store -> Prop}

theorem deleteAll (hP : Written P) (env : Env) {stale : List Bytes}
    {s s' : Store} (h : P s)
    (hloop : stale.foldlM (fun (store : Store) stale =>
      (store.deleteDeferred stale (env.clock store).1
        (env.clock store).2).map Prod.fst) s = Except.ok s') : P s' :=
  deleteAll_keeps hP.delete env h hloop

theorem restoreRecord (hP : Written P) (env : Env) {s : Store} (h : P s)
    {held : List Bytes} {key value : Bytes} (hfits : Fits key value)
    {state : Store × List Bytes}
    (hrecord : Replicated.restoreRecord env (s, held) key value =
      Except.ok state) : P state.1 := by
  rcases restoreRecord_cases hrecord with
    ⟨s', hdeletes, ⟨_, hsame⟩ | ⟨now, later, hput⟩⟩
  · rw [hsame]
    exact hP.deleteAll env h hdeletes
  · exact hP.put (hP.deleteAll env h hdeletes) hfits hput

theorem records (hP : Written P) (env : Env) {rs : List Rec}
    {state state' : Store × List Bytes} (h : P state.1)
    (hloop : rs.foldlM (fun state r =>
      Replicated.restoreRecord env state r.key r.payload) state =
        Except.ok state') : P state'.1 := by
  apply Fallible.foldlM_keeps (P := fun state => P state.1) _ h hloop
  intro r _ state next hstate hrecord
  exact hP.restoreRecord env hstate r.short hrecord

theorem restore (hP : Written P) {env : Env} {r done : ReplicatedStore}
    {m : Contents} (h : P r.store)
    (hencodes : Encodes r.node.storage.snapshot m)
    (hrestore : r.restore env = Except.ok done) :
    exists s, P s ∧ done =
      { r with
        store := writeApplied s.sync r.snapshotIndex
        applied := r.snapshotIndex } := by
  rcases hencodes with ⟨rs, hdata, hascending, hlive, _⟩
  rcases ReplicatedStore.restore_eq_ok hrestore with
    ⟨state, s, hread, hdeletes, rfl⟩
  rw [hdata, SnapshotRecords.readAll_join _ hascending hlive] at hread
  have hkept : P state.1 := hP.records env h hread
  exact ⟨s, hP.deleteAll env hkept hdeletes, rfl⟩

end Written

/-- A store on whole records that its index is an index of, whatever work is out. -/
def Sturdy (s : Store) (out : Out) : Prop :=
  Alive s out ∧ Backed s out

namespace Sturdy

variable {s s' : Store} {out : Out}

theorem putDeferred {key value : Bytes} {now later : UInt64}
    (h : Sturdy s out) (hfits : Fits key value)
    (hput : s.putDeferred key value now later = Except.ok s') :
    Sturdy s' out := by
  have hcalled : Backed (s.call (Call.putDeferred key value now later)).1 out :=
    h.2.call h.1 trivial hfits
  rw [Store.call, hput] at hcalled
  exact ⟨h.1.putWith hfits hput, hcalled⟩

theorem deleteDeferred {key : Bytes} {now later : UInt64} {was : Bool}
    (h : Sturdy s out)
    (hdelete : s.deleteDeferred key now later = Except.ok (s', was)) :
    Sturdy s' out := by
  have hcalled : Backed (s.call (Call.deleteDeferred key now later)).1 out :=
    h.2.call h.1 trivial trivial
  rw [Store.call, hdelete] at hcalled
  exact ⟨h.1.deleteWith hdelete, hcalled⟩

theorem sync (h : Sturdy s out) : Sturdy s.sync out :=
  ⟨h.1.sync, Backed.call h.2 h.1 (show Call.sync.Plain from trivial)
    (show Call.sync.Puts Fits from trivial)⟩

end Sturdy

theorem written_sturdy (out : Out) : Written (fun s => Sturdy s out) where
  put h hfits hput := h.putDeferred hfits hput
  delete h hdelete := h.deleteDeferred hdelete

/-- With no work out. -/
def Sure (s : Store) : Prop :=
  Alive s Out.idle ∧ Replayed s

theorem written_sure : Written Sure :=
  written_sturdy Out.idle

theorem Sure.sync {s : Store} (h : Sure s) : Sure s.sync :=
  ⟨h.1.sync, h.2.sync h.1.ok⟩

theorem Sure.takes {s : Store} {m : Contents} (h : Sure s)
    (hindexes : s.Indexes m) : Takes s m :=
  ⟨h.1.ok, hindexes, h.1.out.2.1⟩

theorem sound_beside {disk disk' : Disk} (h : disk.Sound)
    (hdata : disk'.data = disk.data) (hhints : disk'.hints = disk.hints) :
    disk'.Sound := by
  rcases h with ⟨chart, hchart⟩
  refine ⟨chart, hchart.congr ?_ ?_ ?_⟩
  · intro id
    rw [Disk.contents, Disk.contents, hdata]
  · intro id
    rw [Disk.synced, Disk.synced, hdata]
  · intro id bytes hlookup
    rw [← hhints]
    exact hlookup

theorem grown_writeApplied (s : Store) (index : Nat) :
    Grown s (writeApplied s index) where
  later := ⟨⟨Nat.le_refl _, fun _ _ => List.prefix_refl _⟩, fun _ _ => rfl,
    fun _ _ => Iff.rfl, fun _ _ hlookup => Or.inl hlookup, rfl, rfl⟩
  files _ hid := Or.inl hid
  readers _ hid := hid

theorem Backs.writeApplied {s : Store} {work : Compacting} {m : Contents}
    {chart : Chart} (h : Backs s work m chart) (index : Nat) :
    Backs (Replicated.writeApplied s index) work m chart where
  ok := h.ok.flagged rfl rfl rfl
  indexes := h.indexes.flagged rfl rfl rfl rfl
  restoring := h.restoring
  charted := h.charted.congr rfl rfl rfl rfl
    (fun _ hid => AList.mem_keys.mp hid)
  whole := h.whole
  work := h.work.grown (grown_writeApplied s index) (fun _ _ => rfl)

theorem Sturdy.writeApplied {s : Store} {out : Out} (h : Sturdy s out)
    (index : Nat) : Sturdy (writeApplied s index) out := by
  rcases h with ⟨halive, hbacked⟩
  constructor
  · rcases halive.indexes with ⟨m, hindexes⟩
    rcases halive.charted with ⟨chart, hcharted⟩
    exact ⟨halive.ok.flagged rfl rfl rfl,
      ⟨m, hindexes.flagged rfl rfl rfl rfl⟩,
      ⟨chart, hcharted.congr rfl rfl rfl rfl
        (fun _ hid => AList.mem_keys.mp hid)⟩,
      halive.through.step (Or.inr rfl) (sound_beside halive.through.1 rfl rfl),
      halive.out.grown (grown_writeApplied s index)⟩
  · cases out with
    | idle => exact Replayed.flagged hbacked rfl rfl rfl rfl rfl rfl
    | merging job =>
        rcases hbacked with ⟨m, chart, hbacks⟩
        exact ⟨m, chart, Backs.writeApplied hbacks index⟩
    | merged merged =>
        rcases hbacked with ⟨m, chart, hbacks⟩
        exact ⟨m, chart, Backs.writeApplied hbacks index⟩
    | restoring job =>
        rcases hbacked with ⟨hreplayed, hbare, hjob⟩
        exact ⟨hreplayed.flagged rfl rfl rfl rfl rfl rfl,
          ⟨hbare.empty, hbare.old⟩, hjob⟩
    | restored restored =>
        rcases hbacked with ⟨hbare, chart, hcharted, hnoted⟩
        exact ⟨⟨hbare.empty, hbare.old⟩, chart,
          hcharted.congr rfl rfl rfl rfl (fun _ hid => AList.mem_keys.mp hid),
          hnoted⟩

theorem Sure.writeApplied {s : Store} (h : Sure s) (index : Nat) :
    Sure (writeApplied s index) := by
  have hsturdy : Sturdy s Out.idle := h
  exact hsturdy.writeApplied index

/-- A store on files that have been ready in every state. -/
structure Steady (applied : Option Bytes) (s : Store) : Prop where
  sure : Sure s
  ready : s.dir.Through (Disk.Ready applied)

theorem written_steady (applied : Option Bytes) : Written (Steady applied) where
  put h hfits hput :=
    ⟨written_sure.put h.sure hfits hput, h.sure.1.ready_putWith h.ready hput⟩
  delete h hdelete :=
    ⟨written_sure.delete h.sure hdelete,
      h.sure.1.ready_deleteWith h.ready hdelete⟩

theorem Steady.sync {applied : Option Bytes} {s : Store}
    (h : Steady applied s) : Steady applied s.sync :=
  ⟨h.sure.sync, h.sure.1.ready_sync h.ready⟩

theorem Sure.beside {s : Store} (h : Sure s) (applied : Option Bytes) :
    Steady applied (beside s applied) := by
  rcases h with ⟨halive, hreplayed⟩
  rcases halive.charted with ⟨chart, hcharted⟩
  refine ⟨⟨?_, hreplayed.flagged rfl rfl rfl rfl rfl rfl⟩, ?_⟩
  · refine halive.abandoned halive.out.2.2 rfl rfl rfl rfl rfl rfl ?_
      halive.out.1 halive.out.2.1
    exact ⟨sound_beside halive.through.1 rfl rfl,
      fun _ hpast => absurd hpast List.not_mem_nil⟩
  · refine ⟨⟨?_, rfl⟩, fun _ hpast => absurd hpast List.not_mem_nil⟩
    intro id other hid hother hless
    have hne : id ≠ s.writer.fileId :=
      Nat.ne_of_lt (Nat.lt_of_lt_of_le hless (halive.ok.newest other hother))
    rcases hcharted.sealed id hid hne with ⟨hcontents, hsynced⟩
    exact ⟨⟨_, hcontents⟩, hsynced.trans (congrArg List.length hcontents).symm⟩

theorem steady_beside {s : Store} (h : History Fits (Life.up s Out.idle))
    (applied : Option Bytes) : Steady applied (beside s applied) := by
  have hsure : Sure s := ⟨h.sound, h.backed⟩
  exact hsure.beside applied

/-!
# What a kill leaves
-/

/-- Files that open to a store that is still behind, or that is the snapshot. -/
def Left (applied : Option Bytes) (index : Nat) (m : Contents) (disk : Disk) :
    Prop :=
  forall opts, exists s, Store.openWith { disk := disk } opts = Except.ok s ∧
    Sure s ∧
    (s.dir.disk.appliedIndex = applied ∨
      s.dir.disk.appliedIndex = some (encodeApplied index) ∧ s.Indexes m)

theorem left_of_ready {applied : Option Bytes} {index : Nat} {m : Contents}
    {dir : Dir} (hsound : dir.Through Disk.Sound)
    (hready : dir.Through (Disk.Ready applied)) {disk disk' : Disk}
    (hdisk : disk ∈ dir.states) (hkilled : disk.Killed disk') :
    Left applied index m disk' := by
  intro opts
  have hbefore := Dir.through_iff.mp hready disk hdisk
  have hsound' := hkilled.sound (Dir.through_iff.mp hsound disk hdisk)
  rcases openWith_of_sealed hsound' (hkilled.sealed hbefore.sealed) opts with
    ⟨s, hopen, halive, hreplayed, happlied⟩
  refine ⟨s, hopen, ⟨halive, hreplayed⟩, Or.inl ?_⟩
  rw [happlied, hkilled.appliedIndex]
  exact hbefore.appliedIndex

theorem indexes_unique {s : Store} {m m' : Contents} (hok : s.Ok)
    (h : s.Indexes m) (h' : s.Indexes m') : m = m' := by
  funext key
  have hget := Store.get_eq hok h key
  rw [Store.get_eq hok h' key] at hget
  exact (Except.ok.inj hget).symm

/-- The index goes beside files that are all synced. -/
theorem left_of_written {applied : Option Bytes} {index : Nat} {m : Contents}
    {s : Store} (h : Steady applied s) (hindexes : s.sync.Indexes m)
    {disk disk' : Disk}
    (hdisk : disk ∈ (writeApplied s.sync index).dir.states)
    (hkilled : disk.Killed disk') : Left applied index m disk' := by
  have hsync := h.sync
  have halive := hsync.sure.1
  rcases List.mem_cons.mp hdisk with hlast | hbefore
  · intro opts
    rcases hsync.sure.2 with ⟨chart, hcharted, hrecorded⟩
    have hopenable := (halive.chartedIdle hcharted).openable halive.ok
      (LogWriter.appended_sync h.sure.1.ok.writer).2
    have hwritten : Openable disk chart [] := by
      rw [hlast]
      exact hopenable.congr rfl (fun _ _ => rfl)
    have hall : forall id, id ∈ disk.data ->
        disk.synced id = (disk.contents id).length := by
      rw [hlast]
      exact fun id hid => (h.sure.1.synced hid).2
    rcases hkilled.openable hwritten hall with ⟨hfiles, hlist⟩
    have hleft : Openable (Dir.disk { disk := disk' }) chart [] := hfiles
    have hnewest : disk.listDataFiles.getLast? = some s.sync.writer.fileId := by
      rw [hlast]
      exact getLast_of_newest halive.ok.writer.linked halive.ok.newest
    rcases openWith_opened hleft opts with ⟨s', hopen, hopened, hid⟩
    have hid' : s'.writer.fileId = s.sync.writer.fileId := by
      rw [hid, hlist, hnewest]
      rfl
    have hsound : disk'.Sound := by
      refine hkilled.sound ?_
      rw [hlast]
      exact sound_beside halive.through.1 rfl rfl
    refine ⟨s', hopen, ⟨hsound.opened hopen, hopened.replayed⟩,
      Or.inr ⟨?_, ?_⟩⟩
    · rw [hopened.appliedIndex]
      show disk'.appliedIndex = _
      rw [hkilled.appliedIndex, hlast]
      rfl
    · rw [indexes_unique halive.ok hindexes hrecorded, ← hid']
      exact hopened.indexes
  · exact left_of_ready halive.through hsync.ready hbefore hkilled

/-!
# In the background
-/

theorem startRestore_cases {r r' : ReplicatedStore} {job : RestoreJob}
    (h : r.startRestore = (some job, r')) :
    exists begun store, r.store.beginRestore = Except.ok (begun, store) ∧
      job =
        { job := begun
          reader := r.node.storage.snapshot
          index := r.snapshotIndex } ∧
      r' = { r with store := store, restoring := true } := by
  unfold ReplicatedStore.startRestore at h
  split at h
  · cases h
  · split at h
    · cases h
    · rename_i begun store hbegin
      cases h
      exact ⟨begun, store, hbegin, rfl, rfl⟩

theorem alive_pushed {s : Store} {rs : List Rec}
    {job job' : Minicask.RestoreJob} (h : Alive s (Out.restoring job))
    (hbacked : Backed s (Out.restoring job))
    (hloop : rs.foldlM (fun (job : Minicask.RestoreJob) r =>
      job.push r.key r.payload) job = Except.ok job') :
    Alive s (Out.restoring job') ∧ Backed s (Out.restoring job') := by
  apply Fallible.foldlM_keeps
    (P := fun job => Alive s (Out.restoring job) ∧ Backed s (Out.restoring job))
    _ ⟨h, hbacked⟩ hloop
  intro r _ job next hjob hpush
  exact ⟨hjob.1.push r.short hpush, hjob.2.push r.short hpush⟩

theorem run_cases {job : RestoreJob} {dir dir' : Dir} {done : RestoredStore}
    {m : Contents} (hencodes : Encodes job.reader m)
    (hrun : job.run dir = Except.ok (done, dir')) :
    exists (rs : List Rec) (pushed : Minicask.RestoreJob),
      rs.foldlM (fun (job : Minicask.RestoreJob) r =>
        job.push r.key r.payload) job.job = Except.ok pushed ∧
      done = { file := (pushed.finish dir).1, index := job.index } ∧
      dir' = (pushed.finish dir).2 := by
  rcases hencodes with ⟨rs, hdata, hascending, hlive, _⟩
  unfold RestoreJob.run at hrun
  rcases Fallible.bind_eq_ok hrun with ⟨pushed, hread, hrun⟩
  rw [hdata, SnapshotRecords.readAll_join _ hascending hlive] at hread
  cases hrun
  exact ⟨rs, pushed, hread, rfl, rfl⟩

theorem steady_finishRestore {applied : Option Bytes} {s : Store}
    {restored : RestoredFile} (halive : Alive s (Out.restored restored))
    (hbacked : Backed s (Out.restored restored))
    (hready : s.dir.Through (Disk.Ready applied)) :
    Steady applied (s.finishRestore restored) := by
  rcases hbacked with ⟨hbare, chart, hcharted, hnoted⟩
  exact ⟨⟨halive.finishRestore,
    (Backed.finishRestore hbare hcharted hnoted halive).replayed⟩,
    ready_removeFiles restored.oldIds hready⟩

/-!
# The restart
-/

/-- A replica that is level with a snapshot, on disk as in memory. -/
structure Level (index : Nat) (m : Contents) (r : ReplicatedStore) : Prop where
  sure : Sure r.store
  indexes : r.store.Indexes m
  applied : r.applied = index
  written : readApplied r.store.dir = index

theorem new_of_level {node : Node} {s : Store} {m : Contents} (env : Env)
    (hsure : Sure s) (hindexes : s.Indexes m)
    (hwritten : readApplied s.dir = node.storage.snapshotMeta.index) :
    exists r, ReplicatedStore.new node s env = Except.ok r ∧
      Level node.storage.snapshotMeta.index m r := by
  have hlevel : ¬ node.storage.snapshotMeta.index > readApplied s.dir :=
    Nat.not_lt_of_le (Nat.le_of_eq hwritten.symm)
  unfold ReplicatedStore.new ReplicatedStore.snapshotIndex
  dsimp only
  rw [if_neg hlevel]
  exact ⟨_, rfl, hsure, hindexes, hwritten, hwritten⟩

/-- Joining a node to a store that is behind its snapshot. -/
theorem new_of_behind {node : Node} {s : Store} {m : Contents} (env : Env)
    (hsure : Sure s) (hencodes : Encodes node.storage.snapshot m)
    (hbehind : readApplied s.dir < node.storage.snapshotMeta.index)
    (hindex : node.storage.snapshotMeta.index < 2 ^ 64) :
    exists r, ReplicatedStore.new node s env = Except.ok r ∧
      Level node.storage.snapshotMeta.index m r := by
  rcases hsure.1.indexes with ⟨m', hindexes⟩
  unfold ReplicatedStore.new ReplicatedStore.snapshotIndex
  dsimp only
  rw [if_pos hbehind]
  generalize hr : ({
    node := node
    store := s
    applied := readApplied s.dir
    snapshotEvery := defaultSnapshotEvery
    backgroundSnapshots := false
    snapshotting := false
    compactionDue := false
    restoring := false } : ReplicatedStore) = r
  have hstore : r.store = s := by rw [← hr]
  have hnode : r.node = node := by rw [← hr]
  rw [← hnode] at hencodes hindex ⊢
  rw [← hstore] at hsure hindexes
  rcases restore_spec env (hsure.takes hindexes) hencodes.streams with
    ⟨s', hrestore, htakes, _⟩
  rcases written_sure.restore hsure hencodes hrestore with ⟨s'', hsure'', hdone⟩
  have hs' : s' = writeApplied s''.sync r.snapshotIndex :=
    congrArg ReplicatedStore.store hdone
  refine ⟨_, hrestore, ?_, htakes.indexes, rfl, ?_⟩
  · show Sure s'
    rw [hs']
    exact hsure''.sync.writeApplied _
  · show readApplied s'.dir = _
    rw [hs']
    exact readApplied_writeApplied _ hindex

/-- What a kill leaves is brought up to the snapshot. -/
theorem Left.restarts {applied : Option Bytes} {m : Contents} {disk : Disk}
    {node : Node}
    (h : Left applied node.storage.snapshotMeta.index m disk)
    (hencodes : Encodes node.storage.snapshot m)
    (hbehind : readApplied { disk := { appliedIndex := applied } } <
      node.storage.snapshotMeta.index)
    (hindex : node.storage.snapshotMeta.index < 2 ^ 64) (opts : Options)
    (env : Env) :
    exists s r, Store.openWith { disk := disk } opts = Except.ok s ∧
      ReplicatedStore.new node s env = Except.ok r ∧
      Level node.storage.snapshotMeta.index m r := by
  rcases h opts with ⟨s, hopen, hsure, hbefore | ⟨hafter, hindexes⟩⟩
  · have hread : readApplied s.dir =
        readApplied { disk := { appliedIndex := applied } } :=
      readApplied_congr hbefore
    rcases new_of_behind env hsure hencodes (hread ▸ hbehind) hindex with
      ⟨r, hnew, hlevel⟩
    exact ⟨s, r, hopen, hnew, hlevel⟩
  · have hwritten : readApplied s.dir = node.storage.snapshotMeta.index := by
      rw [← readApplied_writeApplied s hindex]
      exact readApplied_congr hafter
    rcases new_of_level env hsure hindexes hwritten with ⟨r, hnew, hlevel⟩
    exact ⟨s, r, hopen, hnew, hlevel⟩

/-- A replica that is level stays so when its store is closed and opened again. -/
theorem Level.reopens {m : Contents} {node : Node} {r : ReplicatedStore}
    (h : Level node.storage.snapshotMeta.index m r) (opts : Options)
    (env : Env) :
    exists s r', Store.openWith r.store.close opts = Except.ok s ∧
      ReplicatedStore.new node s env = Except.ok r' ∧
      Level node.storage.snapshotMeta.index m r' := by
  rcases h.sure.2 with ⟨chart, hcharted, hrecorded⟩
  have halive := h.sure.1
  rcases (halive.chartedIdle hcharted).reopen halive.ok opts with
    ⟨s, hopen, hopened, hid⟩
  have hclosed : r.store.close.SoundAs chart :=
    (hcharted.soundWriter halive.ok halive.through).flush.sound
  have hdir := (openWith_sound hclosed opts).1
  rw [Store.openDir, hopen] at hdir
  have hsure : Sure s := ⟨Alive.opened hopened hdir.through, hopened.replayed⟩
  have hindexes : s.Indexes m := by
    rw [indexes_unique halive.ok h.indexes hrecorded, ← hid]
    exact hopened.indexes
  have hwritten : readApplied s.dir = node.storage.snapshotMeta.index := by
    rw [← h.written]
    exact readApplied_congr
      (hopened.appliedIndex.trans (appliedIndex_close r.store))
  rcases new_of_level env hsure hindexes hwritten with ⟨r', hnew, hlevel⟩
  exact ⟨s, r', hopen, hnew, hlevel⟩

theorem Behind.steady {pairs : List (Bytes × Bytes)} {r : ReplicatedStore}
    (h : Behind pairs r) : Steady r.store.dir.disk.appliedIndex r.store := by
  rcases h.store with ⟨s, applied, hhistory, hstore⟩
  rw [hstore]
  exact steady_beside hhistory applied

theorem Behind.encodes {pairs : List (Bytes × Bytes)} {r : ReplicatedStore}
    (h : Behind pairs r) :
    Encodes r.node.storage.snapshot (fun key => pairs.lookup key) :=
  h.snapshot.encodes h.fits

theorem Steady.started {applied : Option Bytes} {s s' : Store}
    {begun : Minicask.RestoreJob} (h : Steady applied s)
    (hbegin : s.beginRestore = Except.ok (begun, s')) :
    Alive s' (Out.restoring begun) ∧ Backed s' (Out.restoring begun) ∧
      s'.dir.Through (Disk.Ready applied) ∧
      s'.Reserved begun.id begun.oldIds ∧ begun.Of [] := by
  have hbacked : Backed s Out.idle := h.sure.2
  have halive := h.sure.1
  rcases halive.indexes with ⟨m, hindexes⟩
  rcases Store.beginRestore_spec halive.ok hindexes halive.out.1
    halive.out.2.1 with ⟨begun', s'', hbegin', _, _, _, _, _, _, hslot, hof⟩
  have hpair := Except.ok.inj (hbegin'.symm.trans hbegin)
  cases hpair
  exact ⟨halive.beginRestore hbegin, hbacked.beginRestore halive hbegin,
    halive.ready_beginRestore h.ready hbegin, hslot, hof⟩

theorem Steady.ran {applied : Option Bytes} {s s' : Store}
    {begun : Minicask.RestoreJob} (h : Steady applied s)
    (hbegin : s.beginRestore = Except.ok (begun, s'))
    {data : Bytes} {index : Nat} {m : Contents} (hencodes : Encodes data m)
    {done : RestoredStore} {dir : Dir}
    (hrun : RestoreJob.run { job := begun, reader := data, index := index }
      s'.dir = Except.ok (done, dir)) :
    dir.Through Disk.Sound ∧ dir.Through (Disk.Ready applied) ∧
      Steady applied ({ s' with dir := dir }.finishRestore done.file) ∧
      ({ s' with dir := dir }.finishRestore done.file).sync.Indexes m ∧
      done.index = index := by
  rcases h.started hbegin with ⟨halive, hbacked, hready, hslot, hof⟩
  have hreader : Encodes (RestoreJob.mk begun data index).reader m := hencodes
  have hpushed : (RestoreJob.mk begun data index).job.Of [] := hof
  rcases RestoreJob.run_spec hreader.streams hslot hpushed with
    ⟨done', dir', bytes, hrun', _, _, hindex, hfile⟩
  have hpair := Except.ok.inj (hrun'.symm.trans hrun)
  cases hpair
  rcases run_cases hencodes hrun with ⟨rs, pushed, hloop, hdone, hdir⟩
  rcases alive_pushed halive hbacked hloop with ⟨halive', hbacked'⟩
  have hready' := halive'.ready_finish hready
  have hfinished := halive'.finish
  have hbackedFinished := hbacked'.finish halive'
  rw [hdone] at hfile ⊢
  rw [hdir] at hfile ⊢
  have hinstalled := steady_finishRestore hfinished hbackedFinished hready'
  rcases Store.finishRestore_spec hfinished.ok hfile with ⟨hok, hindexes, _⟩
  have htakes : Takes ({ s' with dir := (pushed.finish s'.dir).2 }.finishRestore
      (pushed.finish s'.dir).1) m := ⟨hok, hindexes, rfl⟩
  exact ⟨hfinished.through, hready', hinstalled, htakes.sync.1.indexes, rfl⟩

/-- Wherever a restore is cut short, the files it leaves open, and the index tells
whether they are the snapshot yet. -/
theorem interrupted_left {pairs : List (Bytes × Bytes)} {r : ReplicatedStore}
    (h : Behind pairs r) {disk : Disk} (hdisk : Interrupted r disk) :
    Left r.store.dir.disk.appliedIndex r.snapshotIndex
      (fun key => pairs.lookup key) disk := by
  have hsteady := h.steady
  cases hdisk with
  | inline hrestore hstate hkilled =>
      rcases hsteady.sure.1.indexes with ⟨m', hindexes⟩
      rcases restore_spec _ (hsteady.sure.takes hindexes) h.encodes.streams with
        ⟨s', hrestore', htakes, _⟩
      have hdone := Except.ok.inj (hrestore'.symm.trans hrestore)
      rcases (written_steady _).restore hsteady h.encodes hrestore with
        ⟨s, hs, heq⟩
      have hs' : s' = writeApplied s.sync r.snapshotIndex :=
        congrArg ReplicatedStore.store (hdone.trans heq)
      have hafter := htakes.indexes
      rw [hs'] at hafter
      rw [heq] at hstate
      exact left_of_written hs (hafter.flagged rfl rfl rfl rfl) hstate hkilled
  | started hstart hstate hkilled =>
      rcases startRestore_cases hstart with ⟨begun, s, hbegin, rfl, rfl⟩
      rcases hsteady.started hbegin with ⟨halive, _, hready, _, _⟩
      exact left_of_ready halive.through hready hstate hkilled
  | written hstart hrun hstate hkilled =>
      rcases startRestore_cases hstart with ⟨begun, s, hbegin, rfl, rfl⟩
      rcases hsteady.ran hbegin h.encodes hrun with ⟨hsound, hready, _, _, _⟩
      exact left_of_ready hsound hready hstate hkilled
  | installed hstart hrun hstate hkilled =>
      rcases startRestore_cases hstart with ⟨begun, s, hbegin, rfl, rfl⟩
      rcases hsteady.ran hbegin h.encodes hrun with
        ⟨_, _, hinstalled, hindexes, hindex⟩
      unfold Replicated.installed withDir at hstate
      dsimp only at hstate
      rw [hindex] at hstate
      exact left_of_written hinstalled hindexes hstate hkilled

/-- A restore in the background gets to its end. -/
theorem Behind.runs {pairs : List (Bytes × Bytes)} {r : ReplicatedStore}
    (h : Behind pairs r) (hbackground : r.backgroundSnapshots = true)
    (hrestoring : r.restoring = false) :
    exists job r' done dir, r.startRestore = (some job, r') ∧
      job.run r'.store.dir = Except.ok (done, dir) := by
  have hsteady := h.steady
  have halive := hsteady.sure.1
  rcases halive.indexes with ⟨m, hindexes⟩
  rcases Store.beginRestore_spec halive.ok hindexes halive.out.1
    halive.out.2.1 with ⟨begun, s, hbegin, _, _, _, _, _, _, hslot, hof⟩
  let job : RestoreJob :=
    { job := begun
      reader := r.node.storage.snapshot
      index := r.snapshotIndex }
  have hreader : Encodes job.reader (fun key => pairs.lookup key) := h.encodes
  have hpushed : job.job.Of [] := hof
  rcases RestoreJob.run_spec hreader.streams hslot hpushed with
    ⟨done, dir, _, hrun, _⟩
  have hdue : ¬ (!r.backgroundSnapshots || r.restoring ||
      decide (r.snapshotIndex <= r.applied)) = true := by
    simp [hbackground, hrestoring, h.behind]
  have hstart : r.startRestore =
      (some job, { r with store := s, restoring := true }) := by
    unfold ReplicatedStore.startRestore
    rw [if_neg hdue, hbegin]
  exact ⟨job, _, done, dir, hstart, hrun⟩

/-- A replica that holds exactly some pairs, applied up to an index. -/
structure Holds (pairs : List (Bytes × Bytes)) (index : Nat)
    (r : ReplicatedStore) : Prop where
  get : forall key, r.store.get key = Except.ok (pairs.lookup key)
  keys : forall key, key ∈ r.store.keys ↔ key ∈ pairs.map Prod.fst
  applied : r.applied = index
  written : readApplied r.store.dir = index

theorem Level.holds {pairs : List (Bytes × Bytes)} {index : Nat}
    {r : ReplicatedStore}
    (h : Level index (fun key => pairs.lookup key) r) :
    Holds pairs index r := by
  refine ⟨Store.get_eq h.sure.1.ok h.indexes, ?_, h.applied, h.written⟩
  intro key
  rw [Store.mem_keys_iff h.indexes key, List.lookup_isSome_iff]
  simp

theorem withMembers_storage (id : NodeId) (bootstrap : List Member)
    (config : Raft.Config) (storage : MemStorage) :
    (Node.withMembers id bootstrap config storage).storage = storage := by
  unfold Node.withMembers
  exact storage_reloadMembership _

/-- A restore that is interrupted at any point is finished by the restart, for
good. -/
theorem interrupted_restore_is_finished {pairs : List (Bytes × Bytes)}
    {r : ReplicatedStore} (h : Behind pairs r) :
    (forall env, exists done, r.restore env = Except.ok done) ∧
    (r.backgroundSnapshots = true -> r.restoring = false ->
      exists job r' done dir, r.startRestore = (some job, r') ∧
        job.run r'.store.dir = Except.ok (done, dir)) ∧
    forall disk, Interrupted r disk -> forall opts id bootstrap config env,
      exists s restarted,
        Store.openWith { disk := disk } opts = Except.ok s ∧
        ReplicatedStore.new
          (Node.withMembers id bootstrap config r.node.storage) s env =
            Except.ok restarted ∧
        Holds pairs r.snapshotIndex restarted ∧
        forall opts id bootstrap config env, exists s' again,
          Store.openWith restarted.store.close opts = Except.ok s' ∧
          ReplicatedStore.new
            (Node.withMembers id bootstrap config r.node.storage) s' env =
              Except.ok again ∧
          Holds pairs r.snapshotIndex again := by
  refine ⟨?_, h.runs, ?_⟩
  · intro env
    have hsteady := h.steady
    rcases hsteady.sure.1.indexes with ⟨m, hindexes⟩
    rcases restore_spec env (hsteady.sure.takes hindexes) h.encodes.streams with
      ⟨s', hrestore, _⟩
    exact ⟨_, hrestore⟩
  · intro disk hdisk opts id bootstrap config env
    have hleft := interrupted_left h hdisk
    have hbehind : readApplied
        { disk := { appliedIndex := r.store.dir.disk.appliedIndex } } <
          r.snapshotIndex :=
      Nat.lt_of_le_of_lt h.written h.behind
    have hencodes := h.encodes
    have hindex := h.index
    unfold ReplicatedStore.snapshotIndex at hleft hbehind hindex ⊢
    have hstorage := withMembers_storage id bootstrap config r.node.storage
    rw [← hstorage] at hleft hbehind hencodes hindex
    rcases hleft.restarts hencodes hbehind hindex opts env with
      ⟨s, restarted, hopen, hnew, hlevel⟩
    rw [hstorage] at hlevel
    refine ⟨s, restarted, hopen, hnew, hlevel.holds, ?_⟩
    intro opts' id' bootstrap' config' env'
    have hstorage' := withMembers_storage id' bootstrap' config' r.node.storage
    rw [← hstorage'] at hlevel
    rcases hlevel.reopens opts' env' with ⟨s', again, hopen', hnew', hlevel'⟩
    rw [hstorage'] at hlevel'
    exact ⟨s', again, hopen', hnew', hlevel'.holds⟩

def received (snapshot : Bytes) : ReplicatedStore where
  node := Node.withMembers 1 [] {}
    { log := { base := { index := 3, term := 1 } }, snapshot := snapshot }
  store := beside (newStore {}) none
  applied := 0
  snapshotEvery := defaultSnapshotEvery
  backgroundSnapshots := true
  snapshotting := false
  compactionDue := false
  restoring := false

theorem received_storage (snapshot : Bytes) :
    (received snapshot).node.storage =
      { log := { base := { index := 3, term := 1 } }, snapshot := snapshot } :=
  withMembers_storage _ _ _ _

theorem snapshotIndex_received (snapshot : Bytes) :
    (received snapshot).snapshotIndex = 3 := by
  rw [ReplicatedStore.snapshotIndex, received_storage]
  rfl

/-- A store of three files, one for each of its keys. -/
def stocked : Store :=
  (newStore { maxFileBytes := 30 }).after
    [Call.put [7] [3] 5 6, Call.put [9] [4] 7 8, Call.put [8] [2] 9 10]

theorem history_stocked : History Fits (Life.up stocked Out.idle) := by
  have hfits : forall key value : UInt8, Fits [key] [value] := by
    intro key value
    show headerLen + 1 + 1 < 2 ^ 32
    decide
  have hopened : History Fits (Life.up (newStore { maxFileBytes := 30 }) Out.idle) :=
    History.opened History.new (openWith_nothing _)
  exact ((hopened.call (c := Call.put [7] [3] 5 6) trivial (hfits 7 3)).call
    (c := Call.put [9] [4] 7 8) trivial (hfits 9 4)).call
    (c := Call.put [8] [2] 9 10) trivial (hfits 8 2)

/-- Its node received a snapshot meanwhile. -/
def overtaken (snapshot : Bytes) : ReplicatedStore :=
  { received snapshot with store := beside stocked none }

/-- One of the keys is gone, one has another value, and one is as it was. -/
def shipped : List (Bytes × Bytes) :=
  [([7], [1]), ([8], [2])]

def shippedSnapshot : Bytes :=
  ((encodePairs shipped).toOption).getD []

theorem snapshotOf_shipped : SnapshotOf shipped shippedSnapshot where
  ascending := by
    unfold Ascending
    decide
  data := rfl

theorem fits_shipped : forall pair, pair ∈ shipped -> Fits pair.1 pair.2 := by
  unfold Fits
  decide

theorem behind_overtaken : Behind shipped (overtaken shippedSnapshot) where
  store := ⟨stocked, none, history_stocked, rfl⟩
  written := Nat.le_refl 0
  behind := by
    show 0 < (received shippedSnapshot).snapshotIndex
    rw [snapshotIndex_received]
    exact Nat.zero_lt_succ 2
  index := by
    show (received shippedSnapshot).snapshotIndex < 2 ^ 64
    rw [snapshotIndex_received]
    decide
  snapshot := by
    show SnapshotOf shipped (received shippedSnapshot).node.storage.snapshot
    rw [received_storage]
    exact snapshotOf_shipped
  fits := fits_shipped

def installing (r : ReplicatedStore) : List Disk :=
  match r.startRestore with
  | (some job, r') =>
      match job.run r'.store.dir with
      | Except.ok (done, dir) => (installed (withDir r' dir) done).store.dir.states
      | Except.error _ => []
  | (none, _) => []

theorem killed_refl (disk : Disk) : disk.Killed disk where
  kept id := ⟨(disk.contents id).length, disk.synced_le id,
    List.take_length.symm⟩
  linked _ := Iff.rfl
  synced _ := rfl
  hints _ _ hlookup := hlookup
  appliedIndex := rfl

theorem interrupted_installing {pairs : List (Bytes × Bytes)} {r : ReplicatedStore}
    (h : Behind pairs r) (hbackground : r.backgroundSnapshots = true)
    (hrestoring : r.restoring = false) {disk : Disk} (hdisk : disk ∈ installing r) :
    Interrupted r disk := by
  rcases h.runs hbackground hrestoring with ⟨job, r', done, dir, hstart, hrun⟩
  unfold installing at hdisk
  rw [hstart] at hdisk
  dsimp only at hdisk
  rw [hrun] at hdisk
  exact Interrupted.installed hstart hrun hdisk (killed_refl _)

theorem unlinking :
    ((installing (overtaken shippedSnapshot))[5]?).map Disk.listDataFiles =
      some [1, 2, 4, 5] := by
  decide +kernel

/-- Killed while the old files are unlinked, one of which has a key that is not in the
snapshot. -/
theorem interrupted_restore_is_finished_sample :
    exists (disk : Disk) (s : Store) (restarted : ReplicatedStore),
      Behind shipped (overtaken shippedSnapshot) ∧
      [9] ∈ (overtaken shippedSnapshot).store.keys ∧
      Interrupted (overtaken shippedSnapshot) disk ∧
      disk.listDataFiles = [1, 2, 4, 5] ∧
      Store.openWith { disk := disk } {} = Except.ok s ∧
      ReplicatedStore.new
        (Node.withMembers 1 [] {} (overtaken shippedSnapshot).node.storage) s
        { clock := fun _ => (5, 6), fragmented := fun _ => false } =
          Except.ok restarted ∧
      Holds shipped 3 restarted := by
  rcases Option.map_eq_some_iff.mp unlinking with ⟨disk, hdisk, hfiles⟩
  have hcut : Interrupted (overtaken shippedSnapshot) disk :=
    interrupted_installing behind_overtaken rfl rfl (List.mem_of_getElem? hdisk)
  rcases (interrupted_restore_is_finished behind_overtaken).2.2 disk hcut {} 1 [] {}
      { clock := fun _ => (5, 6), fragmented := fun _ => false } with
    ⟨s, restarted, hopen, hnew, hholds, _⟩
  have hindex : (overtaken shippedSnapshot).snapshotIndex = 3 :=
    snapshotIndex_received shippedSnapshot
  rw [hindex] at hholds
  exact ⟨disk, s, restarted, behind_overtaken, by decide +kernel, hcut, hfiles, hopen,
    hnew, hholds⟩

theorem length_of_decodeValue {bytes value : Bytes} {loc : Location}
    (h : decodeValue bytes loc = Except.ok value) :
    headerLen + value.length <= bytes.length := by
  unfold decodeValue at h
  dsimp only at h
  split at h
  · cases h
  · rename_i hheader
    split at h
    · cases h
    · split at h
      · cases h
      · cases h
        rw [List.length_drop, List.length_drop]
        omega

theorem length_of_buffered {w : LogWriter} {offset : Nat} {len : UInt32}
    {bytes : Bytes} (h : w.buffered offset len = some bytes) :
    bytes.length < 2 ^ 32 := by
  unfold LogWriter.buffered at h
  split at h
  · cases h
  · dsimp only at h
    split at h
    · rename_i hfits
      cases h
      rw [length_slice (Nat.le_add_right _ _) hfits, Nat.add_sub_cancel_left]
      exact len.toNat_lt
    · cases h

theorem length_of_readRecord {readers : List FileId} {dir : Dir}
    {loc : Location} {bytes : Bytes}
    (h : readRecord readers dir loc = Except.ok bytes) :
    bytes.length < 2 ^ 32 := by
  unfold readRecord at h
  split at h
  · unfold Dir.readAt at h
    dsimp only at h
    split at h
    · rename_i hfits
      cases h
      rw [length_slice (Nat.le_add_right _ _) hfits, Nat.add_sub_cancel_left]
      exact loc.len.toNat_lt
    · cases h
  · cases h

theorem length_of_get {s : Store} {key value : Bytes}
    (h : s.get key = Except.ok (some value)) :
    headerLen + value.length < 2 ^ 32 := by
  unfold Store.get at h
  cases hlookup : s.keydir.lookup key with
  | none =>
      rw [hlookup] at h
      cases h
  | some loc =>
      rw [hlookup] at h
      dsimp only at h
      have hdecoded : exists bytes, bytes.length < 2 ^ 32 ∧
          decodeValue bytes loc = Except.ok value := by
        split at h
        · next bytes hbuffered =>
            rcases Fallible.map_eq_ok h with ⟨_, hdecode, heq⟩
            cases heq
            refine ⟨bytes, ?_, hdecode⟩
            split at hbuffered
            · exact length_of_buffered hbuffered
            · cases hbuffered
        · rcases Fallible.map_eq_ok h with ⟨_, hvalue, heq⟩
          cases heq
          rcases Fallible.bind_eq_ok hvalue with ⟨bytes, hread, hdecode⟩
          exact ⟨bytes, length_of_readRecord hread, hdecode⟩
      rcases hdecoded with ⟨bytes, hshort, hdecode⟩
      exact Nat.lt_of_le_of_lt (length_of_decodeValue hdecode) hshort

/-- The restart after a restore from a value of 2^32 - 21 bytes, which the
snapshot has room for and a record has not. -/
theorem restart_loses_long_value :
    exists (value snapshot : Bytes) (disk : Disk),
      value.length = 2 ^ 32 - 21 ∧ SnapshotOf [([7], value)] snapshot ∧
      Interrupted (received snapshot) disk ∧
      forall opts id bootstrap config env s restarted,
        Store.openWith { disk := disk } opts = Except.ok s ->
        ReplicatedStore.new
          (Node.withMembers id bootstrap config
            (received snapshot).node.storage) s env = Except.ok restarted ->
        ¬ Holds [([7], value)] 3 restarted := by
  have hvalue : exists value : Bytes, value.length = 2 ^ 32 - 21 :=
    ⟨List.replicate (2 ^ 32 - 21) 0, List.length_replicate⟩
  rcases hvalue with ⟨value, hvalue⟩
  have hencode : exists snapshot,
      encodePairs [([7], value)] = Except.ok snapshot := by
    unfold encodePairs
    rw [List.foldlM_cons]
    unfold Minicask.encode
    rw [if_neg (show ¬ List.isEmpty [(7 : UInt8)] = true by decide),
      if_neg (show ¬ [(7 : UInt8)].length > u32Max by decide)]
    dsimp only [Option.getD_some]
    rw [if_neg (by rw [hvalue]; decide)]
    exact ⟨_, rfl⟩
  rcases hencode with ⟨snapshot, hencode⟩
  have hstart : exists job r',
      (received snapshot).startRestore = (some job, r') := by
    have hdue : ¬ (!(received snapshot).backgroundSnapshots ||
        (received snapshot).restoring ||
        decide ((received snapshot).snapshotIndex <=
          (received snapshot).applied)) = true := by
      rw [snapshotIndex_received]
      exact Bool.false_ne_true
    have hbegin : exists begun s, (received snapshot).store.beginRestore =
        Except.ok (begun, s) := ⟨_, _, rfl⟩
    rcases hbegin with ⟨begun, s, hbegin⟩
    unfold ReplicatedStore.startRestore
    rw [if_neg hdue, hbegin]
    exact ⟨_, _, rfl⟩
  rcases hstart with ⟨job, r', hstart⟩
  refine ⟨value, snapshot, r'.store.dir.disk, hvalue,
    ⟨List.pairwise_singleton _ _, hencode⟩,
    Interrupted.started hstart List.mem_cons_self (killed_refl _), ?_⟩
  intro opts id bootstrap config env s restarted _ _ hholds
  have hget := hholds.get [7]
  rw [List.lookup_cons_self] at hget
  have hshort := length_of_get hget
  rw [hvalue] at hshort
  exact absurd hshort (by decide)

end Replicated
end Minicask
