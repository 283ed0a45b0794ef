import Mathlib.Logic.Relation
import Minicask.Raft.StorageRefinement

/-!
# Crashes of the storage on disk

A crash may come between any two steps that an operation takes in the file system.
Bytes that were appended and not yet synced survive as any prefix of them, and what
survives is on the disk.  Whatever is left, opening it gives the state before the
operation or the one after it, or what part of an append amounts to.
-/

namespace Minicask
namespace Raft

/-- What a crash can leave of the files. -/
structure RaftDisk.Survives (disk disk' : RaftDisk) : Prop where
  hardState : disk'.hardState = disk.hardState
  snapshot : disk'.snapshot = disk.snapshot
  settled : disk'.Settled
  entries : exists n, disk.entries.synced <= n ∧
    disk'.entries.bytes = disk.entries.bytes.take n

def DiskStorage.logical (s : DiskStorage) : MemStorage where
  hardState := s.hardState
  log := s.log
  snapshot := (s.dir.disk.snapshot.getD []).drop s.snapshotDataAt
  snapshotMembers := s.snapshotMembers

/-- The states an interrupted call can leave behind. -/
def Interrupted (m : MemStorage) (call : StorageCall) (after m' : MemStorage) :
    Prop :=
  m' = m ∨ m' = after ∨
    exists stamp entries keep, call = StorageCall.append stamp entries ∧
      m' = m.append (entries.take keep)

def DiskClient.watched (c : DiskClient) : DiskClient :=
  { c with storage := { c.storage with dir := { disk := c.storage.dir.disk } } }

def DiskClient.CrashIn (c : DiskClient) (call : StorageCall)
    (disk' : RaftDisk) : Prop :=
  exists c' disk, c.watched.call call = Except.ok c' ∧
    disk ∈ c'.storage.dir.disk :: c'.storage.dir.past ∧ disk.Survives disk'

def CrashInOpen (disk : RaftDisk) (stamp : Entry -> UInt64)
    (disk' : RaftDisk) : Prop :=
  exists s mid, DiskStorage.openDir { disk := disk } stamp = Except.ok s ∧
    mid ∈ s.dir.disk :: s.dir.past ∧ mid.Survives disk'

def Reopens (disk : RaftDisk) (m : MemStorage) : Prop :=
  forall stamp, exists s,
    DiskStorage.openDir { disk := disk } stamp = Except.ok s ∧ s.logical = m ∧
    forall stamp', exists s',
      DiskStorage.openDir { disk := s.dir.disk } stamp' = Except.ok s' ∧
      s'.logical = m

/-- A node's storage is in use, or a crash has left its files behind. -/
inductive StorageState where
  | up (c : DiskClient)
  | down (disk : RaftDisk)

/-- Calls, crashes inside calls, openings, and crashes inside openings. -/
inductive StorageStep : StorageState -> StorageState -> Prop where
  | call {c c' : DiskClient} {call : StorageCall}
      (hallows : MemClient.Allows { storage := c.storage.logical } call)
      (hcall : c.watched.call call = Except.ok c') :
      StorageStep (StorageState.up c) (StorageState.up c')
  | crash {c : DiskClient} {call : StorageCall} {disk : RaftDisk}
      (hallows : MemClient.Allows { storage := c.storage.logical } call)
      (hcrash : c.CrashIn call disk) :
      StorageStep (StorageState.up c) (StorageState.down disk)
  | opening {disk : RaftDisk} {stamp : Entry -> UInt64} {s : DiskStorage}
      (hopen : DiskStorage.openDir { disk := disk } stamp = Except.ok s) :
      StorageStep (StorageState.down disk) (StorageState.up { storage := s })
  | crashOpening {disk disk' : RaftDisk} {stamp : Entry -> UInt64}
      (hcrash : CrashInOpen disk stamp disk') :
      StorageStep (StorageState.down disk) (StorageState.down disk')

/-!
# What a crash leaves
-/

theorem DiskStorage.Stores.logical {s : DiskStorage} {m : MemStorage}
    {junk : Bytes} (h : s.Stores m junk) : s.logical = m := by
  unfold DiskStorage.logical
  rw [h.hardState, h.log, ← h.data, h.members]

theorem RaftDisk.Durable.survives {disk disk' : RaftDisk} {m : MemStorage}
    (h : disk.Durable m) (hsurvives : disk.Survives disk') :
    disk'.Durable m := by
  rcases hsurvives with ⟨hhard, hsnapshot, hsettled, n, hn, hbytes⟩
  have hsynced : disk.entries.synced = disk.entries.bytes.length := h.2
  rw [List.take_of_length_le (by omega)] at hbytes
  refine ⟨⟨?_, ?_, ?_⟩, hsettled⟩
  · rw [hhard]
    exact h.1.hardState
  · rw [hsnapshot]
    exact h.1.snapshot
  · rw [hbytes]
    exact h.1.entries

theorem RaftDisk.Durable.reopens {disk : RaftDisk} {m : MemStorage}
    (h : disk.Durable m) : Reopens disk m := by
  intro stamp
  rcases DiskStorage.openDir_spec
    (show ({ disk := disk } : RaftDir).disk.Holds m from h.1) stamp with
    ⟨s, hopen, hstores, _⟩
  refine ⟨s, hopen, hstores.logical, ?_⟩
  intro stamp'
  rcases DiskStorage.openDir_spec
    (show ({ disk := s.dir.disk } : RaftDir).disk.Holds m from
      hstores.holds unfinished_nil) stamp' with ⟨s', hopen', hstores', _⟩
  exact ⟨s', hopen', hstores'.logical⟩

def Leaves (states : MemStorage -> Prop) (disk : RaftDisk) : Prop :=
  forall disk', disk.Survives disk' ->
    exists m, states m ∧ disk'.Durable m

theorem RaftDisk.Durable.leaves {disk : RaftDisk} {m : MemStorage}
    (h : disk.Durable m) {states : MemStorage -> Prop} (hm : states m) :
    Leaves states disk :=
  fun _ hsurvives => ⟨m, hm, h.survives hsurvives⟩

theorem DiskStorage.Stores.durable {s : DiskStorage} {m : MemStorage}
    (h : s.Stores m []) (hsettled : s.dir.disk.Settled) :
    s.dir.disk.Durable m :=
  ⟨h.holds unfinished_nil, hsettled⟩

/-!
# Inside the operations
-/

namespace DiskStorage

variable {s : DiskStorage} {m : MemStorage} {states : MemStorage -> Prop}

theorem saveHardState_leaves (h : s.Stores m [])
    (hdir : s.dir.Through (RaftDisk.Durable m)) {state : HardState}
    (hfits : state.Fits) (hbefore : states m)
    (hafter : states (m.saveHardState state)) :
    (s.saveHardState state).dir.disk.Settled ∧
      (s.saveHardState state).dir.Through (Leaves states) := by
  have hstores := saveHardState_stores h hfits
  have hthrough : s.dir.Through (Leaves states) :=
    hdir.mono (fun _ hdisk => hdisk.leaves hbefore)
  unfold saveHardState at hstores ⊢
  split at hstores
  · next heq =>
      rw [if_pos heq]
      exact ⟨hdir.1.2, hthrough⟩
  · next hne =>
      rw [if_neg hne]
      have hsettled : (s.dir.writeHardState (encodeHardState state)).disk.Settled :=
        hdir.1.2
      exact ⟨hsettled, hthrough.move ((hstores.durable hsettled).leaves hafter)⟩

/-- What is left of an append that was cut short is a part of its entries. -/
theorem append_cut (h : s.Stores m []) (hsettled : s.dir.disk.Settled)
    {entries : List Entry} (hfollows : Follows m.lastIndex entries)
    (hfits : forall entry, entry ∈ entries -> entry.Fits)
    {offsets : List Nat} {buf : Bytes}
    (hencoded : Encoded s.endAt offsets entries buf)
    (hstates : forall keep, states (m.append (entries.take keep))) :
    Leaves states (s.dir.writeAt s.endAt buf).disk := by
  intro disk' hsurvives
  rcases hsurvives with ⟨hhard, hsnapshot, hsettled', n, hn, hbytes'⟩
  rcases h.encoded with ⟨whole, hbytes, hwhole, hend⟩
  rw [List.append_nil] at hbytes
  have hsynced : whole.length <= n := by
    have hfull : s.dir.disk.entries.synced = s.dir.disk.entries.bytes.length :=
      hsettled
    have hmin : min s.dir.disk.entries.synced s.endAt <= n := hn
    rw [hfull, hbytes, hend, Nat.min_self] at hmin
    exact hmin
  have hfile : disk'.entries.bytes = whole ++ buf.take (n - whole.length) := by
    have hwritten : (s.dir.writeAt s.endAt buf).disk.entries.bytes =
        whole ++ buf := by
      show overwrite s.dir.disk.entries.bytes s.endAt buf = _
      have hover := overwrite_end whole [] buf
      rw [List.append_nil, List.drop_nil, List.append_nil] at hover
      rw [hbytes, hend]
      exact hover
    rw [hbytes', hwritten, List.take_append, List.take_of_length_le hsynced]
  rcases hencoded.cut (n - whole.length) with
    ⟨keep, front, tail, hcut, hfront, htail⟩
  have hstores : DiskStorage.Stores { s with dir := { disk := disk' } } m
      (buf.take (n - whole.length)) :=
    { h with
      data := by
        show _ = (disk'.snapshot.getD []).drop _
        rw [hsnapshot]
        exact h.data
      hardFile := by
        show readHardState disk'.hardState = _
        rw [hhard]
        exact h.hardFile
      snapshotFile := by
        show readSnapshotHeader disk'.snapshot = _
        rw [hsnapshot]
        exact h.snapshotFile
      encoded := ⟨whole, hfile, hwhole, hend⟩ }
  exact ⟨m.append (entries.take keep), hstates keep,
    hstores.holds_append hcut hfront htail (hfollows.take keep)
      (fun entry hentry => hfits entry (List.mem_of_mem_take hentry)), hsettled'⟩

theorem append_leaves (h : s.Stores m [])
    (hdir : s.dir.Through (RaftDisk.Durable m)) {stamp : Entry -> UInt64}
    {entries : List Entry} (hfollows : Follows m.lastIndex entries)
    (hfits : forall entry, entry ∈ entries -> entry.Fits) {s' : DiskStorage}
    (happend : s.append stamp entries = Except.ok s') (hbefore : states m)
    (hafter : states (m.append entries))
    (hstates : forall keep, states (m.append (entries.take keep))) :
    s'.dir.disk.Settled ∧ s'.dir.Through (Leaves states) := by
  have hthrough : s.dir.Through (Leaves states) :=
    hdir.mono (fun _ hdisk => hdisk.leaves hbefore)
  by_cases hne : entries = []
  · subst hne
    cases happend
    exact ⟨hdir.1.2, hthrough⟩
  · rcases append_stores h stamp hfollows hfits with
      ⟨t, _, _, ht, _, hstores, _⟩
    rcases append_ok s stamp hne hfits with ⟨offsets, buf, hencoded, hok⟩
    rw [List.drop_nil] at hstores
    rw [happend] at ht hok
    cases ht
    have hmid := append_cut h hdir.1.2 hfollows hfits hencoded hstates
    cases hok
    have hsettled :
        ((s.dir.writeAt s.endAt buf).syncAll).disk.Settled := rfl
    exact ⟨hsettled, (hthrough.move hmid).move
      ((hstores.durable hsettled).leaves hafter)⟩

theorem truncateFrom_leaves (h : s.Stores m [])
    (hdir : s.dir.Through (RaftDisk.Durable m)) (index : Nat)
    (hbefore : states m) (hafter : states (m.truncateFrom index)) :
    (s.truncateFrom index).dir.disk.Settled ∧
      (s.truncateFrom index).dir.Through (Leaves states) := by
  have hthrough : s.dir.Through (Leaves states) :=
    hdir.mono (fun _ hdisk => hdisk.leaves hbefore)
  rcases truncateFrom_stores h index with ⟨junk, hjunk, hstores, _⟩
  have hnil : junk = [] := by
    rcases hjunk with heq | heq <;> exact heq
  subst hnil
  unfold truncateFrom at hstores ⊢
  dsimp only at hstores ⊢
  cases hstart : s.offsets[(s.log.truncateFrom index).entries.length]? with
  | none => exact ⟨hdir.1.2, hthrough⟩
  | some start =>
      rw [hstart] at hstores
      have hlast : ((s.dir.setLen start).syncAll).disk.Durable
          (m.truncateFrom index) := hstores.durable rfl
      have hcut : (s.dir.setLen start).disk.Durable (m.truncateFrom index) := by
        refine ⟨⟨hlast.1.hardState, hlast.1.snapshot, hlast.1.entries⟩, ?_⟩
        have hfull : s.dir.disk.entries.synced =
            s.dir.disk.entries.bytes.length := hdir.1.2
        show min s.dir.disk.entries.synced start =
          (s.dir.disk.entries.bytes.take start).length
        rw [hfull, List.length_take, Nat.min_comm]
      exact ⟨rfl, (hthrough.move (hcut.leaves hafter)).move
        (hlast.leaves hafter)⟩

/-- Once the snapshot is in place, the log is what taking it leaves, though the
entries it covers are still in their file. -/
theorem renamed_durable (h : s.Stores m []) (hsettled : s.dir.disk.Settled)
    {sink : MemSnapshot} (hfits : sink.Fits)
    (hnewer : m.log.base.index < sink.about.index) (part : Nat)
    (bytes : Bytes) :
    ((s.dir.writePart part bytes).renamePart part
      (snapshotFile sink.about sink.members sink.data)).disk.Durable
      (m.installSnapshot sink) := by
  rw [MemStorage.installSnapshot_mem hnewer]
  have hbase : (m.log.compact sink.about).2.base = sink.about := by
    rw [EntryLog.compact_snd hnewer]
  rcases h.encoded with ⟨whole, hbytes, hwhole, _⟩
  refine ⟨⟨h.hardFile, ⟨8 + (snapshotHeader sink.about sink.members).length, ?_,
    (drop_snapshotFile _ _ _).symm⟩, ?_⟩, hsettled⟩
  · dsimp only
    rw [hbase]
    exact readSnapshotHeader_snapshotFile hfits.1 hfits.2 _
  · dsimp only
    rw [hbase]
    refine ⟨m.log.base.index, m.log.entries,
      ⟨⟨s.offsets, whole, [], hbytes, hwhole, unfinished_nil⟩, h.follows,
        h.fits⟩, Nat.le_of_lt hnewer, ?_⟩
    exact (EntryLog.reconcile_eq_compact hnewer).symm

theorem installSnapshot_leaves (h : s.Stores m [])
    (hdir : s.dir.Through (RaftDisk.Durable m)) {stamp : Entry -> UInt64}
    {sink : DiskSnapshot} {msink : MemSnapshot}
    (hsink : SinkStores s.dir.disk sink msink) (hfits : msink.Fits)
    {s' : DiskStorage} (hinstall : s.installSnapshot stamp sink = Except.ok s')
    (hbefore : states m) (hafter : states (m.installSnapshot msink)) :
    s'.dir.disk.Settled ∧ s'.dir.Through (Leaves states) := by
  have hthrough : s.dir.Through (Leaves states) :=
    hdir.mono (fun _ hdisk => hdisk.leaves hbefore)
  by_cases hnewer : m.log.base.index < msink.about.index
  · rcases installSnapshot_stores h stamp hsink hfits with
      ⟨t, junk, ht, hjunk, hstores, _⟩
    have hnil : junk = [] := by
      rcases hjunk with heq | heq <;> exact heq
    subst hnil
    rcases installSnapshot_ok h stamp hsink hnewer with ⟨offsets, buf, _, hok⟩
    rw [hinstall] at ht hok
    cases ht
    cases hok
    have hpart : (s.dir.writePart sink.part
        (snapshotFile msink.about msink.members msink.data)).disk.Durable m :=
      hdir.1.same ⟨rfl, rfl, rfl⟩
    have hrenamed := renamed_durable h hdir.1.2 hfits hnewer sink.part
      (snapshotFile msink.about msink.members msink.data)
    refine ⟨rfl, ?_⟩
    exact ((hthrough.move (hpart.leaves hbefore)).move
      (hrenamed.leaves hafter)).move ((hstores.durable rfl).leaves hafter)
  · unfold installSnapshot at hinstall
    rw [h.log, hsink.about, if_pos (Nat.le_of_not_lt hnewer)] at hinstall
    cases hinstall
    have hdropped : (s.dropSnapshot sink).dir.disk.Durable m :=
      hdir.1.same ⟨rfl, rfl, rfl⟩
    exact ⟨hdropped.2, hthrough.move (hdropped.leaves hbefore)⟩

end DiskStorage

/-!
# Inside a call
-/

namespace ClientStores

variable {c : DiskClient} {m : MemClient}

theorem dropSnapshot_through (slot : Nat) {m : MemStorage}
    (hdir : c.storage.dir.Through (RaftDisk.Durable m)) :
    (c.dropSnapshot slot).storage.dir.Through (RaftDisk.Durable m) := by
  unfold DiskClient.dropSnapshot
  cases c.sinks slot with
  | none => exact hdir
  | some sink => exact hdir.move (hdir.1.same ⟨rfl, rfl, rfl⟩)

theorem newSnapshot_through (slot : Nat) (about : SnapshotMeta)
    (members : Option (List Member)) {m : MemStorage}
    (hdir : c.storage.dir.Through (RaftDisk.Durable m)) :
    (c.newSnapshot slot about members).storage.dir.Through
      (RaftDisk.Durable m) := by
  have hdropped := dropSnapshot_through slot hdir
  exact hdropped.move (hdropped.1.same ⟨rfl, rfl, rfl⟩)

theorem write_through (slot : Nat) (data : Bytes) {m : MemStorage}
    (hdir : c.storage.dir.Through (RaftDisk.Durable m)) :
    (c.write slot data).storage.dir.Through (RaftDisk.Durable m) := by
  unfold DiskClient.write
  cases c.sinks slot with
  | none => exact hdir
  | some sink => exact hdir.move (hdir.1.same ⟨rfl, rfl, rfl⟩)

/-- Wherever a crash comes inside a call, it leaves one of the states that the
call allows for. -/
theorem call_leaves (h : ClientStores c m [])
    (hdir : c.storage.dir.Through (RaftDisk.Durable m.storage))
    {call : StorageCall} (hallows : m.Allows call) {c' : DiskClient}
    (hcall : c.call call = Except.ok c') :
    c'.storage.dir.disk.Settled ∧ c'.storage.dir.Through
      (Leaves (Interrupted m.storage call (m.call call).storage)) := by
  have hbefore : Interrupted m.storage call (m.call call).storage m.storage :=
    Or.inl rfl
  have hafter : Interrupted m.storage call (m.call call).storage
      (m.call call).storage :=
    Or.inr (Or.inl rfl)
  have hsame : forall dir : RaftDir, dir.Through (RaftDisk.Durable m.storage) ->
      dir.disk.Settled ∧ dir.Through
        (Leaves (Interrupted m.storage call (m.call call).storage)) :=
    fun dir hthrough => ⟨hthrough.1.2,
      hthrough.mono (fun _ hdisk => hdisk.leaves hbefore)⟩
  cases call with
  | saveHardState state =>
      cases hcall
      exact DiskStorage.saveHardState_leaves h.storage hdir hallows hbefore hafter
  | append stamp entries =>
      change (c.storage.append stamp entries).map _ = _ at hcall
      cases happend : c.storage.append stamp entries with
      | error e =>
          rw [happend] at hcall
          cases hcall
      | ok s =>
          rw [happend] at hcall
          cases hcall
          exact DiskStorage.append_leaves h.storage hdir hallows.1 hallows.2
            happend hbefore hafter
            (fun keep => Or.inr (Or.inr ⟨stamp, entries, keep, rfl, rfl⟩))
  | truncateFrom index =>
      cases hcall
      exact DiskStorage.truncateFrom_leaves h.storage hdir index hbefore hafter
  | newSnapshot slot about members =>
      cases hcall
      exact hsame _ (newSnapshot_through slot about members hdir)
  | write slot data =>
      cases hcall
      exact hsame _ (write_through slot data hdir)
  | dropSnapshot slot =>
      cases hcall
      exact hsame _ (dropSnapshot_through slot hdir)
  | installSnapshot stamp slot =>
      change c.installSnapshot stamp slot = _ at hcall
      unfold DiskClient.installSnapshot at hcall
      cases hsink : c.sinks slot with
      | none =>
          rw [hsink] at hcall
          cases hcall
          exact hsame _ hdir
      | some sink =>
          rcases h.sink_of_eq_some hsink with ⟨msink, hmsink, hheld, hfits⟩
          have hinstalled : (m.call (StorageCall.installSnapshot stamp
              slot)).storage = m.storage.installSnapshot msink := by
            show (m.installSnapshot slot).storage = _
            unfold MemClient.installSnapshot
            rw [hmsink]
          rw [hsink] at hcall
          rw [hinstalled] at hbefore hafter ⊢
          dsimp only at hcall
          cases hinstall : c.storage.installSnapshot stamp sink with
          | error e =>
              rw [hinstall] at hcall
              cases hcall
          | ok s =>
              rw [hinstall] at hcall
              cases hcall
              exact DiskStorage.installSnapshot_leaves h.storage hdir hheld
                hfits hinstall hbefore hafter
  | reopen stamp =>
      rcases DiskStorage.openDir_spec (h.storage.holds unfinished_nil) stamp with
        ⟨s, hopen, _, _, hthrough⟩
      change (DiskStorage.openDir c.storage.dir stamp).map _ = _ at hcall
      rw [hopen] at hcall
      cases hcall
      exact hsame _ (hthrough hdir)

theorem watched {junk : Bytes} (h : ClientStores c m junk) :
    ClientStores c.watched m junk :=
  h.keep { h.storage with } rfl rfl

end ClientStores

/-!
# Every run
-/

/-- What holds of a storage in use, and of what a crash has left. -/
def StorageState.Sound : StorageState -> Prop
  | StorageState.up c => exists m, ClientStores c m [] ∧
      c.storage.dir.disk.Durable m.storage
  | StorageState.down disk => exists m, disk.Durable m

theorem RaftDir.Through.mem {P : RaftDisk -> Prop} {dir : RaftDir}
    (h : dir.Through P) {disk : RaftDisk} (hdisk : disk ∈ dir.disk :: dir.past) :
    P disk := by
  rcases List.mem_cons.mp hdisk with heq | hpast
  · rw [heq]
    exact h.1
  · exact h.2 disk hpast

/-- A call on a sound storage succeeds, and what a crash inside it leaves is one
of the states it allows for. -/
theorem call_sound {c : DiskClient} {m : MemClient} (h : ClientStores c m [])
    (hdurable : c.storage.dir.disk.Durable m.storage) {call : StorageCall}
    (hallows : MemClient.Allows { storage := c.storage.logical } call) :
    exists c', c.watched.call call = Except.ok c' ∧
      ClientStores c' (m.call call) [] ∧
      c'.storage.dir.disk.Durable (m.call call).storage ∧
      forall disk, c.CrashIn call disk ->
        exists m', Interrupted m.storage call (m.call call).storage m' ∧
          disk.Durable m' := by
  have hmallows : m.Allows call := by
    rw [h.storage.logical] at hallows
    cases call <;> exact hallows
  rcases h.watched.call hmallows (fun _ _ => unfinished_nil) with
    ⟨c', junk, hcall, ⟨n, hjunk, _⟩, hstores⟩
  rw [List.drop_nil] at hjunk
  subst hjunk
  have hdir : c.watched.storage.dir.Through (RaftDisk.Durable m.storage) :=
    ⟨hdurable, fun disk hdisk => by cases hdisk⟩
  rcases h.watched.call_leaves hdir hmallows hcall with ⟨hsettled, hthrough⟩
  refine ⟨c', hcall, hstores, hstores.storage.durable hsettled, ?_⟩
  rintro disk' ⟨c'', disk, hcall', hdisk, hsurvives⟩
  rw [hcall] at hcall'
  cases hcall'
  exact hthrough.mem hdisk disk' hsurvives

theorem crashInOpen_durable {disk disk' : RaftDisk} {m : MemStorage}
    (h : disk.Durable m) {stamp : Entry -> UInt64}
    (hcrash : CrashInOpen disk stamp disk') : disk'.Durable m := by
  rcases hcrash with ⟨s, mid, hopen, hmid, hsurvives⟩
  have hdir : ({ disk := disk } : RaftDir).Through (RaftDisk.Durable m) :=
    ⟨h, fun other hother => by cases hother⟩
  rcases DiskStorage.openDir_spec hdir.1.1 stamp with
    ⟨s', hopen', _, _, hthrough⟩
  rw [hopen] at hopen'
  cases hopen'
  exact ((hthrough hdir).mem hmid).survives hsurvives

theorem StorageStep.sound {state state' : StorageState}
    (hstep : StorageStep state state') (h : state.Sound) : state'.Sound := by
  cases hstep with
  | call hallows hcall =>
      rcases h with ⟨m, hstores, hdurable⟩
      rcases call_sound hstores hdurable hallows with
        ⟨c', hcall', hstores', hdurable', _⟩
      rw [hcall] at hcall'
      cases hcall'
      exact ⟨_, hstores', hdurable'⟩
  | crash hallows hcrash =>
      rcases h with ⟨m, hstores, hdurable⟩
      rcases call_sound hstores hdurable hallows with ⟨_, _, _, _, hleaves⟩
      rcases hleaves _ hcrash with ⟨m', _, hm'⟩
      exact ⟨m', hm'⟩
  | @opening disk stamp s hopen =>
      rcases h with ⟨m, hdurable⟩
      have hdir : ({ disk := disk } : RaftDir).Through (RaftDisk.Durable m) :=
        ⟨hdurable, fun other hother => by cases hother⟩
      rcases DiskStorage.openDir_spec hdir.1.1 stamp with
        ⟨s', hopen', hstores, _, hthrough⟩
      rw [hopen] at hopen'
      cases hopen'
      exact ⟨{ storage := m }, ClientStores.opened hstores, (hthrough hdir).1⟩
  | crashOpening hcrash =>
      rcases h with ⟨m, hdurable⟩
      exact ⟨m, crashInOpen_durable hdurable hcrash⟩

/-- In every run of calls, openings and crashes, a call succeeds, and a crash
inside it leaves files that open, once and again, with the state before it or the
state after it, or with that of part of an append.  So does a crash inside an
opening, with the state that was being opened. -/
theorem storage_crash_atomic {disk : RaftDisk} {start : MemStorage}
    (hstart : disk.Durable start) {state : StorageState}
    (hrun : Relation.ReflTransGen StorageStep (StorageState.down disk) state) :
    match state with
    | StorageState.up c => forall call,
        MemClient.Allows { storage := c.storage.logical } call ->
        exists c', c.watched.call call = Except.ok c' ∧
          forall disk', c.CrashIn call disk' ->
            exists m, Interrupted c.storage.logical call c'.storage.logical m ∧
              Reopens disk' m
    | StorageState.down disk => exists m, Reopens disk m ∧
        forall stamp disk', CrashInOpen disk stamp disk' -> Reopens disk' m := by
  have hsound : state.Sound := by
    induction hrun with
    | refl => exact ⟨start, hstart⟩
    | tail _ hstep ih => exact hstep.sound ih
  cases state with
  | up c =>
      rcases hsound with ⟨m, hstores, hdurable⟩
      intro call hallows
      rcases call_sound hstores hdurable hallows with
        ⟨c', hcall, hstores', _, hleaves⟩
      refine ⟨c', hcall, ?_⟩
      intro disk' hcrash
      rcases hleaves disk' hcrash with ⟨m', hinterrupted, hm'⟩
      rw [hstores.storage.logical, hstores'.storage.logical]
      exact ⟨m', hinterrupted, hm'.reopens⟩
  | down disk' =>
      rcases hsound with ⟨m, hdurable⟩
      exact ⟨m, hdurable.reopens,
        fun stamp other hcrash => (crashInOpen_durable hdurable hcrash).reopens⟩

theorem storage_crash_atomic_first_append :
    RaftDisk.Durable {} {} ∧
    exists s, DiskStorage.openDir {} (fun _ => 0) = Except.ok s ∧
      exists c', DiskClient.call (DiskClient.watched { storage := s })
          (StorageCall.append (fun _ => 0)
            [{ term := 1, index := 1, command := Command.data [7] }]) =
          Except.ok c' ∧
        forall disk', DiskClient.CrashIn { storage := s }
          (StorageCall.append (fun _ => 0)
            [{ term := 1, index := 1, command := Command.data [7] }]) disk' ->
          exists m, Interrupted s.logical
            (StorageCall.append (fun _ => 0)
              [{ term := 1, index := 1, command := Command.data [7] }])
            c'.storage.logical m ∧ Reopens disk' m := by
  have hempty : RaftDisk.Durable {} {} := ⟨holds_empty, rfl⟩
  rcases DiskStorage.openDir_spec
    (show ({} : RaftDir).disk.Holds {} from holds_empty) (fun _ => 0) with
    ⟨s, hopen, hstores, _⟩
  refine ⟨hempty, s, hopen, ?_⟩
  refine storage_crash_atomic hempty
    (Relation.ReflTransGen.single (StorageStep.opening hopen)) _ ⟨?_, by decide⟩
  rw [hstores.logical]
  exact ⟨rfl, trivial⟩

def lastVote : HardState where
  term := 1
  votedFor := some (2 ^ 64 - 1)

def lastVoteDisk (s : DiskStorage) : RaftDisk :=
  ((DiskClient.watched { storage := s }).storage.saveHardState lastVote).dir.disk

theorem reopened_lastVote :
    (DiskStorage.openDir {} (fun _ => 0)).toOption.bind (fun s =>
      (DiskStorage.openDir { disk := lastVoteDisk s }
        (fun _ => 0)).toOption.map (fun s' =>
          (s.hardState, (lastVoteDisk s).entries.synced,
            (lastVoteDisk s).entries.bytes, s'.hardState))) =
      some ({}, 0, [], { term := 1, votedFor := none }) := by
  decide +kernel

/-- A vote for the highest node id is gone once the storage has crashed. -/
theorem last_vote_lost_to_crash :
    exists s c disk,
      DiskStorage.openDir {} (fun _ => 0) = Except.ok s ∧
      DiskClient.call (DiskClient.watched { storage := s })
        (StorageCall.saveHardState lastVote) = Except.ok c ∧
      DiskClient.CrashIn { storage := s } (StorageCall.saveHardState lastVote)
        disk ∧
      forall m, Interrupted s.logical (StorageCall.saveHardState lastVote)
        c.storage.logical m -> ¬ Reopens disk m := by
  have hvalues := reopened_lastVote
  cases hopen : DiskStorage.openDir {} (fun _ => 0) with
  | error e =>
      rw [hopen] at hvalues
      cases hvalues
  | ok s =>
      rw [hopen] at hvalues
      rcases Option.map_eq_some_iff.mp hvalues with ⟨s', hs', hvalue⟩
      simp only [Prod.mk.injEq] at hvalue
      rcases hvalue with ⟨hbefore, hsynced, hbytes, hafter⟩
      have hsettled : (lastVoteDisk s).Settled := by
        unfold RaftDisk.Settled
        rw [hsynced, hbytes]
        rfl
      have hsaved : ((DiskClient.watched { storage := s }).storage.saveHardState
          lastVote).hardState = lastVote := by
        unfold DiskStorage.saveHardState
        split
        · next hsame => exact hsame.symm
        · rfl
      refine ⟨s, _, lastVoteDisk s, rfl, rfl, ⟨_, lastVoteDisk s, rfl,
        List.mem_cons_self, rfl, rfl, hsettled, _,
        (lastVoteDisk s).entries.synced_le, List.take_length.symm⟩, ?_⟩
      intro m hm hreopens
      rcases hreopens (fun _ => 0) with ⟨again, hagain, hlogical, _⟩
      rw [hagain] at hs'
      obtain rfl := Option.some.inj hs'
      have hhard : m.hardState = { term := 1, votedFor := none } := by
        rw [← hlogical]
        exact hafter
      rcases hm with rfl | rfl | ⟨_, _, _, hcall, _⟩
      · rw [show s.logical.hardState = s.hardState from rfl, hbefore] at hhard
        cases hhard
      · have hsame := hsaved.symm.trans hhard
        cases hsame
      · cases hcall

end Raft
end Minicask
