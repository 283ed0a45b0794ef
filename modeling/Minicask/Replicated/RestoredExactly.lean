import Minicask.Replicated.CanonicalSnapshots
import Minicask.Replicated.Restarts
import Minicask.Store.LongRecords

/-!
# A restore gives the snapshot, or nothing

A snapshot is a stream that is read one record at a time, and only its end shows
whether it was whole.  The inline restore walks it beside the store's own keys; the
one in the background writes it to a file that takes the place of all the others.
Either way the store is the stream's pairs, and a stream that breaks off leaves the
files of the store as they were.
-/

namespace Minicask
namespace Replicated

open Raft Replay

/-!
# Streams
-/

namespace SnapshotRecords

theorem nextRecord_some {records records' : SnapshotRecords}
    {pair : Bytes × Bytes}
    (h : records.nextRecord = Except.ok (some (pair, records'))) :
    records'.previous = some pair.1 ∧
      (forall p, records.previous = some p -> p < pair.1) ∧
      records'.reader.length < records.reader.length := by
  unfold nextRecord at h
  dsimp only at h
  split at h
  · cases h
  · split at h
    · cases h
    · next hheader =>
        split at h
        · cases h
        · split at h
          · cases h
          · split at h
            · cases h
            · split at h
              · cases h
              · next horder =>
                  cases h
                  constructor
                  · rfl
                  · constructor
                    · intro p hp
                      rw [hp, Option.any_some] at horder
                      apply List.not_le.mp
                      intro hle
                      exact horder (decide_eq_true hle)
                    · rw [not_not, List.length_take] at hheader
                      unfold headerLen at hheader ⊢
                      simp only [List.length_drop]
                      omega

/-- Keys come in order. -/
theorem Yields.ascending {records : SnapshotRecords}
    {pairs : List (Bytes × Bytes)} (h : Yields records pairs) :
    Ascending (pairs.map Prod.fst) ∧
      forall p, records.previous = some p ->
        forall key, key ∈ pairs.map Prod.fst -> p < key := by
  induction h with
  | done h =>
      exact ⟨List.Pairwise.nil, fun _ _ _ hkey => absurd hkey List.not_mem_nil⟩
  | @next records records' pair pairs h hrest ih =>
      rcases nextRecord_some h with ⟨hprevious, horder, _⟩
      rcases ih with ⟨hascending, hafter⟩
      have hgreater := hafter pair.1 hprevious
      constructor
      · exact List.pairwise_cons.mpr ⟨hgreater, hascending⟩
      · intro p hp key hkey
        rw [List.map_cons, List.mem_cons] at hkey
        rcases hkey with rfl | hkey
        · exact horder p hp
        · exact List.lt_trans (horder p hp) (hgreater key hkey)

theorem Yields.length_le {records : SnapshotRecords}
    {pairs : List (Bytes × Bytes)} (h : Yields records pairs) :
    pairs.length <= records.reader.length := by
  induction h with
  | done h => exact Nat.zero_le _
  | next h hrest ih =>
      have hshorter := (nextRecord_some h).2.2
      rw [List.length_cons]
      omega

theorem Yields.forEach {acc : Type}
    (f : acc -> Bytes -> Bytes -> Except Error acc) {records : SnapshotRecords}
    {pairs : List (Bytes × Bytes)} (h : Yields records pairs) {turns : Nat}
    (hturns : pairs.length < turns) (start : acc) :
    SnapshotRecords.forEach f turns records start =
      pairs.foldlM (fun found pair => f found pair.1 pair.2) start := by
  induction h generalizing turns start with
  | done h =>
      cases turns with
      | zero => cases hturns
      | succ turns =>
          rw [SnapshotRecords.forEach, h]
          rfl
  | next h hrest ih =>
      cases turns with
      | zero => cases hturns
      | succ turns =>
          rw [SnapshotRecords.forEach, h, List.foldlM_cons]
          exact bind_congr (fun found => ih (Nat.lt_of_succ_lt_succ hturns) found)

theorem Yields.readAll {acc : Type}
    (f : acc -> Bytes -> Bytes -> Except Error acc) {data : Bytes}
    {pairs : List (Bytes × Bytes)} (h : Yields { reader := data } pairs)
    (start : acc) :
    SnapshotRecords.readAll data f start =
      pairs.foldlM (fun found pair => f found pair.1 pair.2) start :=
  h.forEach f (Nat.lt_succ_of_le h.length_le) start

/-- A stream that is not whole is found out, if what is done with its records does
not fail before. -/
theorem forEach_error {acc : Type}
    (f : acc -> Bytes -> Bytes -> Except Error acc) {turns : Nat}
    {records : SnapshotRecords} (hbroken : ¬ exists pairs, Yields records pairs)
    (hturns : records.reader.length < turns) (start : acc) :
    exists e, SnapshotRecords.forEach f turns records start = Except.error e := by
  induction turns generalizing records start with
  | zero => cases hturns
  | succ turns ih =>
      rw [SnapshotRecords.forEach]
      cases hnext : records.nextRecord with
      | error e => exact ⟨e, rfl⟩
      | ok found =>
          cases found with
          | none => exact absurd ⟨[], Yields.done hnext⟩ hbroken
          | some found =>
              rcases found with ⟨⟨key, value⟩, records'⟩
              have hshorter := (nextRecord_some hnext).2.2
              dsimp only
              cases hf : f start key value with
              | error e => exact ⟨e, rfl⟩
              | ok state =>
                  apply ih
                  · intro hwhole
                    rcases hwhole with ⟨pairs, hpairs⟩
                    exact hbroken ⟨_, Yields.next hnext hpairs⟩
                  · omega

end SnapshotRecords

/-- A stream of valid records of live keys, none of them empty, in order. -/
structure Valid (data : Bytes) (pairs : List (Bytes × Bytes)) : Prop where
  yields : SnapshotRecords.Yields { reader := data } pairs
  nonempty : forall pair, pair ∈ pairs -> pair.1 ≠ []

theorem records_of_fits {pairs : List (Bytes × Bytes)}
    (hnonempty : forall pair, pair ∈ pairs -> pair.1 ≠ [])
    (hfits : forall pair, pair ∈ pairs -> Fits pair.1 pair.2) :
    exists rs : List Rec, pairs = rs.map (fun r => (r.key, r.payload)) ∧
      (forall r, r ∈ rs -> r.value ≠ none) ∧
      rs.map Rec.write = pairs.map
        (fun pair => { key := pair.1, value := some pair.2 }) := by
  induction pairs with
  | nil => exact ⟨[], rfl, fun _ hr => absurd hr List.not_mem_nil, rfl⟩
  | cons pair pairs ih =>
      rcases ih (fun other hin => hnonempty other (List.mem_cons_of_mem pair hin))
        (fun other hin => hfits other (List.mem_cons_of_mem pair hin)) with
        ⟨rs, hpairs, hlive, hwrites⟩
      exists (⟨pair.1, some pair.2, 0, hnonempty pair List.mem_cons_self,
        hfits pair List.mem_cons_self⟩ : Rec) :: rs
      constructor
      · rw [List.map_cons, ← hpairs]
        rfl
      · constructor
        · intro r hr
          rw [List.mem_cons] at hr
          rcases hr with rfl | hr
          · exact Option.some_ne_none _
          · exact hlive r hr
        · rw [List.map_cons, hwrites]
          rfl

theorem Valid.streams {data : Bytes} {pairs : List (Bytes × Bytes)}
    (h : Valid data pairs)
    (hfits : forall pair, pair ∈ pairs -> Fits pair.1 pair.2) :
    Streams data (fun key => pairs.lookup key) := by
  have hascending := h.yields.ascending.1
  rcases records_of_fits h.nonempty hfits with ⟨rs, hpairs, hlive, hwrites⟩
  exists rs
  constructor
  · intro acc f start
    rw [h.yields.readAll, hpairs, List.foldlM_map]
  · constructor
    · rw [hpairs, List.map_map] at hascending
      exact hascending
    · constructor
      · exact hlive
      · funext key
        rw [hwrites, replay_pairs hascending.nodup]
        exact Option.or_none

/-!
# A store that is the snapshot already
-/

/-- A store answers from a list of pairs, and lists their keys. -/
structure Answers (s : Store) (pairs : List (Bytes × Bytes)) : Prop where
  get : forall key, s.get key = Except.ok (pairs.lookup key)
  keys : forall key, key ∈ s.keys ↔ key ∈ pairs.map Prod.fst

theorem answers_of_indexes {s : Store} {pairs : List (Bytes × Bytes)}
    (hok : s.Ok) (h : s.Indexes (fun key => pairs.lookup key)) :
    Answers s pairs := by
  constructor
  · exact Store.get_eq hok h
  · intro key
    rw [Store.mem_keys_iff h key, List.lookup_isSome_iff]
    simp

/-- No byte was appended to any file, and the index is as it was. -/
structure AppendedNothing (s s' : Store) : Prop where
  fileId : s'.writer.fileId = s.writer.fileId
  offset : s'.writer.offset = s.writer.offset
  contents : forall id, s'.contents id = s.contents id
  readers : s'.readers = s.readers
  keydir : s'.keydir = s.keydir

theorem ascending_ext {keys keys' : List Bytes} (h : Ascending keys)
    (h' : Ascending keys') (hsame : forall key, key ∈ keys ↔ key ∈ keys') :
    keys = keys' := by
  have hperm : keys.Perm keys' :=
    (List.perm_ext_iff_of_nodup h.nodup h'.nodup).mpr hsame
  apply hperm.eq_of_pairwise _ h h'
  intro a b _ _ hab hba
  exact absurd (List.lt_trans hab hba) (List.lt_irrefl _)

theorem lookup_of_mem {pairs : List (Bytes × Bytes)}
    (hnodup : (pairs.map Prod.fst).Nodup) {pair : Bytes × Bytes}
    (h : pair ∈ pairs) : pairs.lookup pair.1 = some pair.2 := by
  induction pairs with
  | nil => cases h
  | cons first pairs ih =>
      rw [List.map_cons, List.nodup_cons] at hnodup
      rw [List.mem_cons] at h
      rcases h with rfl | h
      · exact List.lookup_cons_self
      · have hne : (pair.1 == first.1) = false := by
          apply beq_eq_false_iff_ne.mpr
          intro heq
          exact hnodup.1 (heq ▸ List.mem_map_of_mem h)
        rw [List.lookup_cons, hne]
        exact ih hnodup.2 h

/-- Where the store has each pair of the snapshot and no other, nothing is written. -/
theorem foldlM_restoreRecord_same (env : Env) {s : Store}
    {pairs : List (Bytes × Bytes)} (hascending : Ascending (pairs.map Prod.fst))
    (hget : forall pair, pair ∈ pairs ->
      s.get pair.1 = Except.ok (some pair.2)) :
    pairs.foldlM (fun state pair => restoreRecord env state pair.1 pair.2)
      (s, pairs.map Prod.fst) = Except.ok (s, []) := by
  induction pairs with
  | nil => rfl
  | cons pair pairs ih =>
      rw [List.map_cons, Ascending, List.pairwise_cons] at hascending
      have hrecord : restoreRecord env (s, (pair :: pairs).map Prod.fst) pair.1
          pair.2 = Except.ok (s, pairs.map Prod.fst) := by
        have hirrefl : decide (pair.1 < pair.1) = false :=
          decide_eq_false (List.lt_irrefl _)
        unfold restoreRecord
        dsimp only
        rw [List.map_cons, List.takeWhile_cons, List.dropWhile_cons, hirrefl]
        simp [Except.bind, pure, Except.pure, hget pair List.mem_cons_self]
      rw [List.foldlM_cons, hrecord]
      exact ih hascending.2
        (fun other hin => hget other (List.mem_cons_of_mem pair hin))

theorem restore_same (env : Env) {r : ReplicatedStore}
    {pairs : List (Bytes × Bytes)} (hok : r.store.Ok)
    (hvalid : Valid r.node.storage.snapshot pairs)
    (hanswers : Answers r.store pairs) :
    exists done, r.restore env = Except.ok done ∧
      AppendedNothing r.store done.store := by
  have hascending := hvalid.yields.ascending.1
  have hheld : r.store.keys.insertionSort (· <= ·) = pairs.map Prod.fst := by
    apply ascending_ext (ascending_keys r.store) hascending
    intro key
    rw [List.mem_insertionSort, hanswers.keys key]
  have hloop := foldlM_restoreRecord_same env hascending (s := r.store) (by
    intro pair hpair
    rw [hanswers.get, lookup_of_mem hascending.nodup hpair])
  exists { r with
    store := writeApplied r.store.sync r.snapshotIndex
    applied := r.snapshotIndex }
  constructor
  · unfold ReplicatedStore.restore
    dsimp only
    rw [hvalid.yields.readAll, hheld, hloop]
    rfl
  · have hadvanced := Store.advanced_sync hok
    constructor
    · exact hadvanced.appended.fileId
    · exact hadvanced.appended.offset hok.writer
    · intro id
      have hcontents := hadvanced.contents id
      rw [ite_self, List.append_nil] at hcontents
      exact hcontents
    · rfl
    · rfl

/-!
# Records that are too long
-/

/-- A record that is too long is put whatever the store has of its key. -/
theorem cut_of_restoreRecord {env : Env} {s : Store} {held : List Bytes}
    {key value : Bytes} {state : Store × List Bytes} (h : Sure s)
    (hlong : ¬ Fits key value)
    (hrecord : restoreRecord env (s, held) key value = Except.ok state) :
    exists bytes now, encode key (some value) now = Except.ok bytes ∧
      ¬ bytes.length < 2 ^ 32 ∧ state.1.Cut key bytes := by
  rcases restoreRecord_cases hrecord with
    ⟨s', hdeletes, ⟨hget, _⟩ | ⟨now, later, hput⟩⟩
  · have hsure : Sure s' := written_sure.deleteAll env h hdeletes
    rcases hsure.1.indexes with ⟨m, hindexes⟩
    rw [Store.get_eq hsure.1.ok hindexes] at hget
    have hvalue : m key = some value := Except.ok.inj hget
    cases hlookup : s'.keydir.lookup key with
    | none =>
        rw [(hindexes.live key).mp hlookup] at hvalue
        cases hvalue
    | some loc =>
        rcases hindexes.held key loc hlookup with ⟨r, hkey, hheld, _⟩
        have hshort := r.short
        rw [hkey, hheld, hvalue] at hshort
        exact absurd hshort hlong
  · have hsure : Sure s' := written_sure.deleteAll env h hdeletes
    rcases Store.cut_of_putWith hsure.1.ok hput with ⟨bytes, hencode, hcut⟩
    exists bytes, now
    constructor
    · exact hencode
    · constructor
      · rw [length_encoded hencode]
        exact hlong
      · exact hcut

theorem Cut.restoreRecord {env : Env} {s : Store} {held : List Bytes}
    {key other value bytes : Bytes} {state : Store × List Bytes}
    (h : s.Cut key bytes) (hne : key ≠ other)
    (hrecord : Replicated.restoreRecord env (s, held) other value =
      Except.ok state) : state.1.Cut key bytes := by
  rcases restoreRecord_cases hrecord with
    ⟨s', hdeletes, hrest⟩
  have hcut : s'.Cut key bytes :=
    deleteAll_keeps (fun h hdelete => Store.Cut.deleteWith h hdelete) env h
      hdeletes
  rcases hrest with ⟨_, hsame⟩ | ⟨now, later, hput⟩
  · rw [hsame]
    exact hcut
  · exact hcut.putWith hne hput

theorem Cut.records {env : Env} {key bytes : Bytes}
    {pairs : List (Bytes × Bytes)} (hother : key ∉ pairs.map Prod.fst)
    {state state' : Store × List Bytes} (h : state.1.Cut key bytes)
    (hloop : pairs.foldlM (fun state pair =>
      Replicated.restoreRecord env state pair.1 pair.2) state =
        Except.ok state') : state'.1.Cut key bytes := by
  apply Fallible.foldlM_keeps (P := fun state => state.1.Cut key bytes) _ h hloop
  intro pair hpair state next hcut hrecord
  apply Cut.restoreRecord hcut _ hrecord
  intro heq
  exact hother (heq ▸ List.mem_map_of_mem hpair)

/-- Of the records that are too long the first stays unread. -/
theorem cut_of_records {env : Env} {pairs : List (Bytes × Bytes)}
    (hnodup : (pairs.map Prod.fst).Nodup)
    (hlong : ¬ forall pair, pair ∈ pairs -> Fits pair.1 pair.2)
    {state state' : Store × List Bytes} (h : Sure state.1)
    (hloop : pairs.foldlM (fun state pair =>
      restoreRecord env state pair.1 pair.2) state = Except.ok state') :
    exists pair bytes now, pair ∈ pairs ∧
      encode pair.1 (some pair.2) now = Except.ok bytes ∧
      ¬ bytes.length < 2 ^ 32 ∧ state'.1.Cut pair.1 bytes := by
  induction pairs generalizing state with
  | nil => exact absurd (fun _ hpair => absurd hpair List.not_mem_nil) hlong
  | cons pair pairs ih =>
      rw [List.map_cons, List.nodup_cons] at hnodup
      rcases Fallible.foldlM_cons_eq_ok hloop with ⟨next, hrecord, hrest⟩
      by_cases hfits : Fits pair.1 pair.2
      · have hothers : ¬ forall other, other ∈ pairs ->
            Fits other.1 other.2 := by
          intro hothers
          apply hlong
          intro other hin
          rw [List.mem_cons] at hin
          rcases hin with rfl | hin
          · exact hfits
          · exact hothers other hin
        rcases ih hnodup.2 hothers
          (written_sure.restoreRecord env h hfits hrecord) hrest with
          ⟨found, bytes, now, hin, hencode, hnot, hcut⟩
        exact ⟨found, bytes, now, List.mem_cons_of_mem pair hin, hencode,
          hnot, hcut⟩
      · rcases cut_of_restoreRecord h hfits hrecord with
          ⟨bytes, now, hencode, hnot, hcut⟩
        exact ⟨pair, bytes, now, List.mem_cons_self, hencode, hnot,
          Cut.records hnodup.1 hcut hrest⟩

/-- A restore that ends in what the stream says has read no record that is too
long. -/
theorem fits_of_restore {env : Env} {r done : ReplicatedStore}
    {pairs : List (Bytes × Bytes)} (h : Sure r.store)
    (hvalid : Valid r.node.storage.snapshot pairs)
    (hrestore : r.restore env = Except.ok done)
    (hanswers : Answers done.store pairs) :
    forall pair, pair ∈ pairs -> Fits pair.1 pair.2 := by
  by_contra hlong
  have hnodup := hvalid.yields.ascending.1.nodup
  rcases ReplicatedStore.restore_eq_ok hrestore with
    ⟨state, s, hread, hdeletes, rfl⟩
  rw [hvalid.yields.readAll] at hread
  have hsure : Sure (r.store, r.store.keys.insertionSort (· <= ·)).1 := h
  rcases cut_of_records hnodup hlong hsure hread with
    ⟨pair, bytes, now, hpair, hencode, hnot, hcut⟩
  have hs : s.Cut pair.1 bytes :=
    deleteAll_keeps (fun h hdelete => Store.Cut.deleteWith h hdelete) env hcut
      hdeletes
  have hget := hanswers.get pair.1
  rw [lookup_of_mem hnodup hpair] at hget
  exact hs.sync.get_ne hencode hnot pair.2 hget

/-!
# In the background
-/

/-- The restore in the background gets to its end, and what is installed answers
from some pairs; applying carries on from there, and when the log has nothing that
is newer it ends there. -/
def RunsTo (r : ReplicatedStore) (pairs : List (Bytes × Bytes)) : Prop :=
  exists job r' done dir, r.startRestore = (some job, r') ∧
    job.run r'.store.dir = Except.ok (done, dir) ∧
    Answers (installed (withDir r' dir) done).store pairs ∧
    forall env,
      (withDir r' dir).finishRestore env done =
        (installed (withDir r' dir) done).apply env ∧
      ((forall entry, entry ∈ r.node.takeCommitted.2 ->
          entry.index <= r.snapshotIndex) ->
        exists final, (withDir r' dir).finishRestore env done =
            Except.ok final ∧
          final.applied = r.snapshotIndex ∧ Answers final.store pairs)

/-- Where the log has nothing newer than the applied index there is nothing to
apply. -/
theorem apply_nothing {r : ReplicatedStore} (env : Env)
    (hbackground : r.backgroundSnapshots = true)
    (hlevel : r.snapshotIndex <= r.applied)
    (hold : forall entry, entry ∈ r.node.takeCommitted.2 ->
      entry.index <= r.applied) :
    r.apply env = Except.ok { r with node := r.node.takeCommitted.1 } := by
  have hnot : ¬ r.snapshotIndex > r.applied := Nat.not_lt_of_le hlevel
  unfold ReplicatedStore.apply
  rw [if_neg (by simp [hnot]), if_neg hnot]
  dsimp only [Except.bind]
  rw [foldlM_applyEntry_old env hold]
  dsimp only
  rw [if_neg (Nat.lt_irrefl _), if_pos hbackground]

theorem starts {r : ReplicatedStore} (h : Sure r.store)
    (hbackground : r.backgroundSnapshots = true)
    (hrestoring : r.restoring = false)
    (hbehind : r.applied < r.snapshotIndex) :
    exists begun s, s.Ok ∧ s.Reserved begun.id begun.oldIds ∧ begun.Of [] ∧
      r.startRestore =
        (some
          { job := begun
            reader := r.node.storage.snapshot
            index := r.snapshotIndex },
          { r with store := s, restoring := true }) := by
  have halive := h.1
  rcases halive.indexes with ⟨m, hindexes⟩
  rcases Store.beginRestore_spec halive.ok hindexes halive.out.1
    halive.out.2.1 with ⟨begun, s, hbegin, hok, _, _, _, _, _, hslot, hof⟩
  have hdue : ¬ (!r.backgroundSnapshots || r.restoring ||
      decide (r.snapshotIndex <= r.applied)) = true := by
    simp [hbackground, hrestoring, hbehind]
  exists begun, s
  constructor
  · exact hok
  · constructor
    · exact hslot
    · constructor
      · exact hof
      · unfold ReplicatedStore.startRestore
        rw [if_neg hdue, hbegin]

theorem runs_to {r : ReplicatedStore} {pairs : List (Bytes × Bytes)}
    (h : Sure r.store) (hbackground : r.backgroundSnapshots = true)
    (hrestoring : r.restoring = false) (hbehind : r.applied < r.snapshotIndex)
    (hvalid : Valid r.node.storage.snapshot pairs)
    (hfits : forall pair, pair ∈ pairs -> Fits pair.1 pair.2) :
    RunsTo r pairs := by
  rcases starts h hbackground hrestoring hbehind with
    ⟨begun, s, hok, hslot, hof, hstart⟩
  let job : RestoreJob :=
    { job := begun
      reader := r.node.storage.snapshot
      index := r.snapshotIndex }
  have hstreams : Streams job.reader (fun key => pairs.lookup key) :=
    hvalid.streams hfits
  have hpushed : job.job.Of [] := hof
  rcases RestoreJob.run_spec hstreams hslot hpushed with
    ⟨done, dir, bytes, hrun, hplaced, _, hindex, hfile⟩
  rcases Store.finishRestore_spec (hok.placed hslot hplaced) hfile with
    ⟨hok', hindexes', _⟩
  have htakes : Takes (Store.finishRestore { s with dir := dir } done.file)
      (fun key => pairs.lookup key) := ⟨hok', hindexes', rfl⟩
  have hwritten := (htakes.sync.1.writeApplied done.index).1
  have hanswers := answers_of_indexes hwritten.ok hwritten.indexes
  exists job, { r with store := s, restoring := true }, done, dir
  constructor
  · exact hstart
  · constructor
    · exact hrun
    · constructor
      · exact hanswers
      · intro env
        constructor
        · rfl
        · intro hold
          have hlevel : r.snapshotIndex <= done.index :=
            Nat.le_of_eq hindex.symm
          have happly := apply_nothing
            (r := installed (withDir
              { r with store := s, restoring := true } dir) done)
            env hbackground hlevel
            (fun entry hin => Nat.le_trans (hold entry hin) hlevel)
          rw [finishRestore_eq, happly]
          exact ⟨_, rfl, hindex, hanswers⟩

/-!
# A stream that breaks off
-/

def givenUp (r : ReplicatedStore) (job : RestoreJob) (part : Bytes) :
    ReplicatedStore :=
  (withDir r (job.job.drop (r.store.dir.writePart job.job.id part))).abandonRestore

/-- Two stores answer alike, and list the same keys. -/
structure Alike (s s' : Store) : Prop where
  get : forall key, s'.get key = s.get key
  keys : forall key, key ∈ s'.keys ↔ key ∈ s.keys

theorem alike_of_indexes {s s' : Store} {m : Contents} (hok : s.Ok)
    (h : s.Indexes m) (hok' : s'.Ok) (h' : s'.Indexes m) : Alike s s' := by
  constructor
  · intro key
    rw [Store.get_eq hok' h', Store.get_eq hok h]
  · intro key
    rw [Store.mem_keys_iff h' key, Store.mem_keys_iff h key]

/-- A restore in the background, which begins when it is due, does not get to its end
and is undone in memory and on disk. -/
def Undone (r : ReplicatedStore) : Prop :=
  (r.backgroundSnapshots = true -> r.restoring = false ->
    r.applied < r.snapshotIndex ->
    exists job r', r.startRestore = (some job, r')) ∧
  forall job r', r.startRestore = (some job, r') ->
    (forall dir, exists e, job.run dir = Except.error e) ∧
    forall part, Alike r.store (givenUp r' job part).store ∧
      forall dir, (dir = (givenUp r' job part).store.close ∨
          dir = { disk := (givenUp r' job part).store.dir.disk }) ->
        forall opts, exists s, Store.openWith dir opts = Except.ok s ∧
          Alike r.store s

theorem Sure.givenUp {s s' : Store} {job : Minicask.RestoreJob} {m : Contents}
    (h : Sure s) (hindexes : s.Indexes m)
    (hbegin : s.beginRestore = Except.ok (job, s')) (part : Bytes) :
    Sure { s'.abandonRestore with
      dir := job.drop (s'.dir.writePart job.id part) } ∧
    Store.Indexes { s'.abandonRestore with
      dir := job.drop (s'.dir.writePart job.id part) } m ∧
    s'.writer.pending = [] := by
  have halive := h.1
  have hbacked : Backed s Out.idle := h.2
  have halive' := halive.beginRestore hbegin
  rcases hbacked.beginRestore halive hbegin with ⟨hreplayed, hbare, _⟩
  rcases Store.beginRestore_spec halive.ok hindexes halive.out.1
    halive.out.2.1 with ⟨_, _, hbegin', _, hindexes', _⟩
  rw [hbegin', Except.ok.injEq] at hbegin
  cases hbegin
  rcases halive'.charted with ⟨chart, hcharted⟩
  have hsound : Dir.SoundAs _ chart := ⟨halive'.through, hcharted.soundAs⟩
  have hpart := (hsound.writePart job.id part).removePart job.id
  constructor
  · constructor
    · exact halive'.abandoned halive'.out.2.2.1 rfl rfl rfl rfl rfl rfl
        hpart.through halive'.out.1 rfl
    · exact hreplayed.flagged rfl rfl rfl rfl rfl rfl
  · constructor
    · exact hindexes'.flagged rfl rfl rfl rfl
    · have hoffset := halive'.ok.writer.offset
      rw [hbare.empty] at hoffset
      apply List.eq_nil_of_length_eq_zero
      omega

/-- What is left of a store opens to it. -/
theorem Sure.left {s : Store} {m : Contents} (h : Sure s)
    (hindexes : s.Indexes m) {dir : Dir} (hleaves : s.Leaves dir)
    (opts : Options) :
    exists s', Store.openWith dir opts = Except.ok s' ∧ Alike s s' := by
  rcases h.2.backs h.1 with ⟨m', chart, hbacks⟩
  have hsame := indexes_unique h.1.ok hbacks.indexes hindexes
  rcases hbacks.reopen hleaves opts with ⟨s', hopen, hbacks'⟩
  rw [hsame] at hbacks'
  exact ⟨s', hopen, alike_of_indexes h.1.ok hindexes hbacks'.ok
    hbacks'.indexes⟩

theorem foldlM_push_error {pairs : List (Bytes × Bytes)}
    (hempty : exists pair, pair ∈ pairs ∧ pair.1 = [])
    (job : Minicask.RestoreJob) :
    exists e, pairs.foldlM (fun (job : Minicask.RestoreJob) pair =>
      job.push pair.1 pair.2) job = Except.error e := by
  induction pairs generalizing job with
  | nil =>
      rcases hempty with ⟨pair, hin, _⟩
      cases hin
  | cons pair pairs ih =>
      rw [List.foldlM_cons]
      cases hpush : job.push pair.1 pair.2 with
      | error e => exact ⟨e, rfl⟩
      | ok next =>
          apply ih
          rcases hempty with ⟨other, hin, hother⟩
          rw [List.mem_cons] at hin
          rcases hin with rfl | hin
          · rw [hother] at hpush
            cases hpush
          · exact ⟨other, hin, hother⟩

/-- A stream that is not valid ends no restore. -/
theorem run_error {job : RestoreJob}
    (h : ¬ exists pairs, Valid job.reader pairs) (dir : Dir) :
    exists e, job.run dir = Except.error e := by
  have hread : exists e, SnapshotRecords.readAll job.reader
      Minicask.RestoreJob.push job.job = Except.error e := by
    by_cases hwhole : exists pairs,
        SnapshotRecords.Yields { reader := job.reader } pairs
    · rcases hwhole with ⟨pairs, hyields⟩
      rw [hyields.readAll]
      apply foldlM_push_error
      by_contra hnone
      exact h ⟨pairs, hyields, fun pair hin heq => hnone ⟨pair, hin, heq⟩⟩
    · exact SnapshotRecords.forEach_error _ hwhole (Nat.lt_succ_self _) _
  rcases hread with ⟨e, hread⟩
  exists e
  unfold RestoreJob.run
  rw [hread]
  rfl

theorem undone_of_started {r r' : ReplicatedStore} {job : RestoreJob}
    (h : Sure r.store)
    (hbroken : ¬ exists pairs, Valid r.node.storage.snapshot pairs)
    (hstart : r.startRestore = (some job, r')) :
    (forall dir, exists e, job.run dir = Except.error e) ∧
    forall part, Alike r.store (givenUp r' job part).store ∧
      forall dir, (dir = (givenUp r' job part).store.close ∨
          dir = { disk := (givenUp r' job part).store.dir.disk }) ->
        forall opts, exists s, Store.openWith dir opts = Except.ok s ∧
          Alike r.store s := by
  rcases startRestore_cases hstart with ⟨begun, s, hbegin, rfl, rfl⟩
  rcases h.1.indexes with ⟨m, hindexes⟩
  constructor
  · intro dir
    exact run_error hbroken dir
  · intro part
    rcases h.givenUp hindexes hbegin part with ⟨hsure, hindexes', hpending⟩
    have halike := alike_of_indexes h.1.ok hindexes hsure.1.ok hindexes'
    constructor
    · exact halike
    · intro dir hdir opts
      have hleaves : Store.Leaves (givenUp { r with
          store := s
          restoring := true }
          { job := begun
            reader := r.node.storage.snapshot
            index := r.snapshotIndex } part).store dir := by
        rcases hdir with hclosed | hkilled
        · exact Or.inl hclosed
        · exact Or.inr ⟨hpending, hkilled⟩
      rcases hsure.left hindexes' hleaves opts with ⟨s', hopen, hsame⟩
      exists s'
      constructor
      · exact hopen
      · constructor
        · intro key
          rw [← halike.get key]
          exact hsame.get key
        · intro key
          rw [← halike.keys key]
          exact hsame.keys key

theorem undone {r : ReplicatedStore} (h : Sure r.store)
    (hbroken : ¬ exists pairs, Valid r.node.storage.snapshot pairs) :
    Undone r := by
  constructor
  · intro hbackground hrestoring hbehind
    rcases starts h hbackground hrestoring hbehind with
      ⟨begun, s, _, _, _, hstart⟩
    exact ⟨_, _, hstart⟩
  · intro job r' hstart
    exact undone_of_started h hbroken hstart

/-!
# Either way
-/

/-- Both restores end in the pairs of a stream, and where the store had them already
nothing is appended. -/
structure Restores (r : ReplicatedStore) (pairs : List (Bytes × Bytes)) :
    Prop where
  inline : forall env, exists done, r.restore env = Except.ok done ∧
    Answers done.store pairs
  same : Answers r.store pairs -> forall env, exists done,
    r.restore env = Except.ok done ∧ AppendedNothing r.store done.store
  background : r.backgroundSnapshots = true -> r.restoring = false ->
    r.applied < r.snapshotIndex -> RunsTo r pairs

theorem restores_of_fits {r : ReplicatedStore} {pairs : List (Bytes × Bytes)}
    (h : Sure r.store) (hvalid : Valid r.node.storage.snapshot pairs)
    (hfits : forall pair, pair ∈ pairs -> Fits pair.1 pair.2) :
    Restores r pairs := by
  rcases h.1.indexes with ⟨m, hindexes⟩
  constructor
  · intro env
    rcases restore_spec env (h.takes hindexes) (hvalid.streams hfits) with
      ⟨s, hrestore, htakes, _⟩
    exact ⟨_, hrestore, answers_of_indexes htakes.ok htakes.indexes⟩
  · intro hanswers env
    exact restore_same env h.1.ok hvalid hanswers
  · intro hbackground hrestoring hbehind
    exact runs_to h hbackground hrestoring hbehind hvalid hfits

/-- On any store, whatever it has been through, a restore from a valid stream makes
it exactly the stream's pairs, inline or in the background, if and only if each of
them fits in a record; and one from any other stream is undone. -/
theorem restored_exactly_iff {r : ReplicatedStore} {s : Store}
    {applied : Option Bytes} (h : History Fits (Life.up s Out.idle))
    (hstore : r.store = beside s applied) :
    (forall pairs, Valid r.node.storage.snapshot pairs ->
      (Restores r pairs ↔
        forall pair, pair ∈ pairs -> Fits pair.1 pair.2)) ∧
    ((¬ exists pairs, Valid r.node.storage.snapshot pairs) -> Undone r) := by
  have hsure : Sure r.store := by
    rw [hstore]
    exact (steady_beside h applied).sure
  constructor
  · intro pairs hvalid
    constructor
    · intro hrestores
      let env : Env := { clock := fun _ => (0, 0), fragmented := fun _ => false }
      rcases hrestores.inline env with ⟨done, hrestore, hanswers⟩
      exact fits_of_restore hsure hvalid hrestore hanswers
    · exact restores_of_fits hsure hvalid
  · exact undone hsure

theorem valid_single {key value snapshot : Bytes}
    (h : encode key (some value) 0 = Except.ok snapshot) (hkey : key ≠ []) :
    Valid snapshot [(key, value)] := by
  have hnext := SnapshotRecords.nextRecord_encoded h [] 0
    (fun p (hp : none = some p) => by cases hp)
  rw [List.append_nil] at hnext
  constructor
  · exact SnapshotRecords.Yields.next hnext (SnapshotRecords.Yields.done rfl)
  · intro pair hpair
    rw [List.mem_singleton.mp hpair]
    exact hkey

theorem SnapshotOf.valid {pairs : List (Bytes × Bytes)} {data : Bytes}
    (h : SnapshotOf pairs data)
    (hfits : forall pair, pair ∈ pairs -> Fits pair.1 pair.2) : Valid data pairs := by
  rcases h.records hfits with ⟨rs, hdata, hwrites, hkeys, hlive⟩
  have hpairs : rs.map (fun r => (r.key, r.payload)) = pairs := by
    have hmapped := congrArg (List.map fun w => (w.key, w.value.getD [])) hwrites
    rw [List.map_map, List.map_map] at hmapped
    refine hmapped.trans ?_
    exact List.map_id pairs
  constructor
  · rw [hdata, ← hpairs]
    exact SnapshotRecords.yields_join (hkeys ▸ h.ascending) hlive 0 nofun
  · intro pair hpair
    rw [← hpairs, List.mem_map] at hpair
    rcases hpair with ⟨r, _, rfl⟩
    exact r.nonempty

/-- On a store of three files, one of whose keys is not in the stream.  A byte in
front of the stream is enough for nothing to come of it. -/
theorem restored_exactly_iff_sample :
    Restores (overtaken shippedSnapshot) shipped ∧
      RunsTo (overtaken shippedSnapshot) shipped ∧
      [9] ∈ (overtaken shippedSnapshot).store.keys ∧
      Undone (overtaken (0 :: shippedSnapshot)) := by
  have hvalid : Valid (overtaken shippedSnapshot).node.storage.snapshot shipped := by
    show Valid (received shippedSnapshot).node.storage.snapshot shipped
    rw [received_storage]
    exact snapshotOf_shipped.valid fits_shipped
  have hrestores : Restores (overtaken shippedSnapshot) shipped :=
    ((restored_exactly_iff history_stocked rfl).1 _ hvalid).mpr fits_shipped
  constructor
  · exact hrestores
  · constructor
    · exact hrestores.background rfl rfl behind_overtaken.behind
    · constructor
      · decide +kernel
      · apply (restored_exactly_iff history_stocked rfl).2
        show ¬ exists pairs,
          Valid (received (0 :: shippedSnapshot)).node.storage.snapshot pairs
        rw [received_storage]
        intro hwhole
        rcases hwhole with ⟨pairs, hpairs⟩
        cases hpairs.yields with
        | done h => cases h
        | next h _ => cases h

/-- A value of 2^32 - 21 bytes, which the snapshot has room for. -/
theorem long_pair_is_not_restored :
    exists (value snapshot : Bytes), value.length = 2 ^ 32 - 21 ∧
      History Fits (Life.up (newStore {}) Out.idle) ∧
      (received snapshot).store = beside (newStore {}) none ∧
      Valid (received snapshot).node.storage.snapshot [([7], value)] ∧
      (forall s, ¬ Answers s [([7], value)]) ∧
      ¬ Restores (received snapshot) [([7], value)] := by
  have hvalue : exists value : Bytes, value.length = 2 ^ 32 - 21 :=
    ⟨List.replicate (2 ^ 32 - 21) 0, List.length_replicate⟩
  rcases hvalue with ⟨value, hvalue⟩
  have hencode : exists snapshot,
      encode [7] (some value) 0 = Except.ok snapshot := by
    unfold encode
    rw [if_neg (show ¬ List.isEmpty [(7 : UInt8)] = true by decide),
      if_neg (show ¬ [(7 : UInt8)].length > u32Max by decide)]
    dsimp only [Option.getD_some]
    rw [if_neg (by rw [hvalue]; decide)]
    exact ⟨_, rfl⟩
  rcases hencode with ⟨snapshot, hencode⟩
  have hunanswered : forall s, ¬ Answers s [([7], value)] := by
    intro s hanswers
    have hget := hanswers.get [7]
    rw [List.lookup_cons_self] at hget
    have hshort := length_of_get hget
    rw [hvalue] at hshort
    exact absurd hshort (by decide)
  exists value, snapshot
  constructor
  · exact hvalue
  · constructor
    · exact History.opened History.new (openWith_nothing {})
    · constructor
      · rfl
      · constructor
        · rw [received_storage]
          exact valid_single hencode (List.cons_ne_nil _ _)
        · constructor
          · exact hunanswered
          · intro hrestores
            let env : Env :=
              { clock := fun _ => (0, 0), fragmented := fun _ => false }
            rcases hrestores.inline env with ⟨done, _, hanswers⟩
            exact hunanswered done.store hanswers

end Replicated
end Minicask
