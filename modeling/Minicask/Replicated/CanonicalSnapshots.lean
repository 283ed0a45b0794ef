import Minicask.Replicated.Contents
import Minicask.Store.FrozenViews

/-!
# Snapshots are canonical and lossless

The bytes of a snapshot depend on the store's map alone: not on where its records
lie, when they were written, or what became of the store since its view was taken.
Reading them gives the map back.
-/

namespace Minicask
namespace Replicated

open Raft Replay

/-- There is one list of records for each map. -/
theorem Canonical.unique {rs rs' : List Rec} {m : Contents}
    (h : Canonical rs m) (h' : Canonical rs' m) : rs = rs' := by
  have hsub : forall {rs rs' : List Rec}, Canonical rs m -> Canonical rs' m ->
      forall r, r ∈ rs -> r ∈ rs' := by
    intro rs rs' h h' r hr
    rcases h.values r hr with ⟨hvalue, hlive⟩
    rcases List.mem_map.mp (h'.live r.key (hvalue ▸ hlive)) with
      ⟨r', hr', hkey⟩
    have hsame : r = r' := by
      have hvalue' := (h'.values r' hr').1
      have htstamp := (h.tstamps r hr).trans (h'.tstamps r' hr').symm
      rw [hkey, ← hvalue] at hvalue'
      cases r
      cases r'
      simp_all
    rw [hsame]
    exact hr'
  have hnodup := h.ascending.nodup.of_map Rec.key
  have hnodup' := h'.ascending.nodup.of_map Rec.key
  have hperm : rs.Perm rs' := by
    rw [List.perm_ext_iff_of_nodup hnodup hnodup']
    intro r
    exact ⟨hsub h h' r, hsub h' h r⟩
  have horder := List.pairwise_map.mp h.ascending
  have horder' := List.pairwise_map.mp h'.ascending
  apply hperm.eq_of_pairwise _ horder horder'
  intro a b _ _ hab hba
  exact absurd (List.lt_trans hab hba) (List.lt_irrefl _)

/-!
# Reading
-/

/-- What reading a snapshot to its end gives, one record after another. -/
inductive SnapshotRecords.Yields : SnapshotRecords -> List (Bytes × Bytes) ->
    Prop where
  | done {records : SnapshotRecords} (h : records.nextRecord = Except.ok none) :
      Yields records []
  | next {records records' : SnapshotRecords} {pair : Bytes × Bytes}
      {pairs : List (Bytes × Bytes)}
      (h : records.nextRecord = Except.ok (some (pair, records')))
      (hrest : Yields records' pairs) : Yields records (pair :: pairs)

theorem SnapshotRecords.yields_join {rs : List Rec}
    (hascending : Ascending (rs.map Rec.key))
    (hlive : forall r, r ∈ rs -> r.value ≠ none) (offset : Nat)
    {previous : Option Bytes}
    (hprevious : forall p, previous = some p -> forall r, r ∈ rs -> p < r.key) :
    Yields { reader := Rec.join rs, offset := offset, previous := previous }
      (rs.map (fun r => (r.key, r.payload))) := by
  induction rs generalizing offset previous with
  | nil => exact Yields.done rfl
  | cons r rs ih =>
      rw [List.map_cons, Ascending, List.pairwise_cons] at hascending
      apply Yields.next (nextRecord_bytes r (hlive r List.mem_cons_self)
        (Rec.join rs) offset
        (fun p hp => hprevious p hp r List.mem_cons_self))
      apply ih hascending.2
        (fun r' hr' => hlive r' (List.mem_cons_of_mem r hr'))
      intro p hp r' hr'
      cases hp
      exact hascending.1 r'.key (List.mem_map_of_mem hr')

theorem Canonical.mem_pairs_iff {rs : List Rec} {m : Contents}
    (h : Canonical rs m) (k v : Bytes) :
    (k, v) ∈ rs.map (fun r => (r.key, r.payload)) ↔ m k = some v := by
  have hpair : forall r, r ∈ rs -> m r.key = some r.payload := by
    intro r hr
    rcases h.values r hr with ⟨hvalue, hlive⟩
    rcases Option.ne_none_iff_exists'.mp hlive with ⟨value, hsome⟩
    rw [← hvalue, hsome, r.value_eq_some hsome]
  rw [List.mem_map]
  constructor
  · intro hmem
    rcases hmem with ⟨r, hr, heq⟩
    cases heq
    exact hpair r hr
  · intro hm
    rcases List.mem_map.mp (h.live k (by rw [hm]; simp)) with ⟨r, hr, hkey⟩
    exists r
    constructor
    · exact hr
    · have hpayload := hpair r hr
      rw [hkey, hm] at hpayload
      rw [hkey, Option.some.inj hpayload]

/-!
# Any two stores
-/

theorem answers_iff {s s' : Store} {m m' : Contents} (hok : s.Ok)
    (hok' : s'.Ok) (h : s.Indexes m) (h' : s'.Indexes m') :
    (forall k, s.get k = s'.get k) ↔ m = m' := by
  constructor
  · intro hsame
    funext k
    have hk := hsame k
    rw [Store.get_eq hok h k, Store.get_eq hok' h' k, Except.ok.injEq] at hk
    exact hk
  · intro hm k
    rw [Store.get_eq hok h k, Store.get_eq hok' h' k, hm]

/-- Stores that answer alike make the same snapshot, whatever came before their views
were taken and whatever came after.  Reading it gives each live pair once, in key
order, and then a clean end. -/
theorem snapshots_canonical {opts opts' : Options} {s s' : Store}
    {work work' : Compacting} {calls calls' : List Call}
    (hrun : BackgroundRun opts s work calls)
    (hrun' : BackgroundRun opts' s' work' calls')
    (hsame : forall k, s.get k = s'.get k) {later later' : Store}
    {workLater workLater' : Compacting}
    (honward : Onward s.view.2 work later workLater)
    (honward' : Onward s'.view.2 work' later' workLater')
    {out : MemSnapshot} (hempty : out.data = []) :
    exists done pairs,
      writeSnapshot s.view.1 later.dir out = Except.ok done ∧
      writeSnapshot s'.view.1 later'.dir out = Except.ok done ∧
      SnapshotRecords.Yields { reader := done.data } pairs ∧
      Ascending (pairs.map Prod.fst) ∧
      forall k v, (k, v) ∈ pairs ↔ s.get k = Except.ok (some v) := by
  rcases hrun.backs with ⟨_, hbacks⟩
  rcases hrun'.backs with ⟨_, hbacks'⟩
  have hmap : written calls = written calls' :=
    (answers_iff hbacks.ok hbacks'.ok hbacks.indexes hbacks'.indexes).mp hsame
  rcases writeSnapshot_canonical (hrun.view_shows honward) with
    ⟨rs, hcanonical, hwrite⟩
  rcases writeSnapshot_canonical (hrun'.view_shows honward') with
    ⟨rs', hcanonical', hwrite'⟩
  rw [← hmap] at hcanonical'
  have hrs := hcanonical.unique hcanonical'
  subst hrs
  have hkeys : (rs.map (fun r => (r.key, r.payload))).map Prod.fst =
      rs.map Rec.key := by
    rw [List.map_map]
    rfl
  exists out.writeAll (Rec.join rs), rs.map (fun r => (r.key, r.payload))
  constructor
  · exact hwrite out
  · constructor
    · exact hwrite' out
    · constructor
      · unfold MemSnapshot.writeAll
        rw [hempty, List.nil_append]
        exact SnapshotRecords.yields_join hcanonical.ascending
          (fun r hr => (hcanonical.values r hr).2) 0 (fun p hp => by cases hp)
      · constructor
        · rw [hkeys]
          exact hcanonical.ascending
        · intro k v
          rw [hcanonical.mem_pairs_iff, Store.get_eq hbacks.ok hbacks.indexes,
            Except.ok.injEq]

/-- A put, and a buffered one that is overwritten.  The view of the second store is
written out after a delete. -/
theorem snapshots_canonical_overwritten :
    exists s s' later,
      BackgroundRun {} s Compacting.idle [Call.put [97] [1] 5 6] ∧
      BackgroundRun {} s' Compacting.idle
        [Call.putDeferred [97] [2] 7 8, Call.put [97] [1] 9 10] ∧
      later = (s'.view.2.call (Call.delete [97] 11 12)).1 ∧
      exists done pairs,
        writeSnapshot s.view.1 s.view.2.dir ⟨⟨0, 0⟩, none, []⟩ =
          Except.ok done ∧
        writeSnapshot s'.view.1 later.dir ⟨⟨0, 0⟩, none, []⟩ =
          Except.ok done ∧
        SnapshotRecords.Yields { reader := done.data } pairs ∧
        Ascending (pairs.map Prod.fst) ∧
        forall k v, (k, v) ∈ pairs ↔ s.get k = Except.ok (some v) := by
  have hrun := (BackgroundRun.start (openWith_nothing {})).call
    (c := Call.put [97] [1] 5 6) trivial (by decide)
  have hrun' := ((BackgroundRun.start (openWith_nothing {})).call
    (c := Call.putDeferred [97] [2] 7 8) trivial (by decide)).call
    (c := Call.put [97] [1] 9 10) trivial (by decide)
  rcases hrun.backs with ⟨_, hbacks⟩
  rcases hrun'.backs with ⟨_, hbacks'⟩
  have hmap : written ([] ++ [Call.put [97] [1] 5 6]) = written
      ([] ++ [Call.putDeferred [97] [2] 7 8] ++ [Call.put [97] [1] 9 10]) := by
    simp [written, Call.write, replay, act]
  have hsame := (answers_iff hbacks.ok hbacks'.ok hbacks.indexes
    hbacks'.indexes).mpr hmap
  exact ⟨_, _, _, hrun, hrun', rfl, snapshots_canonical hrun hrun' hsame
    Onward.refl (Onward.refl.call (c := Call.delete [97] 11 12) trivial trivial)
    rfl⟩

/-!
# A record that is too long
-/

/-- Whatever is written of a view, every record of it was read. -/
theorem forEach_reads {acc : Type}
    {f : acc -> Bytes -> Bytes -> Except Error acc} {dir : Dir}
    {readers : List FileId} {entries : List (Bytes × Location)}
    {start done : acc}
    (h : StoreView.forEach ⟨entries, readers⟩ dir f start = Except.ok done) :
    forall entry, entry ∈ entries ->
      exists value, readValue readers dir entry.2 = Except.ok value := by
  unfold StoreView.forEach at h
  dsimp only at h
  induction entries generalizing start with
  | nil =>
      intro entry hentry
      cases hentry
  | cons first entries ih =>
      rw [List.foldlM_cons] at h
      cases hread : readValue readers dir first.2 with
      | error e =>
          rw [hread] at h
          cases h
      | ok value =>
          rw [hread] at h
          cases hnext : f start first.1 value with
          | error e =>
              change (f start first.1 value >>= _) = _ at h
              rw [hnext] at h
              cases h
          | ok found =>
              change (f start first.1 value >>= _) = _ at h
              rw [hnext] at h
              intro entry hentry
              rw [List.mem_cons] at hentry
              rcases hentry with rfl | hentry
              · exact ⟨value, hread⟩
              · exact ih h entry hentry

theorem readValue_of_len_zero {readers : List FileId} {dir : Dir}
    {loc : Location} (hlen : loc.len = 0) (value : Bytes) :
    readValue readers dir loc ≠ Except.ok value := by
  unfold readValue readRecord Dir.readAt
  rw [hlen]
  intro h
  split at h
  · dsimp only at h
    split at h
    · simp [slice, decodeValue, headerLen, Except.bind] at h
    · cases h
  · cases h

/-- A value of 2^32 - 22 bytes is accepted and its key is live, and no snapshot can
be made of the store. -/
theorem long_record_has_no_snapshot :
    exists (value : Bytes) (s : Store),
      value.length = 2 ^ 32 - 22 ∧
      Store.openWith {} {} = Except.ok (newStore {}) ∧
      (newStore {}).put [7] value 5 6 = Except.ok s ∧ [7] ∈ s.keys ∧
      forall out done,
        writeSnapshot s.view.1 s.view.2.dir out ≠ Except.ok done := by
  have hvalue : exists value : Bytes, value.length = 2 ^ 32 - 22 :=
    ⟨List.replicate (2 ^ 32 - 22) 0, List.length_replicate⟩
  rcases hvalue with ⟨value, hvalue⟩
  rcases encode_long_record hvalue with ⟨bytes, hencode, hbytes⟩
  have hput : exists s loc, (newStore {}).put [7] value 5 6 = Except.ok s ∧
      s.keydir.lookup [7] = some loc ∧ loc.len = UInt32.ofNat bytes.length := by
    rcases (BackgroundRun.start (openWith_nothing {})).backs with ⟨_, hbacks⟩
    rcases Store.rolled hbacks.ok bytes.length with ⟨hrolled, _⟩
    have happend := (LogWriter.appended_append hrolled.writer bytes
      (newStore {}).reach).1
    unfold Store.put Store.putWith
    rw [if_neg (by decide), hencode]
    exact ⟨_, _, rfl, AList.lookup_insert _, congrArg Prod.snd happend⟩
  rcases hput with ⟨s, loc, hput, hlookup, hlen⟩
  rw [hbytes] at hlen
  have hkey : [7] ∈ s.keys := by
    apply AList.mem_keys.mp
    rw [← AList.lookup_isSome, hlookup]
    rfl
  refine ⟨value, s, hvalue, openWith_nothing {}, hput, hkey, ?_⟩
  intro out done hwrite
  rcases forEach_reads hwrite ([7], loc) (mem_inKeyOrder.mpr hlookup) with
    ⟨found, hread⟩
  exact readValue_of_len_zero hlen found hread

end Replicated
end Minicask
