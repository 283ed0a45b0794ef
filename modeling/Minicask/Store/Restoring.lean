import Minicask.Store.Background

/-!
# Replacing what a store holds

A restore writes its records one after another into a file in a slot, and notes
where each is.  Once that file is in place and the store's index is those notes,
the store is the map that replaying the records gives.
-/

namespace Minicask

open Replay

/-- The records pushed so far are the file, and each is where the index says. -/
structure RestoreJob.Of (job : RestoreJob) (rs : List Rec) : Prop where
  file : job.file = Rec.join rs
  offset : job.offset = job.file.length
  keys : job.index.map Prod.fst = rs.map Rec.key
  index : forall entry, entry ∈ job.index -> exists r : Rec, r ∈ rs ∧
    r.key = entry.1 ∧ entry.2.fileId = job.id ∧
      entry.2.len = UInt32.ofNat r.bytes.length ∧
      Located job.file entry.2.offset r

theorem RestoreJob.push_eq_ok {job job' : RestoreJob} {key value : Bytes}
    (hshort : headerLen + key.length + value.length < 2 ^ 32)
    (h : job.push key value = Except.ok job') :
    exists r : Rec, r.key = key ∧ r.value = some value ∧ r.tstamp = 0 ∧
      job' = { job with
        file := job.file ++ r.bytes
        index := job.index ++
          [(key,
            { fileId := job.id
              offset := job.offset
              len := UInt32.ofNat r.bytes.length
              tstamp := 0 })]
        hints := job.hints ++
          [{ key := key
             offset := job.offset
             len := UInt32.ofNat r.bytes.length
             tstamp := 0
             tombstone := false }]
        offset := job.offset + (UInt32.ofNat r.bytes.length).toNat } := by
  have hkey : key ≠ [] := by
    intro hnil
    rw [hnil] at h
    cases h
  let r : Rec := ⟨key, some value, 0, hkey, hshort⟩
  rw [RestoreJob.push, encode_rec r] at h
  cases h
  exact ⟨r, rfl, rfl, rfl, rfl⟩

theorem RestoreJob.Of.push {job : RestoreJob} {rs : List Rec} (h : job.Of rs)
    {r : Rec} (htstamp : r.tstamp = 0) {value : Bytes}
    (hvalue : r.value = some value) :
    exists job', job.push r.key value = Except.ok job' ∧
      job'.Of (rs ++ [r]) ∧ job'.id = job.id ∧ job'.oldIds = job.oldIds := by
  have hencode := encode_rec r
  rw [hvalue, htstamp] at hencode
  unfold RestoreJob.push
  rw [hencode]
  refine ⟨_, rfl, ⟨?_, ?_, ?_, ?_⟩, rfl, rfl⟩
  · simp [h.file]
  · rw [r.toNat_length_bytes, List.length_append, h.offset]
  · simp [h.keys]
  · intro entry hentry
    rcases List.mem_append.mp hentry with hold | hnew
    · rcases h.index entry hold with ⟨r', hr', hkey, hid, hlen, hlocated⟩
      exact ⟨r', List.mem_append_left _ hr', hkey, hid, hlen,
        hlocated.append _⟩
    · rw [List.mem_singleton.mp hnew]
      exact ⟨r, List.mem_append_right _ (List.mem_singleton_self r), rfl, rfl,
        rfl, job.file, [], by simp, h.offset.symm⟩

theorem RestoreJob.Of.pushed {job job' : RestoreJob} {rs : List Rec}
    (h : job.Of rs) {r : Rec} (htstamp : r.tstamp = 0) {value : Bytes}
    (hvalue : r.value = some value)
    (hpush : job.push r.key value = Except.ok job') : job'.Of (rs ++ [r]) := by
  rcases h.push htstamp hvalue with ⟨job'', hpush', hof, _, _⟩
  have hsame : job'' = job' := Except.ok.inj (hpush'.symm.trans hpush)
  rw [← hsame]
  exact hof

/-- A file that waits to become the store. -/
structure RestoredFile.Ok (restored : RestoredFile) (s : Store) (m : Contents) :
    Prop where
  slot : s.Reserved restored.id restored.oldIds
  linked : restored.id ∈ s.dir.disk.data
  nodup : (restored.index.map Prod.fst).Nodup
  live : forall k, k ∈ restored.index.map Prod.fst ↔ m k ≠ none
  index : forall entry, entry ∈ restored.index -> exists r : Rec,
    r.key = entry.1 ∧ r.value = m entry.1 ∧
      entry.2.fileId = restored.id ∧
      entry.2.len = UInt32.ofNat r.bytes.length ∧
      Located (s.dir.disk.handle restored.id) entry.2.offset r

/-- The finished file stands for what its records replay to. -/
theorem RestoreJob.Of.finish {job : RestoreJob} {rs : List Rec}
    (h : job.Of rs) {s : Store} (hslot : s.Reserved job.id job.oldIds)
    (hnodup : (rs.map Rec.key).Nodup)
    (hlive : forall r, r ∈ rs -> r.value ≠ none) :
    s.dir.Placed job.id job.file (job.finish s.dir).2 ∧
      (job.finish s.dir).1.id = job.id ∧
      (job.finish s.dir).1.Ok { s with dir := (job.finish s.dir).2 }
        (replay empty (rs.map Rec.write)) := by
  have hplaced := Dir.placed_renamePart s.dir job.id job.file job.offset
    job.hints
  have hvalue : forall r, r ∈ rs ->
      replay empty (rs.map Rec.write) r.key = r.value := by
    intro r hr
    have hkeys : ((rs.map Rec.write).map Write.key).Nodup := by
      rw [List.map_map]
      exact hnodup
    exact replay_of_nodup hkeys (List.mem_map_of_mem hr) empty
  refine ⟨hplaced, rfl, ⟨hslot.below, hslot.unread, hslot.old⟩,
    hplaced.linked, ?_, ?_, ?_⟩
  · show (job.index.map Prod.fst).Nodup
    rw [h.keys]
    exact hnodup
  · intro k
    show k ∈ job.index.map Prod.fst ↔ _
    rw [h.keys]
    constructor
    · intro hmem
      rcases List.mem_map.mp hmem with ⟨r, hr, rfl⟩
      rw [hvalue r hr]
      exact hlive r hr
    · intro hne
      by_contra hnot
      apply hne
      rw [replay_of_forall_ne]
      · rfl
      · intro w hw heq
        rcases List.mem_map.mp hw with ⟨r, hr, rfl⟩
        exact hnot (List.mem_map.mpr ⟨r, hr, heq⟩)
  · intro entry hentry
    rcases h.index entry hentry with ⟨r, hr, hkey, hid, hlen, hlocated⟩
    refine ⟨r, hkey, ?_, hid, hlen, ?_⟩
    · rw [← hkey, hvalue r hr]
    · show Located ((job.finish s.dir).2.disk.handle job.id) _ _
      rw [show (job.finish s.dir).2.disk.handle job.id = job.file from
        hplaced.handle_slot]
      exact hlocated

/-!
# Installing a restore
-/

theorem lookup_insertAll_of_notMem {entries : List (Bytes × Location)}
    {keydir : Keydir} {k : Bytes} (h : k ∉ entries.map Prod.fst) :
    (insertAll keydir entries).lookup k = keydir.lookup k := by
  induction entries generalizing keydir with
  | nil => rfl
  | cons entry entries ih =>
      rw [List.map_cons, List.mem_cons, not_or] at h
      exact (ih h.2).trans (AList.lookup_insert_ne h.1)

theorem lookup_insertAll_of_mem {entries : List (Bytes × Location)}
    (hnodup : (entries.map Prod.fst).Nodup) {keydir : Keydir}
    {entry : Bytes × Location} (h : entry ∈ entries) :
    (insertAll keydir entries).lookup entry.1 = some entry.2 := by
  induction entries generalizing keydir with
  | nil => cases h
  | cons head entries ih =>
      rw [List.map_cons, List.nodup_cons] at hnodup
      rcases List.mem_cons.mp h with heq | hin
      · subst heq
        exact (lookup_insertAll_of_notMem hnodup.1).trans
          (AList.lookup_insert keydir)
      · exact ih hnodup.2 hin

namespace Store

theorem beginRestore_spec {s : Store} (hok : s.Ok) {m : Contents}
    (hindexes : s.Indexes m) (hcompacting : s.compacting = false)
    (hrestoring : s.restoring = false) :
    exists job s', s.beginRestore = Except.ok (job, s') ∧ s'.Ok ∧
      s'.Indexes m ∧ s.Kept s' ∧ s'.compacting = false ∧
      s'.restoring = true ∧ s.writer.fileId < job.id ∧
      s'.Reserved job.id job.oldIds ∧ job.Of [] := by
  have hnext : s.writer.fileId < s.writer.fileId + 2 :=
    Nat.lt_trans (Nat.lt_succ_self _) (Nat.lt_succ_self _)
  have hsealed := ok_sealInto hok hnext
  have hindexes' : (s.sealInto (s.writer.fileId + 2)).Indexes m :=
    hindexes.carried (carries_sealInto hok hnext) rfl
  have hlater := later_sealInto hok hnext
  have hslot := reserved_sealInto hok
  refine ⟨{ id := s.writer.fileId + 1, oldIds := s.readers },
    { s.sealInto (s.writer.fileId + 2) with
      dir := (s.sealInto (s.writer.fileId + 2)).dir.writePart
        (s.writer.fileId + 1) []
      restoring := true }, ?_, ?_, ?_, ⟨hlater.newer, hlater.handles⟩,
    hcompacting, rfl, Nat.lt_succ_self _,
    ⟨hslot.below, hslot.unread, hslot.old⟩,
    ⟨rfl, rfl, rfl, fun _ hentry => absurd hentry List.not_mem_nil⟩⟩
  · unfold beginRestore
    rw [if_neg (by simp [hcompacting, hrestoring])]
    rfl
  · exact hsealed.flagged rfl rfl rfl
  · exact hindexes'.flagged rfl rfl rfl rfl

/-- Installing a restore makes the store the map its file stands for. -/
theorem finishRestore_spec {s : Store} (hok : s.Ok) {m : Contents}
    {restored : RestoredFile} (h : restored.Ok s m) :
    (s.finishRestore restored).Ok ∧ (s.finishRestore restored).Indexes m ∧
      s.Kept (s.finishRestore restored) := by
  have htrimmed : s.Trimmed restored.oldIds (s.finishRestore restored) :=
    ⟨rfl, rfl⟩
  have hactive := h.slot.active_notMem
  have hslot := h.slot.notMem
  have hreaders : forall id, id ∈ (s.finishRestore restored).readers ↔
      id = restored.id ∨ id ∈ s.readers ∧ id ∉ restored.oldIds := by
    intro id
    simp [finishRestore, List.mem_filter, List.mem_insert_iff]
  refine ⟨?_, ⟨?_, ?_⟩, htrimmed.kept⟩
  · apply htrimmed.ok hok hactive
    · exact (hreaders _).mpr (Or.inr ⟨hok.active, hactive⟩)
    · intro id hid
      rcases (hreaders id).mp hid with heq | ⟨hold, hnot⟩
      · rw [heq]
        exact ⟨hslot, h.linked⟩
      · exact ⟨hnot, hok.linked id hold⟩
  · intro k
    show (insertAll ∅ restored.index).lookup k = none ↔ _
    by_cases hmem : k ∈ restored.index.map Prod.fst
    · have hne := (h.live k).mp hmem
      rcases List.mem_map.mp hmem with ⟨entry, hentry, rfl⟩
      rw [lookup_insertAll_of_mem h.nodup hentry]
      simp [hne]
    · rw [lookup_insertAll_of_notMem hmem]
      have hnone : m k = none := by
        by_contra hne
        exact hmem ((h.live k).mpr hne)
      simp [hnone]
  · intro k loc hlookup
    change (insertAll ∅ restored.index).lookup k = some loc at hlookup
    by_cases hmem : k ∈ restored.index.map Prod.fst
    · rcases List.mem_map.mp hmem with ⟨entry, hentry, rfl⟩
      rw [lookup_insertAll_of_mem h.nodup hentry, Option.some.injEq] at hlookup
      subst hlookup
      rcases h.index entry hentry with ⟨r, hkey, hvalue, hid, hlen, hlocated⟩
      refine ⟨r, hkey, hvalue, ⟨?_, hlen, (hreaders _).mpr (Or.inl hid), ?_⟩⟩
      · rw [hid, htrimmed.contents hslot, contents_of_ne s
          (Nat.ne_of_lt h.slot.below), ← handle_of_mem h.linked]
        exact hlocated
      · intro heq
        exact absurd (hid.symm.trans heq) (Nat.ne_of_lt h.slot.below)
    · rw [lookup_insertAll_of_notMem hmem, AList.lookup_empty] at hlookup
      cases hlookup

end Store

end Minicask
