import Minicask.Store.Background

/-!
# A slot among the files

A merge made in the background fills a slot between the files it copied and those
written since.  Until it is installed the store does not read it, so the chart of
the files covers one that the store has no handle on; once it is, the files before
the slot go.
-/

namespace Minicask

open Replay

def Chart.without (chart : Chart) (ids : List FileId) : Chart :=
  fun id => if id ∈ ids then [] else chart id

theorem Chart.without_of_mem (chart : Chart) {ids : List FileId} {id : FileId}
    (h : id ∈ ids) : chart.without ids id = [] :=
  if_pos h

theorem Chart.without_of_notMem (chart : Chart) {ids : List FileId}
    {id : FileId} (h : id ∉ ids) : chart.without ids id = chart id :=
  if_neg h

theorem logged_split (chart : Chart) {slot top : FileId} (h : slot <= top) :
    logged chart top = (List.range slot).flatMap chart ++ chart slot ++
      (List.range' (slot + 1) (top - slot)).flatMap chart := by
  have hrange : List.range (top + 1) =
      List.range slot ++ [slot] ++ List.range' (slot + 1) (top - slot) := by
    have hsize : top + 1 = (slot + 1) + (top - slot) := by
      rw [Nat.add_right_comm, Nat.add_sub_cancel' h]
    rw [← List.range_succ, hsize, List.range_add, List.range'_eq_map_range]
  rw [logged, hrange, List.flatMap_append, List.flatMap_append]
  simp

/-- Copies in an empty slot, of what the files before it hold, change nothing. -/
theorem recorded_filled {chart : Chart} {slot top : FileId}
    (hslot : slot <= top) (hempty : chart slot = []) {rs : List Rec}
    (hsame : replay
        (replay empty (((List.range slot).flatMap chart).map Rec.write))
        (rs.map Rec.write) =
      replay empty (((List.range slot).flatMap chart).map Rec.write)) :
    recorded (Function.update chart slot rs) top = recorded chart top := by
  have hother : forall id, id ≠ slot ->
      Function.update chart slot rs id = chart id :=
    fun id hne => Function.update_of_ne hne ..
  have hbefore : (List.range slot).flatMap (Function.update chart slot rs) =
      (List.range slot).flatMap chart := by
    apply List.flatMap_congr
    intro id hrange
    exact hother id (Nat.ne_of_lt (List.mem_range.mp hrange))
  have hafter : (List.range' (slot + 1) (top - slot)).flatMap
      (Function.update chart slot rs) =
        (List.range' (slot + 1) (top - slot)).flatMap chart := by
    apply List.flatMap_congr
    intro id hrange
    exact hother id (Nat.ne_of_gt (List.mem_range'_1.mp hrange).1)
  rw [recorded, recorded, logged_split _ hslot, logged_split _ hslot, hbefore,
    hafter, Function.update_self, hempty, List.append_nil]
  simp only [List.map_append, replay_append]
  rw [hsame]

/-- The files in a slot's past can go once the slot holds all that came of
them. -/
theorem recorded_without {chart : Chart} {slot top : FileId}
    (hslot : slot <= top) {ids : List FileId} {m : Contents}
    (hold : replay empty (((List.range slot).flatMap chart).map Rec.write) = m)
    (hcopies : replay empty ((chart slot).map Rec.write) = m)
    (hsame : replay m ((chart slot).map Rec.write) = m)
    (hids : forall id, id ∈ ids -> id < slot)
    (hall : forall id, id < slot -> chart id ≠ [] -> id ∈ ids) :
    recorded (chart.without ids) top = recorded chart top := by
  have hbefore : (List.range slot).flatMap (chart.without ids) = [] := by
    rw [List.flatMap_eq_nil_iff]
    intro id hrange
    by_cases hin : id ∈ ids
    · exact chart.without_of_mem hin
    · rw [chart.without_of_notMem hin]
      by_contra hsome
      exact hin (hall id (List.mem_range.mp hrange) hsome)
  have hkept : forall id, slot <= id -> chart.without ids id = chart id :=
    fun id hle => chart.without_of_notMem
      (fun hin => Nat.not_lt_of_le hle (hids id hin))
  have hafter : (List.range' (slot + 1) (top - slot)).flatMap
      (chart.without ids) =
        (List.range' (slot + 1) (top - slot)).flatMap chart := by
    apply List.flatMap_congr
    intro id hrange
    exact hkept id (Nat.le_of_succ_le (List.mem_range'_1.mp hrange).1)
  rw [recorded, recorded, logged_split _ hslot, logged_split _ hslot, hbefore,
    hafter, hkept slot (Nat.le_refl slot)]
  simp only [List.map_append, replay_append, List.map_nil, replay_nil]
  rw [hold, hcopies, hsame]

/-!
# Every file read
-/

def Store.allRead (s : Store) : Store :=
  { s with readers := s.dir.disk.data.keys }

theorem Store.Ok.allRead {s : Store} (h : s.Ok) : s.allRead.Ok where
  writer := h.writer
  active := AList.mem_keys.mp h.writer.linked
  linked _ hid := AList.mem_keys.mpr hid
  newest := h.newest

/-- The files, their hints and the writer are all a chart is about, as long as
every file is read. -/
theorem Charted.congr {s s' : Store} {chart : Chart} (h : Charted s chart)
    (hdata : s'.dir.disk.data = s.dir.disk.data)
    (hhints : s'.dir.disk.hints = s.dir.disk.hints)
    (hwriter : s'.writer = s.writer)
    (hactive : s'.activeHints = s.activeHints)
    (hknown : forall id, id ∈ s'.dir.disk.data -> id ∈ s'.readers) :
    Charted s' chart := by
  have hcontents : forall id, s'.dir.disk.contents id =
      s.dir.disk.contents id := fun id => by
    rw [Disk.contents, Disk.contents, hdata]
  have hsynced : forall id, s'.dir.disk.synced id = s.dir.disk.synced id :=
    fun id => by rw [Disk.synced, Disk.synced, hdata]
  refine ⟨?_, hknown, ?_, ?_, ?_, ?_, ?_, ?_, ?_⟩
  · rw [hdata]
    exact h.absent
  · rw [hdata, hhints]
    exact h.hinted
  · intro id
    rw [hdata, hwriter, hcontents, hsynced]
    exact h.sealed id
  · rw [LogWriter.contents, hwriter, hcontents]
    exact h.contents
  · rw [hwriter, hcontents]
    exact h.flushed
  · rw [hwriter, hsynced]
    exact h.synced
  · intro id bytes hlookup
    rw [hhints] at hlookup
    exact (h.hints id bytes hlookup).mono (List.prefix_refl _)
      (Nat.le_of_eq (hsynced id).symm)
  · rw [hactive, hwriter]
    exact h.activeHints

theorem Charted.allRead {s : Store} {chart : Chart} (h : Charted s chart) :
    Charted s.allRead chart :=
  h.congr rfl rfl rfl rfl (fun _ hid => AList.mem_keys.mp hid)

theorem Store.rollIfNeeded_allRead (s : Store) (incoming : Nat) :
    exists readers, s.allRead.rollIfNeeded incoming =
      { s.rollIfNeeded incoming with readers := readers } := by
  by_cases h : s.writer.offset = 0 ∨
      s.writer.offset + incoming <= s.opts.maxFileBytes
  · have hroll : s.rollIfNeeded incoming = s := if_pos h
    have hall : s.allRead.rollIfNeeded incoming = s.allRead := if_pos h
    rw [hroll, hall]
    exact ⟨_, rfl⟩
  · have hroll : s.rollIfNeeded incoming =
        s.sealInto (s.writer.fileId + 1) := if_neg h
    have hall : s.allRead.rollIfNeeded incoming =
        s.allRead.sealInto (s.writer.fileId + 1) := if_neg h
    rw [hroll, hall]
    exact ⟨_, rfl⟩

theorem Store.Wrote.allRead {s s' : Store} {r : Rec} (h : s.Wrote r s') :
    exists readers, s.allRead.Wrote r { s' with readers := readers } := by
  rcases s.rollIfNeeded_allRead r.bytes.length with ⟨readers, hroll⟩
  refine ⟨readers, ⟨?_, ?_, h.keydir, h.restoring, h.compacting⟩⟩
  · rw [hroll]
    exact ⟨h.advanced.appended, rfl⟩
  · rw [hroll]
    exact h.noted

theorem Charted.allRead_wrote {s s' : Store} {chart : Chart} {r : Rec}
    (hok : s.Ok) (h : Charted s.allRead chart) (hwrote : s.Wrote r s') :
    Charted s'.allRead (chart.extend s'.writer.fileId [r]) ∧
      recorded (chart.extend s'.writer.fileId [r]) s'.writer.fileId =
        act (recorded chart s.writer.fileId) r.write := by
  rcases hwrote.allRead with ⟨readers, hwrote'⟩
  rcases h.wrote hok.allRead hwrote' with ⟨hcharted, hrecorded⟩
  exact ⟨hcharted.congr rfl rfl rfl rfl (fun _ hid => AList.mem_keys.mp hid),
    hrecorded⟩

theorem Charted.allRead_sync {s : Store} {chart : Chart} (hok : s.Ok)
    (h : Charted s.allRead chart) : Charted s.sync.allRead chart :=
  (h.sync hok.allRead).congr rfl rfl rfl rfl
    (fun _ hid => AList.mem_keys.mp hid)

/-!
# Filling a slot
-/

/-- A merge takes its place: whole records, synced, with a hint for all of
them. -/
theorem Charted.placed {s s' : Store} {chart : Chart}
    (h : Charted s.allRead chart) {slot : FileId}
    (hslot : slot ∉ s.dir.disk.data) (hbelow : slot < s.writer.fileId)
    {rs : List Rec} {es : List HintEntry} (hes : Hint.Describes 0 es rs)
    (hwriter : s'.writer = s.writer)
    (hactive : s'.activeHints = s.activeHints)
    (hlookup : forall id, s'.dir.disk.data.lookup id =
      if id = slot then some (File.syncData (File.writeAll {} (Rec.join rs)))
      else s.dir.disk.data.lookup id)
    (hhints : s'.dir.disk.hints =
      s.dir.disk.hints.insert slot (Hint.encode (Rec.join rs).length es)) :
    Charted s'.allRead (Function.update chart slot rs) := by
  have hactiveNe : s.writer.fileId ≠ slot := Nat.ne_of_gt hbelow
  have hself : s'.dir.disk.contents slot = Rec.join rs ∧
      s'.dir.disk.synced slot = (Rec.join rs).length := by
    rw [Disk.contents, Disk.synced, hlookup, if_pos rfl]
    exact ⟨rfl, rfl⟩
  have hother : forall id, id ≠ slot ->
      s'.dir.disk.contents id = s.dir.disk.contents id ∧
        s'.dir.disk.synced id = s.dir.disk.synced id := by
    intro id hne
    rw [Disk.contents, Disk.synced, Disk.contents, Disk.synced, hlookup,
      if_neg hne]
    exact ⟨rfl, rfl⟩
  have hmem : forall id, id ≠ slot ->
      (id ∈ s'.dir.disk.data ↔ id ∈ s.dir.disk.data) := by
    intro id hne
    rw [← AList.lookup_isSome, hlookup, if_neg hne, AList.lookup_isSome]
  have hlinked : slot ∈ s'.dir.disk.data := by
    rw [← AList.lookup_isSome, hlookup, if_pos rfl]
    rfl
  have hchart : forall id, id ≠ slot ->
      Function.update chart slot rs id = chart id :=
    fun id hne => Function.update_of_ne hne ..
  have hupdated : Function.update chart slot rs slot = rs :=
    Function.update_self ..
  refine ⟨?_, fun _ hid => AList.mem_keys.mp hid, ?_, ?_, ?_, ?_, ?_, ?_, ?_⟩
  · intro id hnot
    have hne : id ≠ slot := fun heq => hnot (heq ▸ hlinked)
    rw [hchart id hne]
    exact h.absent id (fun hin => hnot ((hmem id hne).mpr hin))
  · intro id hid
    by_cases heq : id = slot
    · rw [heq]
      exact hlinked
    · have hold : id ∈ s.dir.disk.hints := by
        change id ∈ s'.dir.disk.hints at hid
        rw [hhints, AList.mem_insert] at hid
        exact hid.resolve_left heq
      exact (hmem id heq).mpr (h.hinted id hold)
  · intro id hid hne
    by_cases heq : id = slot
    · rw [heq, hupdated]
      exact hself
    · rw [hchart id heq]
      change s'.dir.disk.contents id = _ ∧ s'.dir.disk.synced id = _
      rw [(hother id heq).1, (hother id heq).2]
      exact h.sealed id ((hmem id heq).mp hid) (hwriter ▸ hne)
  · show LogWriter.contents s'.writer s'.dir = _
    rw [LogWriter.contents, hwriter, (hother _ hactiveNe).1]
    show _ = Rec.join (Function.update chart slot rs s'.writer.fileId)
    rw [hwriter, hchart _ hactiveNe]
    exact h.contents
  · show exists rs', rs' <+: Function.update chart slot rs s'.writer.fileId ∧
      s'.dir.disk.contents s'.writer.fileId = Rec.join rs'
    rw [hwriter, hchart _ hactiveNe, (hother _ hactiveNe).1]
    exact h.flushed
  · show exists rs', rs' <+: Function.update chart slot rs s'.writer.fileId ∧
      s'.dir.disk.synced s'.writer.fileId = (Rec.join rs').length
    rw [hwriter, hchart _ hactiveNe, (hother _ hactiveNe).2]
    exact h.synced
  · intro id bytes hbytes
    change s'.dir.disk.hints.lookup id = some bytes at hbytes
    rw [hhints] at hbytes
    by_cases heq : id = slot
    · subst heq
      rw [AList.lookup_insert, Option.some.injEq] at hbytes
      rw [hupdated]
      exact ⟨rs, es, List.prefix_refl _, hbytes.symm, hes,
        Nat.le_of_eq hself.2.symm⟩
    · rw [AList.lookup_insert_ne heq] at hbytes
      rw [hchart id heq]
      exact (h.hints id bytes hbytes).mono (List.prefix_refl _)
        (Nat.le_of_eq (hother id heq).2.symm)
  · show Hint.Describes 0 s'.activeHints
      (Function.update chart slot rs s'.writer.fileId)
    rw [hactive, hwriter, hchart _ hactiveNe]
    exact h.activeHints

theorem describes_copies {dir : Dir} {readers : List FileId}
    {mergedId : FileId} {l : List (Bytes × Location)} {added : List Rec}
    (hl : Recorded dir readers l added)
    (hlive : forall r, r ∈ added -> r.value ≠ none) {c c' : Copies}
    {rs : List Rec} (hoffset : c.offset = (Rec.join rs).length)
    (hhints : Hint.Describes 0 c.hints rs)
    (hloop : l.foldlM (copyRecord readers dir mergedId) c = Except.ok c') :
    Hint.Describes 0 c'.hints (rs ++ added) := by
  induction hl generalizing c rs with
  | nil =>
      cases hloop
      rw [List.append_nil]
      exact hhints
  | @cons entry r l added hhead _ ih =>
      rcases Fallible.foldlM_cons_eq_ok hloop with ⟨next, hcopy, hrest⟩
      unfold copyRecord at hcopy
      simp only [hhead.2.readRecord, Except.bind, decodeValue_bytes,
        Except.ok.injEq] at hcopy
      subst hcopy
      rw [List.append_cons]
      refine ih (fun r' hr' => hlive r' (List.mem_cons_of_mem r hr')) ?_ ?_
        hrest
      · show c.offset + entry.2.len.toNat = _
        rw [hhead.2.len, r.toNat_length_bytes, Rec.join_append,
          List.length_append, hoffset, Rec.join_cons, Rec.join_nil,
          List.append_nil]
      · apply hhints.append
        refine Hint.Describes.cons hhead.1.symm ?_ hhead.2.len ?_
          (Hint.Describes.nil _)
        · rw [Nat.zero_add]
          exact hoffset
        · have hsome := hlive r List.mem_cons_self
          cases hvalue : r.value with
          | none => exact absurd hvalue hsome
          | some value => rfl

/-- A part renamed into its slot is there, synced, and the other files are as they
were. -/
theorem Dir.lookup_placed (dir : Dir) (slot : FileId) (bytes : Bytes)
    (offset : Nat) (es : List HintEntry) (id : FileId) :
    (Hint.write ((dir.writePart slot bytes).renamePart slot) slot offset
      es).disk.data.lookup id =
      if id = slot then some (File.syncData (File.writeAll {} bytes))
      else dir.disk.data.lookup id := by
  show (Dir.renamePart _ _).disk.data.lookup id = _
  unfold Dir.renamePart
  rw [show (dir.writePart slot bytes).disk.parts.lookup slot = some bytes from
    AList.lookup_insert _]
  by_cases heq : id = slot
  · rw [if_pos heq, heq]
    exact AList.lookup_insert _
  · rw [if_neg heq]
    exact AList.lookup_insert_ne heq

theorem Dir.hints_renamePart (dir : Dir) (id : FileId) :
    (dir.renamePart id).disk.hints = dir.disk.hints := by
  unfold Dir.renamePart
  split <;> rfl

theorem Dir.hints_placed (dir : Dir) (slot : FileId) (bytes : Bytes)
    (offset : Nat) (es : List HintEntry) :
    (Hint.write ((dir.writePart slot bytes).renamePart slot) slot offset
      es).disk.hints =
      dir.disk.hints.insert slot (Hint.encode offset es) := by
  show (Dir.renamePart _ _).disk.hints.insert _ _ = _
  rw [Dir.hints_renamePart]
  rfl

/-- What a merge does to the directory: the records that its view points at go to
the slot, with a hint for all of them. -/
theorem CompactionJob.run_dir {job : CompactionJob} {dir dir' : Dir}
    {m : Contents} (hshows : job.view.Shows dir m) {merged : MergedFile}
    (hrun : job.run dir = Except.ok (merged, dir')) :
    merged.id = job.mergedId ∧ merged.oldIds = job.oldIds ∧
      exists rs es, Hint.Describes 0 es rs ∧
        rs.map Rec.key = job.view.entries.map Prod.fst ∧
        (forall r, r ∈ rs -> r.value = m r.key ∧ r.value ≠ none) ∧
        dir' = Hint.write (((dir.writePart job.mergedId []).writePart
          job.mergedId (Rec.join rs)).renamePart job.mergedId) job.mergedId
          (Rec.join rs).length es := by
  rcases hshows.records with ⟨rs, hrecorded, hvalues⟩
  have hpart : Recorded (dir.writePart job.mergedId []) job.view.readers
      job.view.entries rs := by
    refine hrecorded.imp ?_
    intro entry r hentry
    exact ⟨hentry.1, hentry.2.kept (fun _ _ => List.prefix_refl _)⟩
  have hstart : ({} : Copies).Of (dir.writePart job.mergedId [])
      job.view.readers job.mergedId [] [] :=
    ⟨rfl, rfl, rfl, fun _ hmove => absurd hmove List.not_mem_nil⟩
  rcases hstart.loop hpart with ⟨c, hloop, hof⟩
  have hdescribes : Hint.Describes 0 c.hints ([] ++ rs) :=
    describes_copies hpart (fun r hr => (hvalues r hr).2) rfl
      (Hint.Describes.nil 0) hloop
  rw [List.nil_append, List.nil_append] at hof
  rw [List.nil_append] at hdescribes
  unfold CompactionJob.run at hrun
  simp only [hloop, Except.bind, Except.ok.injEq, Prod.mk.injEq] at hrun
  rcases hrun with ⟨hmerged, hdir⟩
  subst hmerged hdir
  refine ⟨rfl, rfl, rs, c.hints, hdescribes, hrecorded.keys, hvalues, ?_⟩
  rw [hof.offset, hof.file]

/-- What a merge leaves in its slot: the records of the map its view shows. -/
theorem CompactionJob.run_placed {job : CompactionJob} {dir dir' : Dir}
    {m : Contents} (hshows : job.view.Shows dir m) {merged : MergedFile}
    (hrun : job.run dir = Except.ok (merged, dir')) :
    merged.id = job.mergedId ∧ merged.oldIds = job.oldIds ∧
      exists rs es, Hint.Describes 0 es rs ∧
        replay empty (rs.map Rec.write) = m ∧
        replay m (rs.map Rec.write) = m ∧
        (forall r, r ∈ rs -> r.value ≠ none) ∧
        (forall id, dir'.disk.data.lookup id =
          if id = job.mergedId then
            some (File.syncData (File.writeAll {} (Rec.join rs)))
          else dir.disk.data.lookup id) ∧
        dir'.disk.hints = dir.disk.hints.insert job.mergedId
          (Hint.encode (Rec.join rs).length es) := by
  rcases job.run_dir hshows hrun with
    ⟨hid, holdIds, rs, es, hdescribes, hkeys, hvalues, hdir⟩
  refine ⟨hid, holdIds, rs, es, hdescribes, ?_, ?_,
    fun r hr => (hvalues r hr).2, ?_, ?_⟩
  · apply replay_copies
    · rw [hkeys]
      exact hshows.ascending.nodup
    · exact fun r hr => (hvalues r hr).1
    · intro k hk
      have hin := hshows.live k hk
      rw [← hkeys] at hin
      rcases List.mem_map.mp hin with ⟨r, hr, heq⟩
      exact ⟨r, hr, heq⟩
  · apply replay_eq_self
    intro w hw
    rcases List.mem_map.mp hw with ⟨r, hr, heq⟩
    rw [← heq]
    exact (hvalues r hr).1.symm
  · intro id
    rw [hdir]
    exact (dir.writePart job.mergedId []).lookup_placed job.mergedId _ _ _ id
  · rw [hdir]
    exact (dir.writePart job.mergedId []).hints_placed job.mergedId _ _ _

/-!
# Removing what came before it
-/

theorem Charted.trimmed {s s' : Store} {chart : Chart}
    (h : Charted s.allRead chart) {ids : List FileId}
    (htrimmed : s.Trimmed ids s') (hactive : s.writer.fileId ∉ ids)
    (hhints : s'.activeHints = s.activeHints) :
    Charted s'.allRead (chart.without ids) := by
  have hremoved := (removeFiles_spec ids s.dir).2
  rw [← htrimmed.dir] at hremoved
  have hmem : forall id, id ∈ s'.dir.disk.data ->
      id ∉ ids ∧ id ∈ s.dir.disk.data := by
    intro id hid
    rw [← AList.lookup_isSome, (hremoved id).1] at hid
    by_cases hin : id ∈ ids
    · rw [if_pos hin] at hid
      cases hid
    · rw [if_neg hin, AList.lookup_isSome] at hid
      exact ⟨hin, hid⟩
  have hsame : forall id, id ∉ ids ->
      s'.dir.disk.contents id = s.dir.disk.contents id ∧
        s'.dir.disk.synced id = s.dir.disk.synced id := by
    intro id hin
    rw [Disk.contents, Disk.synced, Disk.contents, Disk.synced,
      (hremoved id).1, if_neg hin]
    exact ⟨rfl, rfl⟩
  have hwriter := htrimmed.writer
  refine ⟨?_, fun _ hid => AList.mem_keys.mp hid, ?_, ?_, ?_, ?_, ?_, ?_, ?_⟩
  · intro id hnot
    by_cases hin : id ∈ ids
    · exact chart.without_of_mem hin
    · rw [chart.without_of_notMem hin]
      apply h.absent
      intro hid
      apply hnot
      show id ∈ s'.dir.disk.data
      rw [← AList.lookup_isSome, (hremoved id).1, if_neg hin,
        AList.lookup_isSome]
      exact hid
  · intro id hid
    change id ∈ s'.dir.disk.hints at hid
    rw [← AList.lookup_isSome, (hremoved id).2] at hid
    by_cases hin : id ∈ ids
    · rw [if_pos hin] at hid
      cases hid
    · rw [if_neg hin, AList.lookup_isSome] at hid
      show id ∈ s'.dir.disk.data
      rw [← AList.lookup_isSome, (hremoved id).1, if_neg hin,
        AList.lookup_isSome]
      exact h.hinted id hid
  · intro id hid hne
    rcases hmem id hid with ⟨hin, hold⟩
    rw [chart.without_of_notMem hin]
    change s'.dir.disk.contents id = _ ∧ s'.dir.disk.synced id = _
    rw [(hsame id hin).1, (hsame id hin).2]
    exact h.sealed id hold (hwriter ▸ hne)
  · show LogWriter.contents s'.writer s'.dir =
      Rec.join (chart.without ids s'.writer.fileId)
    rw [LogWriter.contents, hwriter, chart.without_of_notMem hactive,
      (hsame _ hactive).1]
    exact h.contents
  · show exists rs, rs <+: chart.without ids s'.writer.fileId ∧
      s'.dir.disk.contents s'.writer.fileId = Rec.join rs
    rw [hwriter, chart.without_of_notMem hactive, (hsame _ hactive).1]
    exact h.flushed
  · show exists rs, rs <+: chart.without ids s'.writer.fileId ∧
      s'.dir.disk.synced s'.writer.fileId = (Rec.join rs).length
    rw [hwriter, chart.without_of_notMem hactive, (hsame _ hactive).2]
    exact h.synced
  · intro id bytes hbytes
    change s'.dir.disk.hints.lookup id = some bytes at hbytes
    rw [(hremoved id).2] at hbytes
    by_cases hin : id ∈ ids
    · rw [if_pos hin] at hbytes
      cases hbytes
    · rw [if_neg hin] at hbytes
      rw [chart.without_of_notMem hin]
      exact (h.hints id bytes hbytes).mono (List.prefix_refl _)
        (Nat.le_of_eq (hsame id hin).2.symm)
  · show Hint.Describes 0 s'.activeHints
      (chart.without ids s'.writer.fileId)
    rw [hhints, hwriter, chart.without_of_notMem hactive]
    exact h.activeHints

end Minicask
