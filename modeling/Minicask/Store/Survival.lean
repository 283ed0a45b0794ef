import Minicask.Store.Interruptions

/-!
# What survives of a store that is written to

A store that is stopped at any point of its writes leaves some start of its records,
among them all that were synced.  So what holds of the map at each of those starts
holds of the store that opens on what is left.
-/

namespace Minicask

open Replay

/-- As many of a file's records as a crash is sure to leave. -/
def Spared (rs : List Rec) (synced : Nat) (kept : List Rec) : Prop :=
  kept <+: rs ∧ forall whole, whole <+: rs ->
    (Rec.join whole).length <= synced -> whole <+: kept

/-- Files whose newest may lose what was not synced: whatever of its records is
left, the map they come to is one of some. -/
def Disk.Leaves (maps : Contents -> Prop) (disk : Disk) : Prop :=
  exists top chart, disk.Firm top chart ∧
    (exists rs, rs <+: chart top ∧ disk.synced top = (Rec.join rs).length) ∧
    forall kept, Spared (chart top) (disk.synced top) kept ->
      maps (recorded (Function.update chart top kept) top)

/-- The same of a store, with what it has in its buffer. -/
structure Survives (maps : Contents -> Prop) (s : Store) (chart : Chart) :
    Prop where
  charted : Charted s chart
  starts : forall kept,
    Spared (chart s.writer.fileId) (s.dir.disk.synced s.writer.fileId) kept ->
      maps (recorded (Function.update chart s.writer.fileId kept)
        s.writer.fileId)

theorem Spared.all {rs : List Rec} (synced : Nat) : Spared rs synced rs :=
  ⟨List.prefix_refl rs, fun _ hwhole _ => hwhole⟩

/-- More records, or more of them synced, and fewer starts can be left. -/
theorem Spared.mono {rs rs' kept : List Rec} {synced synced' : Nat}
    (h : Spared rs' synced' kept) (hkept : kept <+: rs) (hrs : rs <+: rs')
    (hsynced : synced <= synced') : Spared rs synced kept :=
  ⟨hkept, fun whole hwhole hle =>
    h.2 whole (hwhole.trans hrs) (Nat.le_trans hle hsynced)⟩

/-- When all of it is synced all of it is left. -/
theorem Spared.eq_of_synced {rs kept : List Rec} {synced : Nat}
    (h : Spared rs synced kept) (hall : (Rec.join rs).length <= synced) :
    kept = rs :=
  h.1.eq_of_length_le (h.2 rs (List.prefix_refl rs) hall).length_le

theorem Disk.Leaves.mono {maps maps' : Contents -> Prop} {disk : Disk}
    (h : disk.Leaves maps) (hmaps : forall m, maps m -> maps' m) :
    disk.Leaves maps' := by
  rcases h with ⟨top, chart, hfirm, hmark, hstarts⟩
  exact ⟨top, chart, hfirm, hmark,
    fun kept hkept => hmaps _ (hstarts kept hkept)⟩

theorem Disk.Leaves.congr {maps : Contents -> Prop} {disk disk' : Disk}
    (h : disk.Leaves maps) (hdata : disk'.data = disk.data)
    (hhints : disk'.hints = disk.hints) : disk'.Leaves maps := by
  have hcontents : forall id, disk'.contents id = disk.contents id := by
    intro id
    rw [Disk.contents, Disk.contents, hdata]
  have hsynced : forall id, disk'.synced id = disk.synced id := by
    intro id
    rw [Disk.synced, Disk.synced, hdata]
  rcases h with ⟨top, chart, hfirm, hmark, hstarts⟩
  refine ⟨top, chart, ⟨hdata ▸ hfirm.linked, hdata ▸ hfirm.newest,
    hdata ▸ hfirm.absent, ?_, ?_, ?_⟩, ?_, ?_⟩
  · intro id hid
    rw [hcontents]
    exact hfirm.files id (hdata ▸ hid)
  · intro id hne
    rw [hcontents, hsynced]
    exact hfirm.sealed id hne
  · intro id bytes hlookup
    rw [hhints] at hlookup
    exact (hfirm.hints id bytes hlookup).mono (List.prefix_refl _)
      (Nat.le_of_eq (hsynced id).symm)
  · rw [hsynced]
    exact hmark
  · rw [hsynced]
    exact hstarts

/-!
# What opens on what is left
-/

/-- Every file but the newest is whole, and the newest is some of its records and
part of another. -/
theorem Disk.Firm.sound {disk disk' : Disk} {top : FileId} {chart : Chart}
    (h : disk.Firm top chart)
    (hmark : exists rs, rs <+: chart top ∧
      disk.synced top = (Rec.join rs).length)
    (hkilled : disk.Killed disk') : disk'.SoundAs chart := by
  have habsent : forall id, id ∉ disk.data -> disk.contents id = [] := by
    intro id hnot
    rw [Disk.contents, AList.lookup_eq_none.mpr hnot]
    rfl
  refine ⟨?_, ?_, ?_⟩
  · intro id
    rcases hkilled.kept id with ⟨n, _, htake⟩
    rw [htake]
    by_cases hid : id ∈ disk.data
    · rw [h.files id hid]
      exact List.take_prefix _ _
    · rw [habsent id hid, List.take_nil]
      exact List.nil_prefix
  · intro id
    by_cases htop : id = top
    · rw [htop, hkilled.synced]
      exact Or.inl hmark
    · right
      rw [hkilled.whole (h.sealed id htop), hkilled.synced]
      exact h.sealed id htop
  · intro id bytes hlookup
    exact (h.hints id bytes (hkilled.hints id bytes hlookup)).mono
      (List.prefix_refl _) (Nat.le_of_eq (hkilled.synced id).symm)

theorem Disk.Firm.sealedFiles {disk : Disk} {top : FileId} {chart : Chart}
    (h : disk.Firm top chart) : disk.Sealed := by
  intro id other hid hother hless
  have hne : id ≠ top :=
    Nat.ne_of_lt (Nat.lt_of_lt_of_le hless (h.newest other hother))
  exact ⟨⟨_, h.files id hid⟩, h.sealed id hne⟩

/-- Whatever way the files are cut, a store opens on them, with one of the maps;
and what survives of that store is no more than what survived before. -/
theorem Disk.Leaves.opens {maps : Contents -> Prop} {disk disk' : Disk}
    (h : disk.Leaves maps) (hkilled : disk.Killed disk') (opts : Options) :
    exists s chart, Store.openWith { disk := disk' } opts = Except.ok s ∧
      Alive s Out.idle ∧ Opened { disk := disk' } chart s ∧
      Survives maps s chart ∧ maps (recorded chart s.writer.fileId) := by
  rcases h with ⟨top, chart, hfirm, hmark, hstarts⟩
  have hsound := hfirm.sound hmark hkilled
  rcases openWith_of_sealed ⟨chart, hsound⟩
    (hkilled.sealed hfirm.sealedFiles) opts with ⟨s, hopen, halive, _⟩
  rcases (openWith_from hsound.dir opts).2 s hopen with ⟨kept, hfrom⟩
  have hactive : s.writer.fileId = top := by
    have hlist : (Dir.disk { disk := disk' }).listDataFiles =
        disk.listDataFiles := listDataFiles_congr hkilled.linked
    rw [hfrom.active, hlist, getLast_of_newest hfirm.linked hfirm.newest]
    rfl
  have hsynced : disk'.synced top <= (disk'.contents top).length :=
    disk'.synced_le top
  have hspared : Spared (chart top) (disk.synced top) (kept top) := by
    refine ⟨hfrom.starts top, ?_⟩
    intro whole hwhole hle
    refine hfrom.all top whole hwhole (Nat.le_trans hle ?_)
    rw [← hkilled.synced]
    exact hsynced
  have hkept : kept = Function.update chart top (kept top) := by
    funext id
    by_cases htop : id = top
    · rw [htop, Function.update_self]
    · rw [Function.update_of_ne htop]
      by_cases hid : id ∈ disk.data
      · have hwhole := hkilled.whole (hfirm.sealed id htop)
        have hall := hfrom.all id (chart id) (List.prefix_refl _) (by
          show _ <= (disk'.contents id).length
          rw [hwhole, hfirm.files id hid])
        exact (hfrom.starts id).eq_of_length_le hall.length_le
      · have hnil := hfirm.absent id hid
        have hstart := hfrom.starts id
        rw [hnil] at hstart ⊢
        exact List.prefix_nil.mp hstart
  have hgrown : disk.synced top <= s.dir.disk.synced top := by
    rcases hmark with ⟨rs, hrs, hlength⟩
    rw [← hkilled.synced]
    refine hfrom.marks top ?_
    show disk'.synced top <= _
    rw [hkilled.synced, hlength]
    exact (join_mono (hspared.2 rs hrs (Nat.le_of_eq hlength.symm))).length_le
  refine ⟨s, kept, hopen, halive, hfrom.opened,
    ⟨hfrom.opened.charted, ?_⟩, ?_⟩
  · rw [hactive]
    intro less hless
    have hstart := hstarts less ⟨hless.1.trans hspared.1, ?_⟩
    · rw [hkept, Function.update_idem]
      exact hstart
    · intro whole hwhole hle
      exact hless.2 whole (hspared.2 whole hwhole hle)
        (Nat.le_trans hle hgrown)
  · rw [hactive, hkept]
    exact hstarts (kept top) hspared

/-!
# What a store does to it
-/

namespace Survives

variable {maps : Contents -> Prop} {s : Store} {chart : Chart}

theorem whole (h : Survives maps s chart) :
    maps (recorded chart s.writer.fileId) := by
  have hall := h.starts _ (Spared.all _)
  rwa [Function.update_eq_self] at hall

theorem mono (h : Survives maps s chart) {maps' : Contents -> Prop}
    (hmaps : forall m, maps m -> maps' m) : Survives maps' s chart :=
  ⟨h.charted, fun kept hkept => hmaps _ (h.starts kept hkept)⟩

theorem leaves (h : Survives maps s chart) (hok : s.Ok) :
    s.dir.disk.Leaves maps := by
  rcases h.charted.firm hok with ⟨flushed, hflushed, hfile, hfirm⟩
  have hlength := s.dir.disk.synced_le s.writer.fileId
  rw [hfile] at hlength
  have hself : Function.update chart s.writer.fileId flushed
      s.writer.fileId = flushed :=
    Function.update_self ..
  refine ⟨_, _, hfirm, ?_, ?_⟩
  · rcases h.charted.synced with ⟨rs, hrs, hsynced⟩
    rw [hself]
    refine ⟨rs, prefix_of_join_le hrs hflushed ?_, hsynced⟩
    rw [← hsynced]
    exact hlength
  · rw [hself]
    intro kept hkept
    rw [Function.update_idem]
    refine h.starts kept ⟨hkept.1.trans hflushed, ?_⟩
    intro whole hwhole hle
    exact hkept.2 whole
      (prefix_of_join_le hwhole hflushed (Nat.le_trans hle hlength)) hle

/-- The writer moved on without a record: what was buffered may be in the file,
and what is in the file may be synced. -/
theorem advanced (h : Survives maps s chart) (hok : s.Ok) {s' : Store}
    (hadvanced : s.Advanced [] s')
    (hhints : s'.activeHints = s.activeHints) : Survives maps s' chart := by
  have hid := hadvanced.appended.fileId
  have hjoined : s.Advanced (Rec.join []) s' := hadvanced
  have hcharted := h.charted.advanced hok hjoined
    (hhints.trans (List.append_nil _).symm) (Hint.Describes.nil _)
  rw [Chart.extend_nil] at hcharted
  refine ⟨hcharted, ?_⟩
  rw [hid]
  intro kept hkept
  exact h.starts kept (hkept.mono hkept.1 (List.prefix_refl _)
    hadvanced.appended.frame.synced)

theorem flushed (h : Survives maps s chart) (hok : s.Ok) :
    Survives maps s.flushed chart :=
  h.advanced hok (Store.advanced_flushed hok) rfl

theorem sync (h : Survives maps s chart) (hok : s.Ok) :
    Survives maps s.sync chart :=
  h.advanced hok (Store.advanced_sync hok) rfl

theorem of_synced (hcharted : Charted s chart) (hok : s.Ok)
    (hsynced : s.dir.disk.synced s.writer.fileId = s.writer.offset)
    (hwhole : maps (recorded chart s.writer.fileId)) :
    Survives maps s chart := by
  refine ⟨hcharted, ?_⟩
  intro kept hkept
  have hlength := hcharted.join_length hok
  rw [hkept.eq_of_synced (Nat.le_of_eq (hlength.trans hsynced.symm)),
    Function.update_eq_self]
  exact hwhole

theorem sealInto (h : Survives maps s chart) (hok : s.Ok) {next : FileId}
    (hnext : s.writer.fileId < next) :
    Survives maps (s.sealInto next) chart := by
  have hempty : forall id, s.writer.fileId < id -> chart id = [] :=
    fun id hgt => h.charted.empty_of_gt hok hgt
  refine ⟨h.charted.sealInto hok hnext, ?_⟩
  rw [Store.writer_sealInto]
  intro kept hkept
  have hnone := hempty next hnext
  have hnil : kept = [] := by
    have hprefix := hkept.1
    rw [hnone] at hprefix
    exact List.prefix_nil.mp hprefix
  rw [hnil, ← hnone, Function.update_eq_self, recorded,
    logged_of_empty (Nat.le_of_lt hnext) hempty]
  exact h.whole

theorem rolled (h : Survives maps s chart) (hok : s.Ok) (incoming : Nat) :
    Survives maps (s.rollIfNeeded incoming) chart := by
  rcases s.rollIfNeeded_cases incoming with hsame | hsealed
  · rw [hsame]
    exact h
  · rw [hsealed]
    exact h.sealInto hok (Nat.lt_succ_self _)

theorem wrote (h : Survives maps s chart) (hok : s.Ok) {s' : Store} {r : Rec}
    (hwrote : s.Wrote r s')
    (hmap : maps (act (recorded chart s.writer.fileId) r.write)) :
    Survives maps s' (chart.extend s'.writer.fileId [r]) := by
  rcases h.charted.wrote hok hwrote with ⟨hcharted, hrecorded⟩
  have hrolled := h.rolled hok r.bytes.length
  have hid := hwrote.advanced.appended.fileId
  refine ⟨hcharted, ?_⟩
  intro kept hkept
  rw [Chart.extend_self] at hkept
  rcases List.prefix_concat_iff.mp hkept.1 with hwhole | hless
  · rw [hwhole, Chart.extend, Function.update_idem]
    rw [Chart.extend] at hrecorded
    rw [hrecorded]
    exact hmap
  · rw [Chart.extend, Function.update_idem]
    rw [hid] at hkept hless ⊢
    exact hrolled.starts kept (hkept.mono hless (List.prefix_append _ _)
      hwrote.advanced.appended.frame.synced)

end Survives

/-!
# Every state of the files
-/

theorem Disk.Firm.hinted {dir : Dir} {top : FileId} {chart : Chart}
    (h : dir.disk.Firm top chart) {bytes : Bytes}
    (hhint : HintOk dir.disk top (chart top) bytes) :
    (dir.writeHint top bytes).disk.Firm top chart := by
  refine ⟨h.linked, h.newest, h.absent, h.files, h.sealed, ?_⟩
  intro id other hlookup
  rw [Dir.hints_writeHint] at hlookup
  by_cases heq : id = top
  · rw [heq, AList.lookup_insert, Option.some.injEq] at hlookup
    rw [heq, ← hlookup]
    exact hhint
  · rw [AList.lookup_insert_ne heq] at hlookup
    exact h.hints id other hlookup

namespace Survives

variable {maps : Contents -> Prop} {s : Store} {chart : Chart}

theorem through_sync (h : Survives maps s chart) (hok : s.Ok)
    (hthrough : s.dir.Through (Disk.Leaves maps)) :
    s.sync.dir.Through (Disk.Leaves maps) := by
  have hflushed : s.flushed.dir.Through (Disk.Leaves maps) :=
    hthrough.step (LogWriter.moves_flush s.writer s.dir)
      ((h.flushed hok).leaves ((Store.advanced_flushed hok).ok hok))
  exact hflushed.step (Dir.moves_modify _ _ _)
    ((h.sync hok).leaves ((Store.advanced_sync hok).ok hok))

/-- The hint of a file that is all synced. -/
theorem leaves_hinted (h : Survives maps s chart) (hok : s.Ok) :
    (Hint.write s.sync.dir s.sync.writer.fileId s.sync.writer.offset
      s.activeHints).disk.Leaves maps := by
  have hsynced := h.sync hok
  have hoks := (Store.advanced_sync hok).ok hok
  have hall := Store.synced_sync hok
  have hlength := hsynced.charted.join_length hoks
  rcases hsynced.charted.firm hoks with ⟨flushed, hflushed, hfile, hfirm⟩
  have hless := s.sync.dir.disk.synced_le s.sync.writer.fileId
  have heq : flushed = chart s.sync.writer.fileId := by
    rw [hall, ← hlength, hfile] at hless
    exact hflushed.eq_of_length_le
      (prefix_of_join_le (List.prefix_refl _) hflushed hless).length_le
  rw [heq, Function.update_eq_self] at hfirm
  have hhint : HintOk s.sync.dir.disk s.sync.writer.fileId
      (chart s.sync.writer.fileId)
      (Hint.encode s.sync.writer.offset s.activeHints) :=
    ⟨_, s.activeHints, List.prefix_refl _, by rw [hlength], hsynced.charted.activeHints,
      Nat.le_of_eq (hlength.trans hall.symm)⟩
  exact ⟨_, _, hfirm.hinted hhint,
    ⟨_, List.prefix_refl _, hall.trans hlength.symm⟩, hsynced.starts⟩

theorem through_rolled (h : Survives maps s chart) (hok : s.Ok)
    (hthrough : s.dir.Through (Disk.Leaves maps)) (incoming : Nat) :
    (s.rollIfNeeded incoming).dir.Through (Disk.Leaves maps) := by
  have hrolled := (h.rolled hok incoming).leaves (Store.rolled hok incoming).1
  rcases s.rollIfNeeded_cases incoming with hsame | hsealed
  · rw [hsame]
    exact hthrough
  · rw [hsealed] at hrolled ⊢
    have hhinted := (h.through_sync hok hthrough).step (Or.inr rfl)
      (h.leaves_hinted hok)
    exact hhinted.step (Dir.moves_create _ _) hrolled

theorem through_wrote (h : Survives maps s chart) (hok : s.Ok) {s' : Store}
    {r : Rec} (hwrote : s.Wrote r s')
    (hmap : maps (act (recorded chart s.writer.fileId) r.write))
    (hthrough : s.dir.Through (Disk.Leaves maps)) {bytes : Bytes}
    (hdir : s'.dir = ((s.rollIfNeeded bytes.length).writer.append
      (s.rollIfNeeded bytes.length).dir bytes Reach.buffer).2.2) :
    s'.dir.Through (Disk.Leaves maps) := by
  have hleaves := (h.wrote hok hwrote hmap).leaves (hwrote.ok hok)
  rw [hdir] at hleaves ⊢
  exact (h.through_rolled hok hthrough bytes.length).step
    (LogWriter.moves_append _ _ bytes) hleaves

end Survives

/-!
# What work on the side leaves alone
-/

theorem Store.idle_of_beginCompaction {s s' : Store} {job : CompactionJob}
    (h : s.beginCompaction = Except.ok (job, s')) :
    s.compacting = false ∧ s.restoring = false := by
  unfold Store.beginCompaction at h
  split at h
  · cases h
  · next hidle => simpa using hidle

theorem Store.idle_of_beginRestore {s s' : Store} {job : Minicask.RestoreJob}
    (h : s.beginRestore = Except.ok (job, s')) :
    s.compacting = false ∧ s.restoring = false := by
  unfold Store.beginRestore at h
  split at h
  · cases h
  · next hidle => simpa using hidle

/-- The file that is written to, and the applied index, are as they were. -/
structure Tended (s s' : Store) : Prop where
  writer : s'.writer = s.writer
  active : s'.dir.disk.data.lookup s.writer.fileId =
    s.dir.disk.data.lookup s.writer.fileId
  applied : s'.dir.disk.appliedIndex = s.dir.disk.appliedIndex

theorem Tended.durable {s s' : Store} (h : Tended s s')
    (hdurable : s.Durable) : s'.Durable := by
  unfold Store.Durable Disk.synced at hdurable ⊢
  rw [h.writer, h.active]
  exact hdurable

theorem durable_of_empty {s : Store} (hok : s.Ok) (hempty : s.writer.offset = 0) :
    s.Durable := by
  have hless := s.dir.disk.synced_le s.writer.fileId
  have hlength := hok.writer.length_contents
  rw [hempty, LogWriter.contents, List.length_append] at hlength
  rw [Store.Durable, hempty]
  omega

theorem appliedIndex_sealInto {s : Store} (hok : s.Ok) (next : FileId) :
    (s.sealInto next).dir.disk.appliedIndex = s.dir.disk.appliedIndex := by
  have hsync := (Store.advanced_sync hok).appended.frame.appliedIndex
  refine Eq.trans ?_ hsync
  show ((Hint.write s.sync.dir _ _ _).create next).disk.appliedIndex = _
  unfold Dir.create
  split <;> rfl

theorem appliedIndex_placed (dir : Dir) (slot : FileId) (bytes : Bytes)
    (offset : Nat) (hints : List HintEntry) :
    (Hint.write ((dir.writePart slot bytes).renamePart slot) slot offset
      hints).disk.appliedIndex = dir.disk.appliedIndex := by
  show ((dir.writePart slot bytes).renamePart slot).disk.appliedIndex = _
  unfold Dir.renamePart
  split <;> rfl

theorem tended_placed {s : Store} {slot : FileId} {oldIds : List FileId}
    (hslot : s.Reserved slot oldIds) {bytes : Bytes} {dir : Dir}
    (hplaced : s.dir.Placed slot bytes dir)
    (happlied : dir.disk.appliedIndex = s.dir.disk.appliedIndex) :
    Tended s { s with dir := dir } :=
  ⟨rfl, hplaced.lookup _ (Nat.ne_of_gt hslot.below), happlied⟩

theorem tended_removed {s s' : Store} {ids : List FileId}
    (h : s.Trimmed ids s') (hactive : s.writer.fileId ∉ ids) : Tended s s' := by
  rcases removeFiles_spec ids s.dir with ⟨happlied, hlookup⟩
  refine ⟨h.writer, ?_, ?_⟩
  · rw [h.dir, (hlookup _).1, if_neg hactive]
  · rw [h.dir, happlied]

theorem appliedIndex_run {job : CompactionJob} {dir dir' : Dir}
    {merged : MergedFile} (h : job.run dir = Except.ok (merged, dir')) :
    dir'.disk.appliedIndex = dir.disk.appliedIndex := by
  unfold CompactionJob.run at h
  rcases Fallible.bind_eq_ok h with ⟨copies, _, h⟩
  cases h
  exact appliedIndex_placed _ _ _ _ _

end Minicask
