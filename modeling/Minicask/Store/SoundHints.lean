import Mathlib.Data.List.Infix
import Minicask.Store.HintedOpens
import Minicask.Store.Restoring

/-!
# Hints that stay true

In every state that a store's files go through, each data file is the start of some
records, and each hint describes records that are there and synced.  A file only
grows, loses an end that was never synced, or goes after its hint did, so a hint
once true stays true until it is gone.
-/

namespace Minicask

open Replay

/-- Each file is the start of its records.  How far it is synced is the end of one
of them, or all there is, and its hint reaches no further. -/
structure Disk.SoundAs (disk : Disk) (chart : Chart) : Prop where
  files : forall id, disk.contents id <+: Rec.join (chart id)
  marks : forall id,
    (exists rs, rs <+: chart id ∧ disk.synced id = (Rec.join rs).length) ∨
      disk.synced id = (disk.contents id).length
  hints : forall id bytes, disk.hints.lookup id = some bytes ->
    HintOk disk id (chart id) bytes

def Disk.Sound (disk : Disk) : Prop :=
  exists chart, disk.SoundAs chart

theorem Dir.lookup_renamePart {dir : Dir} {id : FileId} {bytes : Bytes}
    (h : dir.disk.parts.lookup id = some bytes) :
    (dir.renamePart id).disk.data.lookup id =
      some (File.syncData (File.writeAll {} bytes)) := by
  unfold renamePart
  rw [h]
  exact AList.lookup_insert _

namespace Disk.SoundAs

/-- What the files hold, how far they are synced, and the hints are all there is
to it. -/
theorem congr {disk disk' : Disk} {chart : Chart} (h : disk.SoundAs chart)
    (hcontents : forall id, disk'.contents id = disk.contents id)
    (hsynced : forall id, disk'.synced id = disk.synced id)
    (hhints : forall id bytes, disk'.hints.lookup id = some bytes ->
      disk.hints.lookup id = some bytes) : disk'.SoundAs chart where
  files id := by
    rw [hcontents]
    exact h.files id
  marks id := by
    rw [hcontents, hsynced]
    exact h.marks id
  hints id bytes hlookup := by
    rw [HintOk, hsynced]
    exact h.hints id bytes (hhints id bytes hlookup)

theorem mono {disk : Disk} {chart chart' : Chart} (h : disk.SoundAs chart)
    (hle : forall id, chart id <+: chart' id) : disk.SoundAs chart' where
  files id := (h.files id).trans (join_mono (hle id))
  marks id := by
    rcases h.marks id with ⟨rs, hrs, hsynced⟩ | hall
    · exact Or.inl ⟨rs, hrs.trans (hle id), hsynced⟩
    · exact Or.inr hall
  hints id bytes hlookup :=
    (h.hints id bytes hlookup).mono (hle id) (Nat.le_refl _)

theorem changed {disk disk' : Disk} {chart chart' : Chart}
    (h : disk.SoundAs chart) (id : FileId)
    (hchart : forall other, other ≠ id -> chart' other = chart other)
    (hlookup : forall other, other ≠ id ->
      disk'.data.lookup other = disk.data.lookup other)
    (hhints : forall other, other ≠ id ->
      disk'.hints.lookup other = disk.hints.lookup other)
    (hfile : disk'.contents id <+: Rec.join (chart' id))
    (hmark : (exists rs, rs <+: chart' id ∧
      disk'.synced id = (Rec.join rs).length) ∨
      disk'.synced id = (disk'.contents id).length)
    (hhint : forall bytes, disk'.hints.lookup id = some bytes ->
      HintOk disk' id (chart' id) bytes) : disk'.SoundAs chart' where
  files other := by
    by_cases heq : other = id
    · rw [heq]
      exact hfile
    · rw [Disk.contents, hlookup other heq, hchart other heq]
      exact h.files other
  marks other := by
    by_cases heq : other = id
    · rw [heq]
      exact hmark
    · rw [Disk.contents, Disk.synced, hlookup other heq, hchart other heq]
      exact h.marks other
  hints other bytes hbytes := by
    by_cases heq : other = id
    · subst heq
      exact hhint bytes hbytes
    · rw [HintOk, Disk.synced, hlookup other heq, hchart other heq]
      rw [hhints other heq] at hbytes
      exact h.hints other bytes hbytes

/-!
# What each step leaves
-/

theorem create {dir : Dir} {chart : Chart} (h : dir.disk.SoundAs chart)
    (id : FileId) : (dir.create id).disk.SoundAs chart := by
  have hfile : forall other,
      ((dir.create id).disk.data.lookup other).getD {} =
        (dir.disk.data.lookup other).getD {} := by
    intro other
    rw [Dir.lookup_create]
    split
    · next heq => rw [heq, Option.getD_some]
    · rfl
  refine h.congr ?_ ?_ ?_
  · intro other
    rw [Disk.contents, hfile, Disk.contents]
  · intro other
    rw [Disk.synced, hfile, Disk.synced]
  · intro other bytes hlookup
    rw [Dir.hints_create] at hlookup
    exact hlookup

/-- More of the records of a file, which was synced up to the end of one. -/
theorem writeAll {dir : Dir} {chart : Chart} (h : dir.disk.SoundAs chart)
    {id : FileId} (hid : id ∈ dir.disk.data) {bytes : Bytes}
    (hbytes : dir.disk.contents id ++ bytes <+: Rec.join (chart id))
    (hmark : exists rs, rs <+: chart id ∧
      dir.disk.synced id = (Rec.join rs).length) :
    (dir.writeAll id bytes).disk.SoundAs chart := by
  have hframe := Dir.writeAll_sameBut dir id bytes
  have hsynced := Dir.synced_writeAll dir id bytes
  refine h.changed id (fun _ _ => rfl) hframe.lookup ?_ ?_ (Or.inl ?_) ?_
  · intro other _
    rw [hframe.hints]
  · rw [Dir.contents_writeAll bytes hid]
    exact hbytes
  · rw [hsynced]
    exact hmark
  · intro hint hlookup
    rw [hframe.hints] at hlookup
    exact (h.hints id hint hlookup).mono (List.prefix_refl _) hframe.synced

theorem syncData {dir : Dir} {chart : Chart} (h : dir.disk.SoundAs chart)
    (id : FileId) : (dir.syncData id).disk.SoundAs chart := by
  have hframe := Dir.syncData_sameBut dir id
  have hcontents : (dir.syncData id).disk.contents id =
      dir.disk.contents id := by
    by_cases hid : id ∈ dir.disk.data
    · exact Dir.contents_syncData hid
    · rw [Disk.contents, Disk.contents, Dir.syncData, Dir.lookup_modify,
        if_pos rfl, AList.lookup_eq_none.mpr hid]
      rfl
  refine h.changed id (fun _ _ => rfl) hframe.lookup ?_ ?_ (Or.inr ?_) ?_
  · intro other _
    rw [hframe.hints]
  · rw [hcontents]
    exact h.files id
  · rw [Dir.synced_syncData, hcontents]
  · intro hint hlookup
    rw [hframe.hints] at hlookup
    exact (h.hints id hint hlookup).mono (List.prefix_refl _) hframe.synced

theorem setLen {dir : Dir} {chart : Chart} (h : dir.disk.SoundAs chart)
    {id : FileId} {rs : List Rec} (hrs : rs <+: chart id)
    (hwithin : Rec.join rs <+: dir.disk.contents id)
    (hhint : forall hinted, hinted <+: chart id ->
      (Rec.join hinted).length <= dir.disk.synced id ->
      (Rec.join hinted).length <= (Rec.join rs).length) :
    (dir.setLen id (Rec.join rs).length).disk.SoundAs chart := by
  have hlookup : forall other, other ≠ id ->
      (dir.setLen id (Rec.join rs).length).disk.data.lookup other =
        dir.disk.data.lookup other := by
    intro other hne
    rw [Dir.setLen, Dir.lookup_modify, if_neg hne]
  have hhints : (dir.setLen id (Rec.join rs).length).disk.hints =
      dir.disk.hints := Dir.hints_modify dir id _
  have hcontents : (dir.setLen id (Rec.join rs).length).disk.contents id =
      (dir.disk.contents id).take (Rec.join rs).length := by
    rw [Disk.contents, Disk.contents, Dir.setLen, Dir.lookup_modify,
      if_pos rfl]
    cases dir.disk.data.lookup id with
    | none => exact List.take_nil.symm
    | some file => rfl
  have hsynced : (dir.setLen id (Rec.join rs).length).disk.synced id =
      min (dir.disk.synced id) (Rec.join rs).length := by
    rw [Disk.synced, Disk.synced, Dir.setLen, Dir.lookup_modify, if_pos rfl]
    cases dir.disk.data.lookup id with
    | none => exact (Nat.zero_min _).symm
    | some file => rfl
  refine h.changed id (fun _ _ => rfl) hlookup ?_ ?_ (Or.inl ?_) ?_
  · intro other _
    rw [hhints]
  · rw [hcontents]
    exact (List.take_prefix _ _).trans (h.files id)
  · rw [hsynced]
    rcases Nat.le_total (dir.disk.synced id) (Rec.join rs).length with hle | hle
    · rw [Nat.min_eq_left hle]
      rcases h.marks id with hmark | hall
      · exact hmark
      · refine ⟨rs, hrs, Nat.le_antisymm hle ?_⟩
        rw [hall]
        exact hwithin.length_le
    · rw [Nat.min_eq_right hle]
      exact ⟨rs, hrs, rfl⟩
  · intro hint hbytes
    rw [hhints] at hbytes
    rcases h.hints id hint hbytes with
      ⟨hinted, es, hprefix, heq, hdescribes, hle⟩
    refine ⟨hinted, es, hprefix, heq, hdescribes, ?_⟩
    rw [hsynced]
    exact Nat.le_min.mpr ⟨hle, hhint hinted hprefix hle⟩

theorem writeHint {dir : Dir} {chart : Chart} (h : dir.disk.SoundAs chart)
    {id : FileId} {rs : List Rec} (hrs : rs <+: chart id)
    {es : List HintEntry} (hes : Hint.Describes 0 es rs)
    (hsynced : (Rec.join rs).length <= dir.disk.synced id) :
    (Hint.write dir id (Rec.join rs).length es).disk.SoundAs chart := by
  refine h.changed id (fun _ _ => rfl) (fun _ _ => rfl) ?_ (h.files id)
    (h.marks id) ?_
  · intro other hne
    rw [Hint.write, Dir.hints_writeHint, AList.lookup_insert_ne hne]
  · intro bytes hbytes
    rw [Hint.write, Dir.hints_writeHint, AList.lookup_insert,
      Option.some.injEq] at hbytes
    exact ⟨rs, es, hrs, hbytes.symm, hes, hsynced⟩

theorem removeHint {dir : Dir} {chart : Chart} (h : dir.disk.SoundAs chart)
    (id : FileId) : (dir.removeHint id).disk.SoundAs chart := by
  refine h.congr ?_ ?_ ?_
  · intro other
    rw [Disk.contents, Dir.data_removeHint]
    rfl
  · intro other
    rw [Disk.synced, Dir.data_removeHint]
    rfl
  · intro other bytes hlookup
    rw [Dir.lookup_removeHint] at hlookup
    split at hlookup
    · cases hlookup
    · exact hlookup

theorem removeData {dir : Dir} {chart : Chart} (h : dir.disk.SoundAs chart)
    {id : FileId} (hhint : dir.disk.hints.lookup id = none) :
    (dir.removeData id).disk.SoundAs chart := by
  have hnone : (dir.removeData id).disk.data.lookup id = none := by
    rw [Dir.lookup_removeData, if_pos rfl]
  refine h.changed id (fun _ _ => rfl) ?_ ?_ ?_ (Or.inr ?_) ?_
  · intro other hne
    rw [Dir.lookup_removeData, if_neg hne]
  · intro other _
    rw [Dir.hints_removeData]
  · rw [Disk.contents, hnone]
    exact List.nil_prefix
  · rw [Disk.contents, Disk.synced, hnone]
    rfl
  · intro bytes hbytes
    rw [Dir.hints_removeData, hhint] at hbytes
    cases hbytes

theorem renamePart {dir : Dir} {chart : Chart} (h : dir.disk.SoundAs chart)
    {id : FileId} (hhint : dir.disk.hints.lookup id = none) {rs : List Rec}
    (hpart : dir.disk.parts.lookup id = some (Rec.join rs)) :
    (dir.renamePart id).disk.SoundAs (Function.update chart id rs) := by
  have hrenamed : dir.renamePart id = dir.move { dir.disk with
      parts := dir.disk.parts.erase id
      data := dir.disk.data.insert id
        (File.syncData (File.writeAll {} (Rec.join rs))) } := by
    unfold Dir.renamePart
    rw [hpart]
  have hhints : (dir.renamePart id).disk.hints = dir.disk.hints := by
    rw [hrenamed]
    rfl
  have hfile := Dir.lookup_renamePart hpart
  refine h.changed id ?_ ?_ ?_ ?_ (Or.inr ?_) ?_
  · intro other hne
    exact Function.update_of_ne hne rs chart
  · intro other hne
    rw [hrenamed]
    exact AList.lookup_insert_ne hne
  · intro other _
    rw [hhints]
  · rw [Disk.contents, hfile, Function.update_self]
    exact List.prefix_refl _
  · rw [Disk.contents, Disk.synced, hfile]
    rfl
  · intro bytes hbytes
    rw [hhints, hhint] at hbytes
    cases hbytes

end Disk.SoundAs

/-!
# All along
-/

/-- Sound in every state so far, and now with these records. -/
structure Dir.SoundAs (dir : Dir) (chart : Chart) : Prop where
  through : dir.Through Disk.Sound
  now : dir.disk.SoundAs chart

theorem Dir.SoundAs.step {dir dir' : Dir} {chart chart' : Chart}
    (h : dir.SoundAs chart) (hmoves : dir.Moves dir')
    (hnow : dir'.disk.SoundAs chart') : dir'.SoundAs chart' :=
  ⟨h.through.step hmoves ⟨chart', hnow⟩, hnow⟩

theorem Dir.SoundAs.mono {dir : Dir} {chart chart' : Chart}
    (h : dir.SoundAs chart) (hle : forall id, chart id <+: chart' id) :
    dir.SoundAs chart' :=
  ⟨h.through, h.now.mono hle⟩

theorem Chart.le_extend (chart : Chart) (id : FileId) (rs : List Rec)
    (other : FileId) : chart other <+: chart.extend id rs other := by
  by_cases heq : other = id
  · rw [heq, Chart.extend_self]
    exact List.prefix_append _ _
  · rw [Chart.extend_of_ne chart rs heq]

/-- A writer on a file whose records are known, up to what is in its buffer. -/
structure LogWriter.SoundAs (w : LogWriter) (dir : Dir) (chart : Chart) :
    Prop where
  ok : w.Ok dir
  sound : dir.SoundAs chart
  contents : w.contents dir = Rec.join (chart w.fileId)
  mark : exists rs, rs <+: chart w.fileId ∧
    dir.disk.synced w.fileId = (Rec.join rs).length

namespace LogWriter.SoundAs

theorem flush {w : LogWriter} {dir : Dir} {chart : Chart}
    (h : w.SoundAs dir chart) :
    (w.flush dir).1.SoundAs (w.flush dir).2 chart := by
  have happended := (appended_flush h.ok).1
  have hsynced := LogWriter.synced_flush w dir w.fileId
  refine ⟨happended.ok, h.sound.step (moves_flush w dir) ?_, ?_, ?_⟩
  · unfold LogWriter.flush
    split
    · exact h.sound.now
    · apply h.sound.now.writeAll h.ok.linked _ h.mark
      show w.contents dir <+: _
      rw [h.contents]
  · rw [happended.contents, List.append_nil, happended.fileId]
    exact h.contents
  · rw [happended.fileId, hsynced]
    exact h.mark

theorem syncData {w : LogWriter} {dir : Dir} {chart : Chart}
    (h : w.SoundAs dir chart) (hpending : w.pending = []) (synced : Nat) :
    { w with synced := synced }.SoundAs (dir.syncData w.fileId) chart := by
  have hcontents := Dir.contents_syncData h.ok.linked
  have hwhole : dir.disk.contents w.fileId = Rec.join (chart w.fileId) := by
    rw [← h.contents, LogWriter.contents, hpending, List.append_nil]
  refine ⟨⟨?_, ?_, h.ok.offset⟩, h.sound.step (Dir.moves_modify dir _ _)
    (h.sound.now.syncData w.fileId), ?_, ?_⟩
  · exact (Dir.syncData_sameBut dir w.fileId).linked h.ok.linked
  · show ((dir.syncData w.fileId).disk.contents w.fileId).length = _
    rw [hcontents]
    exact h.ok.written
  · rw [← h.contents]
    show (dir.syncData w.fileId).disk.contents w.fileId ++ w.pending = _
    rw [hcontents]
    rfl
  · refine ⟨chart w.fileId, List.prefix_refl _, ?_⟩
    show (dir.syncData w.fileId).disk.synced w.fileId = _
    rw [Dir.synced_syncData, hwhole]

theorem sync {w : LogWriter} {dir : Dir} {chart : Chart}
    (h : w.SoundAs dir chart) :
    (w.sync dir).1.SoundAs (w.sync dir).2 chart := by
  have hpending := (appended_flush h.ok).2
  exact h.flush.syncData hpending (w.flush dir).1.offset

theorem append {w : LogWriter} {dir : Dir} {chart : Chart}
    (h : w.SoundAs dir chart) (r : Rec) (reach : Reach) :
    (w.append dir r.bytes reach).2.1.SoundAs (w.append dir r.bytes reach).2.2
      (chart.extend w.fileId [r]) := by
  have hjoin : w.contents dir ++ r.bytes =
      Rec.join (chart.extend w.fileId [r] w.fileId) := by
    rw [h.contents, Chart.extend_self, Rec.join_append, Rec.join_cons,
      Rec.join_nil, List.append_nil]
  have hdir := h.sound.mono (chart.le_extend w.fileId [r])
  have hmark : exists rs, rs <+: chart.extend w.fileId [r] w.fileId ∧
      dir.disk.synced w.fileId = (Rec.join rs).length := by
    rcases h.mark with ⟨rs, hrs, hsynced⟩
    exact ⟨rs, hrs.trans (chart.le_extend w.fileId [r] w.fileId), hsynced⟩
  unfold LogWriter.append
  dsimp only
  split
  · next hdirect =>
      have hpending := List.isEmpty_iff.mp hdirect.2
      have happended := appended_writeAll h.ok r.bytes w.synced hpending
      have hwrote : LogWriter.SoundAs
          { w with
            offset := w.offset + r.bytes.length
            written := w.offset + r.bytes.length }
          (dir.writeAll w.fileId r.bytes) (chart.extend w.fileId [r]) := by
        refine ⟨happended.ok, hdir.step (Dir.moves_modify dir _ _)
          (hdir.now.writeAll h.ok.linked ?_ hmark), ?_, ?_⟩
        · rw [← hjoin, LogWriter.contents, hpending, List.append_nil]
        · exact happended.contents.trans hjoin
        · show exists rs, _ ∧ (dir.writeAll w.fileId r.bytes).disk.synced _ = _
          rw [Dir.synced_writeAll]
          exact hmark
      split
      · exact hwrote.syncData hpending _
      · exact hwrote
  · have happended := appended_pending h.ok r.bytes
    have hbuffered : LogWriter.SoundAs
        { w with
          pending := w.pending ++ r.bytes
          offset := w.offset + r.bytes.length } dir
        (chart.extend w.fileId [r]) :=
      ⟨happended.ok, hdir, happended.contents.trans hjoin, hmark⟩
    cases reach with
    | buffer =>
        dsimp only
        split
        · exact hbuffered
        · exact hbuffered.flush
    | kernel => exact hbuffered.flush
    | disk => exact hbuffered.sync

end LogWriter.SoundAs

theorem LogWriter.soundAs_openFile {dir : Dir} {chart : Chart}
    (h : dir.SoundAs chart) {id : FileId} (hid : id ∉ dir.disk.data)
    (hempty : chart id = []) :
    (LogWriter.openFile dir id).1.SoundAs (LogWriter.openFile dir id).2
      chart := by
  have hlookup : (dir.create id).disk.data.lookup id = some {} := by
    rw [Dir.lookup_create, if_pos rfl, AList.lookup_eq_none.mpr hid]
    rfl
  refine ⟨ok_openFile, h.step (Dir.moves_create dir id) (h.now.create id),
    ?_, ?_⟩
  · show (dir.create id).disk.contents id ++ [] = Rec.join (chart id)
    rw [Disk.contents, hlookup, hempty]
    rfl
  · refine ⟨[], List.nil_prefix, ?_⟩
    show (dir.create id).disk.synced id = _
    rw [Disk.synced, hlookup]
    rfl

namespace Dir.SoundAs

theorem writePart {dir : Dir} {chart : Chart} (h : dir.SoundAs chart)
    (id : FileId) (bytes : Bytes) : (dir.writePart id bytes).SoundAs chart :=
  h.step (Or.inr rfl) (h.now.congr (fun _ => rfl) (fun _ => rfl)
    (fun _ _ hlookup => hlookup))

theorem removePart {dir : Dir} {chart : Chart} (h : dir.SoundAs chart)
    (id : FileId) : (dir.removePart id).SoundAs chart :=
  h.step (Or.inr rfl) (h.now.congr (fun _ => rfl) (fun _ => rfl)
    (fun _ _ hlookup => hlookup))

theorem removeFiles {dir : Dir} {chart : Chart} (h : dir.SoundAs chart)
    (ids : List FileId) : (removeFiles dir ids).SoundAs chart := by
  induction ids generalizing dir with
  | nil => exact h
  | cons id ids ih =>
      have hhint := h.step (Dir.moves_removeHint dir id)
        (h.now.removeHint id)
      have hgone : (dir.removeHint id).disk.hints.lookup id = none := by
        rw [Dir.lookup_removeHint, if_pos rfl]
      exact ih (hhint.step (Dir.moves_removeData _ id)
        (hhint.now.removeData hgone))

theorem placed {dir : Dir} {chart : Chart} (h : dir.SoundAs chart)
    {id : FileId} (hhint : dir.disk.hints.lookup id = none) {rs : List Rec}
    {es : List HintEntry} (hes : Hint.Describes 0 es rs) :
    (Hint.write ((dir.writePart id (Rec.join rs)).renamePart id) id
      (Rec.join rs).length es).SoundAs (Function.update chart id rs) := by
  have hpart : (dir.writePart id (Rec.join rs)).disk.parts.lookup id =
      some (Rec.join rs) := AList.lookup_insert _
  have hwritten := h.writePart id (Rec.join rs)
  have hmoves : (dir.writePart id (Rec.join rs)).Moves
      ((dir.writePart id (Rec.join rs)).renamePart id) := by
    unfold Dir.renamePart
    rw [hpart]
    exact Or.inr rfl
  have hrenamed := hwritten.step hmoves (hwritten.now.renamePart hhint hpart)
  have hsynced : ((dir.writePart id (Rec.join rs)).renamePart id).disk.synced
      id = (Rec.join rs).length := by
    rw [Disk.synced, Dir.lookup_renamePart hpart]
    rfl
  have hall : rs <+: Function.update chart id rs id := by
    rw [Function.update_self]
  exact hrenamed.step (Or.inr rfl) (hrenamed.now.writeHint hall hes
    (Nat.le_of_eq hsynced.symm))

end Dir.SoundAs

/-!
# What a store does
-/

theorem Charted.soundAs {s : Store} {chart : Chart}
    (h : Charted s.allRead chart) : s.dir.disk.SoundAs chart where
  files id := by
    by_cases hactive : id = s.writer.fileId
    · rcases h.flushed with ⟨rs, hrs, hcontents⟩
      have hcontents' : s.dir.disk.contents s.writer.fileId = Rec.join rs :=
        hcontents
      rw [hactive, hcontents']
      exact join_mono hrs
    · by_cases hid : id ∈ s.dir.disk.data
      · have hcontents : s.dir.disk.contents id = Rec.join (chart id) :=
          (h.sealed id hid hactive).1
        rw [hcontents]
      · rw [Disk.contents, AList.lookup_eq_none.mpr hid]
        exact List.nil_prefix
  marks id := by
    by_cases hactive : id = s.writer.fileId
    · rw [hactive]
      exact Or.inl h.synced
    · exact Or.inr (h.synced_of_ne hactive)
  hints := h.hints

theorem Charted.soundWriter {s : Store} {chart : Chart} (hok : s.Ok)
    (h : Charted s.allRead chart) (hthrough : s.dir.Through Disk.Sound) :
    s.writer.SoundAs s.dir chart :=
  ⟨hok.writer, ⟨hthrough, h.soundAs⟩, h.contents, h.synced⟩

namespace Store

theorem sound_sealInto {s : Store} {chart : Chart}
    (h : s.writer.SoundAs s.dir chart)
    (hhints : Hint.Describes 0 s.activeHints (chart s.writer.fileId))
    {nextId : FileId} (hnext : nextId ∉ s.sync.dir.disk.data)
    (hempty : chart nextId = []) :
    (s.sealInto nextId).writer.SoundAs (s.sealInto nextId).dir chart := by
  have hsync := h.sync
  have happended := (LogWriter.appended_sync h.ok).1
  have hoffset : (s.writer.sync s.dir).1.offset =
      (Rec.join (chart s.writer.fileId)).length := by
    rw [← happended.ok.length_contents, happended.contents, List.append_nil,
      h.contents]
  have hsynced : (Rec.join (chart s.writer.fileId)).length <=
      (s.writer.sync s.dir).2.disk.synced s.writer.fileId := by
    rw [LogWriter.synced_sync h.ok, ← h.contents, h.ok.length_contents]
  have hwrote := hsync.sound.step (Or.inr rfl)
    (hsync.sound.now.writeHint (List.prefix_refl _) hhints hsynced)
  unfold sealInto
  dsimp only
  rw [happended.fileId, hoffset]
  exact LogWriter.soundAs_openFile hwrote hnext hempty

theorem sound_rollIfNeeded {s : Store} {chart : Chart} (hok : s.Ok)
    (h : Charted s.allRead chart) (hthrough : s.dir.Through Disk.Sound)
    (incoming : Nat) :
    (s.rollIfNeeded incoming).writer.SoundAs (s.rollIfNeeded incoming).dir
      chart := by
  have hwriter := h.soundWriter hok hthrough
  unfold rollIfNeeded
  split
  · exact hwriter
  · exact sound_sealInto hwriter h.activeHints
      (not_mem_of_gt hok (Nat.lt_succ_self _))
      (h.empty_of_gt hok.allRead (Nat.lt_succ_self s.writer.fileId))

theorem dir_putWith {s s' : Store} {key value : Bytes} {reach : Reach}
    {now later : UInt64}
    (h : s.putWith key value reach now later = Except.ok s') :
    exists bytes, encode key (some value) now = Except.ok bytes ∧
      s'.dir = ((s.rollIfNeeded bytes.length).writer.append
        (s.rollIfNeeded bytes.length).dir bytes reach).2.2 := by
  rcases putWith_eq_ok h with
    ⟨_, bytes, _, _, _, _, hencode, rfl, happend, rfl⟩
  exact ⟨bytes, hencode, by rw [← happend]⟩

theorem dir_deleteWith {s s' : Store} {key : Bytes} {reach : Reach}
    {now later : UInt64} {was : Bool}
    (h : s.deleteWith key reach now later = Except.ok (s', was)) :
    s' = s ∨ exists bytes, encode key none now = Except.ok bytes ∧
      s'.dir = ((s.rollIfNeeded bytes.length).writer.append
        (s.rollIfNeeded bytes.length).dir bytes reach).2.2 := by
  rcases deleteWith_eq_ok h with
    ⟨_, _, ⟨_, hsame⟩ | ⟨_, bytes, _, _, _, _, hencode, rfl, happend, rfl⟩⟩
  · exact Or.inl hsame
  · exact Or.inr ⟨bytes, hencode, by rw [← happend]⟩

/-- A record goes to the active file, after a rollover if one is due. -/
theorem through_append {s : Store} {chart : Chart} (hok : s.Ok)
    (h : Charted s.allRead chart) (hthrough : s.dir.Through Disk.Sound)
    (r : Rec) (reach : Reach) :
    ((s.rollIfNeeded r.bytes.length).writer.append
      (s.rollIfNeeded r.bytes.length).dir r.bytes reach).2.2.Through
        Disk.Sound :=
  ((sound_rollIfNeeded hok h hthrough r.bytes.length).append r
    reach).sound.through

end Store

end Minicask
