import Minicask.Store.HintHistories

/-!
# What the files replay to over whole histories

Whatever a directory has been through, the index of a store that is open on it is
what replaying its files gives.  While a merge is out its copies are among the
files and change nothing, and once a restore is installed there is nothing else.
-/

namespace Minicask

open Replay

/-- The index is what replaying the files gives. -/
def Replayed (s : Store) : Prop :=
  exists chart, Charted s.allRead chart ∧
    s.Indexes (recorded chart s.writer.fileId)

/-- The active file is empty, and every other but the one in the slot goes when a
restore is installed. -/
structure Bare (s : Store) (oldIds : List FileId) (slot : Option FileId) :
    Prop where
  empty : s.writer.offset = 0
  old : forall id, id ∈ s.dir.disk.data -> id ≠ s.writer.fileId ->
    slot ≠ some id -> id ∈ oldIds

/-- The notes taken of a file are an index of its records. -/
structure Noted (id : FileId) (index : List (Bytes × Location))
    (rs : List Rec) : Prop where
  points : Points (Chart.only id rs) (insertAll ∅ index)
    (replay empty (rs.map Rec.write))

/-- What the files come to, while some work may be out. -/
def Backed (s : Store) : Out -> Prop
  | Out.idle => Replayed s
  | Out.merging job => exists m chart, Backs s (Compacting.started job) m chart
  | Out.merged merged =>
      exists m chart, Backs s (Compacting.finished merged) m chart
  | Out.restoring job =>
      Replayed s ∧ Bare s job.oldIds none ∧
        exists rs, job.Of rs ∧ Hint.Describes 0 job.hints rs ∧
          Noted job.id job.index rs
  | Out.restored restored =>
      Bare s restored.oldIds (some restored.id) ∧
        exists chart, Charted s.allRead chart ∧
          Noted restored.id restored.index (chart restored.id)

theorem Backs.replayed {s : Store} {m : Contents} {chart : Chart}
    (h : Backs s Compacting.idle m chart) : Replayed s := by
  refine ⟨chart, h.charted, ?_⟩
  rw [h.whole]
  exact h.indexes

theorem Replayed.backs {s : Store} (h : Replayed s)
    (halive : Alive s Out.idle) :
    exists m chart, Backs s Compacting.idle m chart := by
  rcases h with ⟨chart, hcharted, hindexes⟩
  rcases halive.out with ⟨hcompacting, hrestoring, hknown⟩
  exact ⟨_, chart, halive.ok, hindexes, hrestoring, hcharted, rfl, hcompacting,
    hknown⟩

/-- What lies beside the data files and their hints, and the flags, are no part
of it. -/
theorem Replayed.flagged {s s' : Store} (h : Replayed s)
    (hdata : s'.dir.disk.data = s.dir.disk.data)
    (hhints : s'.dir.disk.hints = s.dir.disk.hints)
    (hwriter : s'.writer = s.writer) (hreaders : s'.readers = s.readers)
    (hkeydir : s'.keydir = s.keydir)
    (hactive : s'.activeHints = s.activeHints) : Replayed s' := by
  rcases h with ⟨chart, hcharted, hindexes⟩
  refine ⟨chart, hcharted.congr hdata hhints hwriter hactive
    (fun _ hid => AList.mem_keys.mp hid), ?_⟩
  rw [hwriter]
  exact hindexes.flagged hdata hwriter hreaders hkeydir

/-!
# Calls
-/

theorem Replayed.sync {s : Store} (h : Replayed s) (hok : s.Ok) :
    Replayed s.sync := by
  rcases h with ⟨chart, hcharted, hindexes⟩
  have hadvanced := Store.advanced_sync hok
  refine ⟨chart, hcharted.allRead_sync hok, ?_⟩
  rw [hadvanced.appended.fileId]
  exact hindexes.carried (hadvanced.carries hok) rfl

theorem Bare.sync {s : Store} (hok : s.Ok) {oldIds : List FileId}
    {slot : Option FileId} (h : Bare s oldIds slot) :
    Bare s.sync oldIds slot := by
  have happended := (LogWriter.appended_sync hok.writer).1
  have hid : s.sync.writer.fileId = s.writer.fileId := happended.fileId
  constructor
  · have hoffset : s.sync.writer.offset = s.writer.offset + 0 :=
      happended.offset hok.writer
    rw [hoffset, h.empty]
  · intro id hin hne hslot
    rw [hid] at hne
    exact h.old id ((happended.frame.mem_iff hok.writer.linked id).mp hin) hne
      hslot

/-- While a restore is out a call syncs the store, or is refused and leaves it as
it was. -/
theorem Store.call_restoring {s : Store} (hrestoring : s.restoring = true)
    {c : Call} (hplain : c.Plain) : (s.call c).1 = s ∨ (s.call c).1 = s.sync := by
  cases c with
  | put key value now later =>
      left
      rw [Store.call, Store.put, Store.putWith, if_pos hrestoring]
  | putDeferred key value now later =>
      left
      rw [Store.call, Store.putDeferred, Store.putWith, if_pos hrestoring]
  | delete key now later =>
      left
      rw [Store.call, Store.delete, Store.deleteWith, if_pos hrestoring]
  | deleteDeferred key now later =>
      left
      rw [Store.call, Store.deleteDeferred, Store.deleteWith, if_pos hrestoring]
  | sync => exact Or.inr rfl
  | compact => exact absurd hplain id
  | reopen opts => exact absurd hplain id

theorem Call.short_of_puts {c : Call} (h : c.Puts Fits) : c.Short := by
  cases c with
  | put key value now later => exact h
  | putDeferred key value now later => exact h
  | delete key now later => trivial
  | deleteDeferred key now later => trivial
  | sync => trivial
  | compact => trivial
  | reopen opts => trivial

theorem LogWriter.offset_openFile {dir : Dir} {id : FileId}
    (hfresh : id ∉ dir.disk.data) :
    (LogWriter.openFile dir id).1.offset = 0 := by
  show ((dir.create id).disk.contents id).length = 0
  rw [Disk.contents, Dir.lookup_create, if_pos rfl,
    AList.lookup_eq_none.mpr hfresh]
  rfl

theorem Alive.bare {s : Store} (halive : Alive s Out.idle) :
    Bare (s.sealInto (s.writer.fileId + 2)) s.readers none := by
  have hfresh : s.writer.fileId + 2 ∉ s.sync.dir.disk.data := by
    intro hin
    have hadvanced := Store.advanced_sync halive.ok
    have hle := (hadvanced.ok halive.ok).newest _ hin
    rw [hadvanced.appended.fileId] at hle
    exact Nat.not_succ_le_self _ (Nat.le_of_succ_le hle)
  refine ⟨LogWriter.offset_openFile hfresh, ?_⟩
  intro id hin hne _
  rcases (Store.mem_sealInto halive.ok _ _).mp hin with heq | hold
  · exact absurd heq hne
  · exact halive.out.2.2 id hold (by simp)

namespace Backed

theorem call {s : Store} {out : Out} (h : Backed s out) (halive : Alive s out)
    {c : Call} (hplain : c.Plain) (hputs : c.Puts Fits) :
    Backed (s.call c).1 out := by
  have hshort := Call.short_of_puts hputs
  cases out with
  | idle =>
      rcases Replayed.backs h halive with ⟨m, chart, hbacks⟩
      rcases hbacks.call hplain hshort with ⟨chart', hbacks'⟩
      exact hbacks'.replayed
  | merging job =>
      rcases h with ⟨m, chart, hbacks⟩
      rcases hbacks.call hplain hshort with ⟨chart', hbacks'⟩
      exact ⟨_, chart', hbacks'⟩
  | merged merged =>
      rcases h with ⟨m, chart, hbacks⟩
      rcases hbacks.call hplain hshort with ⟨chart', hbacks'⟩
      exact ⟨_, chart', hbacks'⟩
  | restoring job =>
      rcases h with ⟨hreplayed, hbare, hjob⟩
      rcases Store.call_restoring halive.out.2.1 hplain with hsame | hsynced
      · rw [hsame]
        exact ⟨hreplayed, hbare, hjob⟩
      · rw [hsynced]
        exact ⟨hreplayed.sync halive.ok, hbare.sync halive.ok, hjob⟩
  | restored restored =>
      rcases h with ⟨hbare, chart, hcharted, hnoted⟩
      rcases Store.call_restoring halive.out.2.1 hplain with hsame | hsynced
      · rw [hsame]
        exact ⟨hbare, chart, hcharted, hnoted⟩
      · rw [hsynced]
        exact ⟨hbare.sync halive.ok, chart, hcharted.allRead_sync halive.ok,
          hnoted⟩

theorem shuffled {s : Store} {out : Out} (h : Backed s out)
    (halive : Alive s out) {order : List FileId}
    (horder : Lists order s.readers) :
    Backed { s with readers := order } out := by
  have hindexes : forall m, s.Indexes m ->
      Store.Indexes { s with readers := order } m := by
    intro m hindexes
    refine hindexes.carried ?_ rfl
    intro loc r hholds
    exact ⟨hholds.located, hholds.len, (horder.2 _).mpr hholds.readable,
      hholds.whole⟩
  have hok := (halive.shuffled horder).ok
  have hout := (halive.shuffled horder).out
  cases out with
  | idle =>
      rcases h with ⟨chart, hcharted, hold⟩
      exact ⟨chart, hcharted, hindexes _ hold⟩
  | merging job =>
      rcases h with ⟨m, chart, hbacks⟩
      rcases hout with ⟨hrestoring, hknown, hjob, hslot⟩
      rcases hbacks.work with ⟨hcompacting, _, _, _, hold, hshows⟩
      exact ⟨m, chart, hok, hindexes m hbacks.indexes, hrestoring,
        hbacks.charted, hbacks.whole, hcompacting, hknown, hjob, hslot, hold,
        hshows⟩
  | merged merged =>
      rcases h with ⟨m, chart, hbacks⟩
      rcases hout with ⟨hrestoring, hknown, hmerged⟩
      rcases hbacks.work with ⟨hcompacting, _, _, hold⟩
      exact ⟨m, chart, hok, hindexes m hbacks.indexes, hrestoring,
        hbacks.charted, hbacks.whole, hcompacting, hknown, hmerged, hold⟩
  | restoring job =>
      rcases h with ⟨⟨chart, hcharted, hold⟩, hbare, hjob⟩
      exact ⟨⟨chart, hcharted, hindexes _ hold⟩, ⟨hbare.empty, hbare.old⟩, hjob⟩
  | restored restored =>
      rcases h with ⟨hbare, chart, hcharted, hnoted⟩
      exact ⟨⟨hbare.empty, hbare.old⟩, chart, hcharted, hnoted⟩

/-!
# Restores
-/

theorem beginRestore {s s' : Store} (h : Backed s Out.idle)
    (halive : Alive s Out.idle) {job : RestoreJob}
    (hbegin : s.beginRestore = Except.ok (job, s')) :
    Backed s' (Out.restoring job) := by
  rcases h with ⟨chart, hcharted, hindexes⟩
  have hnext : s.writer.fileId < s.writer.fileId + 2 :=
    Nat.lt_trans (Nat.lt_succ_self _) (Nat.lt_succ_self _)
  have hidle := halive.chartedIdle hcharted
  have hsealed := hidle.sealInto halive.ok hnext
  have hbare := halive.bare
  have hcarried := hindexes.carried (Store.carries_sealInto halive.ok hnext) rfl
  unfold Store.beginRestore at hbegin
  rw [if_neg (by simp [halive.out.1, halive.out.2.1])] at hbegin
  cases hbegin
  refine ⟨⟨chart, hsealed.congr rfl rfl rfl rfl
    (fun _ hid => AList.mem_keys.mp hid), ?_⟩, ⟨hbare.empty, hbare.old⟩, [],
    ⟨rfl, rfl, rfl, fun _ hentry => absurd hentry List.not_mem_nil⟩,
    Hint.Describes.nil 0, ⟨Points.empty _⟩⟩
  show Store.Indexes _ (recorded chart (s.writer.fileId + 2))
  rw [recorded, logged_of_empty (Nat.le_of_lt hnext)
    (fun id hgt => hidle.empty_of_gt halive.ok hgt)]
  exact hcarried.flagged rfl rfl rfl rfl

theorem push {s : Store} {job job' : RestoreJob}
    (h : Backed s (Out.restoring job)) {key value : Bytes}
    (hfits : Fits key value) (hpush : job.push key value = Except.ok job') :
    Backed s (Out.restoring job') := by
  rcases h with ⟨hreplayed, hbare, rs, hof, hhints, hnoted⟩
  rcases RestoreJob.push_eq_ok hfits hpush with ⟨r, rfl, hvalue, htstamp, rfl⟩
  have hof' := hof.pushed htstamp hvalue hpush
  have hoffset : job.offset = (Rec.join rs).length := by
    rw [← hof.file]
    exact hof.offset
  refine ⟨hreplayed, ⟨hbare.empty, hbare.old⟩, rs ++ [r], hof', ?_, ⟨?_⟩⟩
  · apply hhints.append
    refine Hint.Describes.cons rfl ?_ rfl (by rw [hvalue]; rfl)
      (Hint.Describes.nil _)
    rw [Nat.zero_add]
    exact hoffset
  · show Points _ (insertAll ∅ (job.index ++ [(r.key, _)])) _
    rw [insertAll, List.foldl_append, List.map_append, replay_append,
      ← Chart.extend_only]
    have hchart : (Chart.only job.id rs).extend job.id [r] job.id =
        rs ++ r :: [] := by
      rw [Chart.extend_self, Chart.only_self]
    exact (hnoted.points.extend job.id [r]).insert hchart
      (by simp [hvalue]) rfl hoffset rfl

theorem finish {s : Store} {job : RestoreJob}
    (h : Backed s (Out.restoring job)) (halive : Alive s (Out.restoring job)) :
    Backed { s with dir := (job.finish s.dir).2 }
      (Out.restored (job.finish s.dir).1) := by
  rcases h with ⟨⟨chart, hcharted, _⟩, hbare, rs, hof, hhints, hnoted⟩
  rcases halive.out with ⟨_, _, _, hslot, hunlinked, _⟩
  have hlookup := s.dir.lookup_placed job.id job.file job.offset job.hints
  have hhinted := s.dir.hints_placed job.id job.file job.offset job.hints
  rw [hof.offset, hof.file] at hlookup hhinted
  have hdir : (job.finish s.dir).2 = Hint.write ((s.dir.writePart job.id
      (Rec.join rs)).renamePart job.id) job.id (Rec.join rs).length
        job.hints := by
    rw [RestoreJob.finish, hof.offset, hof.file]
  rw [hdir]
  refine ⟨⟨hbare.empty, ?_⟩, Function.update chart job.id rs,
    hcharted.placed hunlinked hslot.below hhints rfl rfl hlookup hhinted, ?_⟩
  · intro id hin hne hbeside
    have hother : id ≠ job.id := fun heq => hbeside (congrArg some heq.symm)
    refine hbare.old id ?_ hne (by simp)
    have hin' : id ∈ (Hint.write ((s.dir.writePart job.id
        (Rec.join rs)).renamePart job.id) job.id (Rec.join rs).length
          job.hints).disk.data := hin
    rw [← AList.lookup_isSome, hlookup, if_neg hother,
      AList.lookup_isSome] at hin'
    exact hin'
  · show Noted job.id job.index (Function.update chart job.id rs job.id)
    rw [Function.update_self]
    exact hnoted

theorem finishRestore {s : Store} {restored : RestoredFile} {chart : Chart}
    (hbare : Bare s restored.oldIds (some restored.id))
    (hcharted : Charted s.allRead chart)
    (hnoted : Noted restored.id restored.index (chart restored.id))
    (halive : Alive s (Out.restored restored)) :
    Backs (s.finishRestore restored) Compacting.idle
      (replay empty ((chart restored.id).map Rec.write))
      (Chart.only restored.id (chart restored.id)) := by
  rcases halive.out with ⟨_, _, _, hslot, hlinked, _⟩
  have hdone := halive.finishRestore
  have htrimmed : s.Trimmed restored.oldIds (s.finishRestore restored) :=
    ⟨rfl, rfl⟩
  have hactive : chart s.writer.fileId = [] := by
    by_contra hsome
    have hlength : (Rec.join (chart s.writer.fileId)).length = 0 := by
      have hoffset := hcharted.join_length halive.ok.allRead
      exact hoffset.trans hbare.empty
    have hcount := length_le_join (chart s.writer.fileId)
    exact hsome (List.length_eq_zero_iff.mp (by omega))
  have honly : chart.without restored.oldIds =
      Chart.only restored.id (chart restored.id) := by
    funext id
    by_cases hid : id = restored.id
    · rw [hid, Chart.only_self, chart.without_of_notMem hslot.notMem]
    · rw [Chart.only_of_ne _ hid]
      by_cases hold : id ∈ restored.oldIds
      · exact chart.without_of_mem hold
      · rw [chart.without_of_notMem hold]
        by_cases hwriter : id = s.writer.fileId
        · rw [hwriter, hactive]
        · refine hcharted.absent id (fun hin => hold ?_)
          exact hbare.old id hin hwriter
            (fun heq => hid (Option.some.inj heq).symm)
  have hcharted' := hcharted.trimmed htrimmed hslot.active_notMem rfl
  rw [honly] at hcharted'
  have hne : restored.id ≠ s.writer.fileId := Nat.ne_of_lt hslot.below
  refine ⟨hdone.ok, hnoted.points.indexes ?_ ?_, rfl, hcharted', ?_, hdone.out.1,
    hdone.out.2.2⟩
  · intro id hsome
    have hid : id = restored.id := by
      by_contra hother
      exact hsome (Chart.only_of_ne _ hother)
    rw [hid, Chart.only_self, htrimmed.contents hslot.notMem,
      Store.contents_of_ne s hne]
    refine ⟨(hcharted.sealed restored.id hlinked hne).1, ?_⟩
    simp [Store.finishRestore, List.mem_insert_iff]
  · show s.writer.written = (Rec.join (Chart.only restored.id
      (chart restored.id) s.writer.fileId)).length
    rw [Chart.only_of_ne _ (Ne.symm hne)]
    have hoffset := halive.ok.writer.offset
    rw [hbare.empty] at hoffset
    exact Nat.eq_zero_of_add_eq_zero_right hoffset.symm
  · show recorded _ s.writer.fileId = _
    rw [recorded, logged_of_empty (Nat.le_of_lt hslot.below), logged_only]
    intro id hgt
    exact Chart.only_of_ne _ (Nat.ne_of_gt hgt)

/-!
# Compactions, and work given up
-/

theorem compact {s s' : Store} (h : Backed s Out.idle)
    (halive : Alive s Out.idle) (hcompact : s.compact = Except.ok s') :
    Backed s' Out.idle := by
  rcases Replayed.backs h halive with ⟨m, chart, hbacks⟩
  rcases hbacks.compact hcompact with ⟨chart', hbacks'⟩
  exact hbacks'.replayed

theorem beginCompaction {s s' : Store} (h : Backed s Out.idle)
    (halive : Alive s Out.idle) {job : CompactionJob}
    (hbegin : s.beginCompaction = Except.ok (job, s')) :
    Backed s' (Out.merging job) := by
  rcases Replayed.backs h halive with ⟨m, chart, hbacks⟩
  exact ⟨m, chart, hbacks.beginCompaction hbegin⟩

theorem runCompaction {s : Store} {job : CompactionJob}
    (h : Backed s (Out.merging job)) {merged : MergedFile} {dir : Dir}
    (hrun : job.run s.dir = Except.ok (merged, dir)) :
    Backed { s with dir := dir } (Out.merged merged) := by
  rcases h with ⟨m, chart, hbacks⟩
  rcases hbacks.runCompaction hrun with ⟨chart', hbacks'⟩
  exact ⟨m, chart', hbacks'⟩

theorem finishCompaction {s : Store} {merged : MergedFile}
    (h : Backed s (Out.merged merged)) :
    Backed (s.finishCompaction merged) Out.idle := by
  rcases h with ⟨m, chart, hbacks⟩
  exact hbacks.finishCompaction.replayed

theorem abandonCompaction {s : Store} {job : CompactionJob}
    (h : Backed s (Out.merging job)) : Backed s.abandonCompaction Out.idle := by
  rcases h with ⟨m, chart, hbacks⟩
  exact hbacks.abandonCompaction.replayed

theorem restored {s : Store} {restored : RestoredFile}
    (h : Backed s (Out.restored restored))
    (halive : Alive s (Out.restored restored)) :
    Backed (s.finishRestore restored) Out.idle := by
  rcases h with ⟨hbare, chart, hcharted, hnoted⟩
  exact (finishRestore hbare hcharted hnoted halive).replayed

theorem abandonRestore {s : Store} {job : RestoreJob}
    (h : Backed s (Out.restoring job)) :
    Backed { s.abandonRestore with dir := job.drop s.dir } Out.idle := by
  rcases h with ⟨hreplayed, _⟩
  exact hreplayed.flagged rfl rfl rfl rfl rfl rfl

end Backed

/-!
# Whole histories
-/

theorem Opened.replayed {dir : Dir} {kept : Chart} {s : Store}
    (h : Opened dir kept s) : Replayed s :=
  ⟨kept, h.charted.allRead, h.indexes⟩

theorem Disk.Sound.replayed {disk : Disk} (h : disk.Sound) {opts : Options}
    {s : Store}
    (hopen : Store.openWith { disk := disk } opts = Except.ok s) :
    Replayed s := by
  rcases h with ⟨chart, hsound⟩
  rcases (openWith_sound hsound.dir opts).2 s hopen with ⟨kept, hopened⟩
  exact hopened.replayed

def Life.Backed : Life -> Prop
  | Life.down _ => True
  | Life.up s out => Minicask.Backed s out

/-- In every history the index is what replaying the files gives. -/
theorem History.backed {life : Life} (h : History Fits life) : life.Backed := by
  induction h with
  | new => trivial
  | opened h hopen =>
      have hsound : Disk.Sound _ := h.sound
      exact hsound.replayed hopen
  | opening _ _ _ => trivial
  | shuffled h horder ih =>
      have halive : Alive _ _ := h.sound
      exact Backed.shuffled ih halive horder
  | call h hplain hputs ih =>
      have halive : Alive _ _ := h.sound
      exact Backed.call ih halive hplain hputs
  | compact h hcompact ih =>
      have halive : Alive _ _ := h.sound
      exact Backed.compact ih halive hcompact
  | beginCompaction h hbegin ih =>
      have halive : Alive _ _ := h.sound
      exact Backed.beginCompaction ih halive hbegin
  | runCompaction _ hrun ih => exact Backed.runCompaction ih hrun
  | finishCompaction _ ih => exact Backed.finishCompaction ih
  | abandonCompaction _ ih => exact Backed.abandonCompaction ih
  | beginRestore h hbegin ih =>
      have halive : Alive _ _ := h.sound
      exact Backed.beginRestore ih halive hbegin
  | push _ hfits hpush ih => exact Backed.push ih hfits hpush
  | finish h ih =>
      have halive : Alive _ _ := h.sound
      exact Backed.finish ih halive
  | finishRestore h ih =>
      have halive : Alive _ _ := h.sound
      exact Backed.restored ih halive
  | abandonRestore _ ih => exact Backed.abandonRestore ih
  | stopped _ _ _ => trivial
  | bared _ _ _ => trivial
  | shorn _ _ _ => trivial
  | cut _ _ _ => trivial

end Minicask
