import Minicask.Store.SoundOpens
import Minicask.Totals

/-!
# Hints over whole histories

A directory lives through any number of stores: each opens on it, takes calls,
compacts, restores, and is closed or killed at any point of all this, with or
without the power going too.  The hints stay true throughout, so that opening with
them and without them comes to the same.
-/

namespace Minicask

open Replay

/-- The work on the side that is out, if some is. -/
inductive Out where
  | idle
  | merging (job : CompactionJob)
  | merged (merged : MergedFile)
  | restoring (job : RestoreJob)
  | restored (restored : RestoredFile)

/-- A directory that no store is open on, or a store and its work on the side. -/
inductive Life where
  | down (disk : Disk)
  | up (s : Store) (out : Out)

/-- What a process killed in the middle of a write leaves: files may lack the end
of what was never synced. -/
structure Disk.Shorn (disk disk' : Disk) : Prop where
  kept : forall id, exists n, disk.synced id <= n ∧
    disk'.contents id = (disk.contents id).take n
  synced : forall id, disk'.synced id = disk.synced id
  hints : forall id, disk'.hints.lookup id = disk.hints.lookup id

/-- What a thread that worked on the side leaves when it is killed along with the
rest: files that were never put in place, and a file whose hint was not written
yet. -/
structure Disk.Bared (disk disk' : Disk) : Prop where
  data : disk'.data = disk.data
  hints : forall id bytes, disk'.hints.lookup id = some bytes ->
    disk.hints.lookup id = some bytes

/-- The length of a record of a key and a value fits its field. -/
def Fits (key value : Bytes) : Prop :=
  headerLen + key.length + value.length < 2 ^ 32

/-- A call puts only such keys and values. -/
def Call.Puts (fits : Bytes -> Bytes -> Prop) : Call -> Prop
  | put key value _ _ => fits key value
  | putDeferred key value _ _ => fits key value
  | _ => True

/-- Everything that can happen to a directory when only keys and values that fit are
put into it.  No order is known of the table of readers.  A store that is stopped,
in whatever way, leaves the files in one of the states they have been in. -/
inductive History (fits : Bytes -> Bytes -> Prop) : Life -> Prop where
  | new : History fits (Life.down {})
  | opened {disk : Disk} (h : History fits (Life.down disk)) {opts : Options}
      {s : Store} (hopen : Store.openWith { disk := disk } opts = Except.ok s) :
      History fits (Life.up s Out.idle)
  | opening {disk disk' : Disk} (h : History fits (Life.down disk))
      {opts : Options}
      (hdisk : disk' ∈ (Store.openDir { disk := disk } opts).states) :
      History fits (Life.down disk')
  | shuffled {s : Store} {out : Out} (h : History fits (Life.up s out))
      {order : List FileId} (horder : Lists order s.readers) :
      History fits (Life.up { s with readers := order } out)
  | call {s : Store} {out : Out} (h : History fits (Life.up s out))
      {c : Call} (hplain : c.Plain) (hputs : c.Puts fits) :
      History fits (Life.up (s.call c).1 out)
  | compact {s s' : Store} (h : History fits (Life.up s Out.idle))
      (hcompact : s.compact = Except.ok s') :
      History fits (Life.up s' Out.idle)
  | beginCompaction {s s' : Store} (h : History fits (Life.up s Out.idle))
      {job : CompactionJob}
      (hbegin : s.beginCompaction = Except.ok (job, s')) :
      History fits (Life.up s' (Out.merging job))
  | runCompaction {s : Store} {job : CompactionJob}
      (h : History fits (Life.up s (Out.merging job))) {merged : MergedFile}
      {dir : Dir} (hrun : job.run s.dir = Except.ok (merged, dir)) :
      History fits (Life.up { s with dir := dir } (Out.merged merged))
  | finishCompaction {s : Store} {merged : MergedFile}
      (h : History fits (Life.up s (Out.merged merged))) :
      History fits (Life.up (s.finishCompaction merged) Out.idle)
  | abandonCompaction {s : Store} {job : CompactionJob}
      (h : History fits (Life.up s (Out.merging job))) :
      History fits (Life.up s.abandonCompaction Out.idle)
  | beginRestore {s s' : Store} (h : History fits (Life.up s Out.idle))
      {job : RestoreJob} (hbegin : s.beginRestore = Except.ok (job, s')) :
      History fits (Life.up s' (Out.restoring job))
  | push {s : Store} {job job' : RestoreJob}
      (h : History fits (Life.up s (Out.restoring job))) {key value : Bytes}
      (hfits : fits key value) (hpush : job.push key value = Except.ok job') :
      History fits (Life.up s (Out.restoring job'))
  | finish {s : Store} {job : RestoreJob}
      (h : History fits (Life.up s (Out.restoring job))) :
      History fits (Life.up { s with dir := (job.finish s.dir).2 }
        (Out.restored (job.finish s.dir).1))
  | finishRestore {s : Store} {restored : RestoredFile}
      (h : History fits (Life.up s (Out.restored restored))) :
      History fits (Life.up (s.finishRestore restored) Out.idle)
  | abandonRestore {s : Store} {job : RestoreJob}
      (h : History fits (Life.up s (Out.restoring job))) :
      History fits
        (Life.up { s.abandonRestore with dir := job.drop s.dir } Out.idle)
  | stopped {s : Store} {out : Out} (h : History fits (Life.up s out))
      {disk : Disk} (hdisk : disk ∈ s.close.states) :
      History fits (Life.down disk)
  | bared {disk disk' : Disk} (h : History fits (Life.down disk))
      (hbared : disk.Bared disk') : History fits (Life.down disk')
  | shorn {disk disk' : Disk} (h : History fits (Life.down disk))
      (hshorn : disk.Shorn disk') : History fits (Life.down disk')
  | cut {disk disk' : Disk} (h : History fits (Life.down disk))
      (hcut : disk.CutAll disk') : History fits (Life.down disk')

/-!
# What holds all along
-/

/-- What holds of work that is out. -/
def OutOk (s : Store) : Out -> Prop
  | Out.idle => s.compacting = false ∧ s.restoring = false ∧ Known s none
  | Out.merging job =>
      s.restoring = false ∧ Known s none ∧ job.Ok s ∧
        job.mergedId ∉ s.dir.disk.data
  | Out.merged merged =>
      s.restoring = false ∧ Known s (some merged.id) ∧ merged.Ok s
  | Out.restoring job =>
      s.compacting = false ∧ s.restoring = true ∧ Known s none ∧
        s.Reserved job.id job.oldIds ∧ job.id ∉ s.dir.disk.data ∧
        exists rs, job.Of rs ∧ Hint.Describes 0 job.hints rs ∧
          forall r, r ∈ rs -> r.value ≠ none
  | Out.restored restored =>
      s.compacting = false ∧ s.restoring = true ∧
        Known s (some restored.id) ∧
        s.Reserved restored.id restored.oldIds ∧
        restored.id ∈ s.dir.disk.data ∧
        forall entry, entry ∈ restored.index -> exists r : Rec,
          r.key = entry.1 ∧ r.value ≠ none ∧ entry.2.fileId = restored.id ∧
            entry.2.len = UInt32.ofNat r.bytes.length ∧
            Located (s.dir.disk.handle restored.id) entry.2.offset r

/-- A store on whole records, whose files have been sound in every state. -/
structure Alive (s : Store) (out : Out) : Prop where
  ok : s.Ok
  indexes : exists m, s.Indexes m
  charted : exists chart, Charted s.allRead chart
  through : s.dir.Through Disk.Sound
  out : OutOk s out

def Life.Sound : Life -> Prop
  | Life.down disk => disk.Sound
  | Life.up s out => Alive s out

theorem Store.indexes_of_held {s : Store}
    (h : forall k loc, s.keydir.lookup k = some loc -> exists r : Rec,
      r.key = k ∧ r.value ≠ none ∧ s.Holds loc r) :
    exists m, s.Indexes m := by
  have hvalue : forall k, exists value : Option Bytes,
      (s.keydir.lookup k = none ↔ value = none) ∧
      forall loc, s.keydir.lookup k = some loc -> exists r : Rec,
        r.key = k ∧ r.value = value ∧ s.Holds loc r := by
    intro k
    cases hlookup : s.keydir.lookup k with
    | none => exact ⟨none, by simp, fun loc hloc => by cases hloc⟩
    | some loc =>
        rcases h k loc hlookup with ⟨r, hkey, hvalue, hholds⟩
        refine ⟨r.value, by simp [hvalue], ?_⟩
        intro loc' hloc'
        cases hloc'
        exact ⟨r, hkey, rfl, hholds⟩
  choose m hlive hheld using hvalue
  exact ⟨m, hlive, hheld⟩

/-!
# Calls
-/

theorem OutOk.grown {s s' : Store} {out : Out} (h : OutOk s out)
    (hgrown : Grown s s') : OutOk s' out := by
  have hlater := hgrown.later
  cases out with
  | idle =>
      exact ⟨hlater.compacting.trans h.1, hlater.restoring.trans h.2.1,
        h.2.2.grown hgrown⟩
  | merging job =>
      rcases h with ⟨hrestoring, hknown, hjob, hslot⟩
      refine ⟨hlater.restoring.trans hrestoring, hknown.grown hgrown,
        hjob.later hlater, ?_⟩
      rw [mem_of_later hlater hjob.slot.below]
      exact hslot
  | merged merged =>
      rcases h with ⟨hrestoring, hknown, hmerged⟩
      exact ⟨hlater.restoring.trans hrestoring, hknown.grown hgrown,
        hmerged.later hlater⟩
  | restoring job =>
      rcases h with ⟨hcompacting, hrestoring, hknown, hslot, hunlinked, hrs⟩
      refine ⟨hlater.compacting.trans hcompacting,
        hlater.restoring.trans hrestoring, hknown.grown hgrown,
        hslot.later hlater, ?_, hrs⟩
      rw [mem_of_later hlater hslot.below]
      exact hunlinked
  | restored restored =>
      rcases h with ⟨hcompacting, hrestoring, hknown, hslot, hlinked, hindex⟩
      refine ⟨hlater.compacting.trans hcompacting,
        hlater.restoring.trans hrestoring, hknown.grown hgrown,
        hslot.later hlater, (mem_of_later hlater hslot.below).mpr hlinked, ?_⟩
      intro entry hentry
      rcases hindex entry hentry with
        ⟨r, hkey, hvalue, hid, hlen, hlocated⟩
      exact ⟨r, hkey, hvalue, hid, hlen,
        hlocated.mono (hlater.handles _ (Nat.le_of_lt hslot.below))⟩

namespace Alive

theorem wrote {s s' : Store} {out : Out} (h : Alive s out) {r : Rec}
    (hwrote : s.Wrote r s') (hindexes : exists m, s'.Indexes m)
    {reach : Reach} {bytes : Bytes} (hbytes : bytes = r.bytes)
    (hdir : s'.dir = ((s.rollIfNeeded bytes.length).writer.append
      (s.rollIfNeeded bytes.length).dir bytes reach).2.2) :
    Alive s' out := by
  rcases h.charted with ⟨chart, hcharted⟩
  refine ⟨hwrote.ok h.ok, hindexes,
    ⟨_, (hcharted.allRead_wrote h.ok hwrote).1⟩, ?_,
    h.out.grown (hwrote.grown h.ok)⟩
  rw [hdir, hbytes]
  exact Store.through_append h.ok hcharted h.through r reach

theorem putWith {s s' : Store} {out : Out} (h : Alive s out)
    {key value : Bytes}
    (hshort : headerLen + key.length + value.length < 2 ^ 32) {reach : Reach}
    {now later : UInt64}
    (hput : s.putWith key value reach now later = Except.ok s') :
    Alive s' out := by
  rcases Store.wrote_of_putWith h.ok hshort hput with
    ⟨r, rfl, hvalue, rfl, _, hwrote, hindexes⟩
  rcases Store.dir_putWith hput with ⟨bytes, hencode, hdir⟩
  have hbytes : bytes = r.bytes := by
    rw [← hvalue] at hencode
    exact Except.ok.inj (hencode.symm.trans (encode_rec r))
  rcases h.indexes with ⟨m, hm⟩
  exact h.wrote hwrote ⟨_, hindexes m hm⟩ hbytes hdir

theorem deleteWith {s s' : Store} {out : Out} (h : Alive s out)
    {key : Bytes} {reach : Reach} {now later : UInt64} {was : Bool}
    (hdelete : s.deleteWith key reach now later = Except.ok (s', was)) :
    Alive s' out := by
  rcases h.indexes with ⟨m, hm⟩
  rcases Store.wrote_of_deleteWith h.ok hm hdelete with
    hsame | ⟨r, rfl, hvalue, rfl, _, _, hwrote, hindexes⟩
  · rw [hsame]
    exact h
  · rcases Store.dir_deleteWith hdelete with hsame | ⟨bytes, hencode, hdir⟩
    · rw [hsame]
      exact h
    · have hbytes : bytes = r.bytes := by
        rw [← hvalue] at hencode
        exact Except.ok.inj (hencode.symm.trans (encode_rec r))
      exact h.wrote hwrote ⟨_, hindexes m hm⟩ hbytes hdir

theorem sync {s : Store} {out : Out} (h : Alive s out) :
    Alive s.sync out := by
  rcases h.charted with ⟨chart, hcharted⟩
  rcases h.indexes with ⟨m, hindexes⟩
  have hadvanced := Store.advanced_sync h.ok
  have hsound := (hcharted.soundWriter h.ok h.through).sync
  exact ⟨hadvanced.ok h.ok,
    ⟨m, hindexes.carried (hadvanced.carries h.ok) rfl⟩,
    ⟨chart, hcharted.allRead_sync h.ok⟩, hsound.sound.through,
    h.out.grown (grown_sync h.ok)⟩

theorem call {s : Store} {out : Out} (h : Alive s out) {c : Call}
    (hplain : c.Plain) (hputs : c.Puts Fits) : Alive (s.call c).1 out := by
  cases c with
  | put key value now later =>
      rw [Store.call, Store.put]
      cases hput : s.putWith key value s.reach now later with
      | error e => exact h
      | ok s' => exact h.putWith hputs hput
  | putDeferred key value now later =>
      rw [Store.call, Store.putDeferred]
      cases hput : s.putWith key value Reach.buffer now later with
      | error e => exact h
      | ok s' => exact h.putWith hputs hput
  | delete key now later =>
      rw [Store.call, Store.delete]
      cases hdelete : s.deleteWith key s.reach now later with
      | error e => exact h
      | ok deleted => exact h.deleteWith hdelete
  | deleteDeferred key now later =>
      rw [Store.call, Store.deleteDeferred]
      cases hdelete : s.deleteWith key Reach.buffer now later with
      | error e => exact h
      | ok deleted => exact h.deleteWith hdelete
  | sync => exact h.sync
  | compact => exact absurd hplain id
  | reopen opts => exact absurd hplain id

theorem shuffled {s : Store} {out : Out} (h : Alive s out)
    {order : List FileId} (horder : Lists order s.readers) :
    Alive { s with readers := order } out := by
  have hknown : forall slot, Known s slot ->
      Known { s with readers := order } slot :=
    fun slot hslot id hid hne => (horder.2 id).mpr (hslot id hid hne)
  have hreserved : forall slot oldIds, s.Reserved slot oldIds ->
      Store.Reserved { s with readers := order } slot oldIds :=
    fun slot oldIds hslot => ⟨hslot.below,
      fun hin => hslot.unread ((horder.2 slot).mp hin), hslot.old⟩
  rcases h.indexes with ⟨m, hindexes⟩
  refine ⟨⟨h.ok.writer, (horder.2 _).mpr h.ok.active,
    fun id hid => h.ok.linked id ((horder.2 id).mp hid), h.ok.newest⟩,
    ⟨m, hindexes.carried ?_ rfl⟩, h.charted, h.through, ?_⟩
  · intro loc r hholds
    exact ⟨hholds.located, hholds.len, (horder.2 _).mpr hholds.readable,
      hholds.whole⟩
  · have hout := h.out
    cases out with
    | idle => exact ⟨hout.1, hout.2.1, hknown _ hout.2.2⟩
    | merging job =>
        rcases hout with ⟨hrestoring, hjobKnown, hjob, hslot⟩
        exact ⟨hrestoring, hknown _ hjobKnown, ⟨hreserved _ _ hjob.slot,
          hjob.shows, hjob.within, hjob.covered⟩, hslot⟩
    | merged merged =>
        rcases hout with ⟨hrestoring, hjobKnown, hmerged⟩
        exact ⟨hrestoring, hknown _ hjobKnown, ⟨hreserved _ _ hmerged.slot,
          hmerged.linked, hmerged.nodup, hmerged.within, hmerged.copies,
          hmerged.covered⟩⟩
    | restoring job =>
        rcases hout with ⟨hcompacting, hrestoring, hjobKnown, hslot, hrest⟩
        exact ⟨hcompacting, hrestoring, hknown _ hjobKnown,
          hreserved _ _ hslot, hrest⟩
    | restored restored =>
        rcases hout with ⟨hcompacting, hrestoring, hjobKnown, hslot, hrest⟩
        exact ⟨hcompacting, hrestoring, hknown _ hjobKnown,
          hreserved _ _ hslot, hrest⟩

/-!
# Compactions
-/

theorem chartedIdle {s : Store} (h : Alive s Out.idle) {chart : Chart}
    (hcharted : Charted s.allRead chart) : Charted s chart :=
  hcharted.congr rfl rfl rfl rfl
    (fun id hid => h.out.2.2 id hid (by simp))

theorem compact {s s' : Store} (h : Alive s Out.idle)
    (hcompact : s.compact = Except.ok s') : Alive s' Out.idle := by
  rcases h.charted with ⟨chart, hcharted⟩
  rcases h.indexes with ⟨m, hindexes⟩
  have hnext : s.writer.fileId < s.writer.fileId + 1 := Nat.lt_succ_self _
  have hflushed := (hcharted.soundWriter h.ok h.through).flush
  have hempty : chart (s.writer.fileId + 1) = [] :=
    hcharted.empty_of_gt h.ok.allRead hnext
  have hfresh : s.writer.fileId + 1 ∉ s.flushed.dir.disk.data := by
    intro hin
    have hadvanced := Store.advanced_flushed h.ok
    have hle := (hadvanced.ok h.ok).newest _ hin
    rw [hadvanced.appended.fileId] at hle
    exact Nat.not_succ_le_self _ hle
  have hstart := LogWriter.soundAs_openFile hflushed.sound hfresh hempty
  have hupdate : Function.update chart (s.writer.fileId + 1) [] = chart := by
    rw [← hempty, Function.update_eq_self]
  rw [← hupdate] at hstart
  rcases Merged.loop_keeps (Q := fun w d rs =>
      w.SoundAs d (Function.update chart (s.writer.fileId + 1) rs))
    (fun w d rs r _ hid hsound _ => by
      have happended := hsound.append r Reach.buffer
      rw [hid, extend_update] at happended
      exact happended)
    (inFileOrder s.keydir) (Store.merged_start h.ok hnext) hstart
    (fun p hp => Store.copyable h.ok hindexes hnext hp) with
    ⟨mg, copied, hloop, hmerged, hsound, _, _⟩
  rw [List.nil_append] at hmerged hsound
  have heq := Store.compact_eq h.ok h.out.1 h.out.2.1 hloop
  rcases Store.compact_spec h.ok hindexes h.out.1 h.out.2.1 with
    ⟨s'', rs, hcompact', hok, hindexes', _, _, _, hcompacting, hrestoring, _,
      _, hcharts⟩
  have hsame : s'' = s' := Except.ok.inj (hcompact'.symm.trans hcompact)
  subst hsame
  have hcharted' := hcharts chart (h.chartedIdle hcharted)
  refine ⟨hok, ⟨m, hindexes'⟩, ⟨_, hcharted'.allRead⟩, ?_, hcompacting,
    hrestoring, fun id hid _ => hcharted'.known id hid⟩
  rw [Except.ok.inj (hcompact.symm.trans heq)]
  have hsync := hsound.sync
  have happended := (LogWriter.appended_sync hmerged.ok).1
  have hid : (mg.writer.sync mg.dir).1.fileId = s.writer.fileId + 1 :=
    happended.fileId.trans hmerged.fileId
  have hoffset : (mg.writer.sync mg.dir).1.offset =
      (Rec.join copied).length := by
    rw [← happended.ok.length_contents, happended.contents, hmerged.contents,
      List.append_nil]
  have hsynced : (Rec.join copied).length <=
      (mg.writer.sync mg.dir).2.disk.synced (s.writer.fileId + 1) := by
    rw [← hmerged.fileId, LogWriter.synced_sync hmerged.ok,
      ← hmerged.contents, hmerged.ok.length_contents]
  have hall : copied <+: Function.update chart (s.writer.fileId + 1) copied
      (s.writer.fileId + 1) := by
    rw [Function.update_self]
  have hhinted := hsync.sound.step (Or.inr rfl)
    (hsync.sound.now.writeHint hall hmerged.hints hsynced)
  rw [← hoffset] at hhinted
  exact (hhinted.removeFiles s.readers).through

/-- Sealing the active file leaves every file known, and a slot with nothing in
it. -/
theorem sealed {s : Store} (h : Alive s Out.idle) :
    exists chart, Charted (s.sealInto (s.writer.fileId + 2)) chart ∧
      (s.sealInto (s.writer.fileId + 2)).writer.SoundAs
        (s.sealInto (s.writer.fileId + 2)).dir chart ∧
      s.writer.fileId + 1 ∉
        (s.sealInto (s.writer.fileId + 2)).dir.disk.data := by
  rcases h.charted with ⟨chart, hcharted⟩
  have hnext : s.writer.fileId < s.writer.fileId + 2 :=
    Nat.lt_trans (Nat.lt_succ_self _) (Nat.lt_succ_self _)
  refine ⟨chart, (h.chartedIdle hcharted).sealInto h.ok hnext,
    Store.sound_sealInto (hcharted.soundWriter h.ok h.through)
      hcharted.activeHints (Store.not_mem_of_gt h.ok hnext)
      (hcharted.empty_of_gt h.ok.allRead hnext), ?_⟩
  intro hin
  rcases (Store.mem_sealInto h.ok _ _).mp hin with heq | hold
  · exact absurd heq (Nat.ne_of_lt (Nat.lt_succ_self _))
  · exact Nat.not_succ_le_self _ (h.ok.newest _ hold)

theorem beginCompaction {s s' : Store} (h : Alive s Out.idle)
    {job : CompactionJob}
    (hbegin : s.beginCompaction = Except.ok (job, s')) :
    Alive s' (Out.merging job) := by
  rcases h.sealed with ⟨chart, hcharted, hsound, hslot⟩
  rcases h.indexes with ⟨m, hindexes⟩
  rcases Store.beginCompaction_spec h.ok hindexes h.out.1 h.out.2.1 with
    ⟨job', s'', hbegin', hok, hindexes', _, _, hrestoring, _, hjob⟩
  have hpair := Except.ok.inj (hbegin'.symm.trans hbegin)
  cases hpair
  unfold Store.beginCompaction at hbegin
  rw [if_neg (by simp [h.out.1, h.out.2.1])] at hbegin
  cases hbegin
  exact ⟨hok, ⟨m, hindexes'⟩, ⟨chart, hcharted.congr rfl rfl rfl rfl
    (fun _ hid => AList.mem_keys.mp hid)⟩, hsound.flush.sound.through,
    hrestoring, fun id hid _ => hcharted.known id hid, hjob, hslot⟩

theorem unhinted {s : Store} {chart : Chart} (h : Charted s.allRead chart)
    {slot : FileId} (hslot : slot ∉ s.dir.disk.data) :
    s.dir.disk.hints.lookup slot = none := by
  cases hlookup : s.dir.disk.hints.lookup slot with
  | none => rfl
  | some bytes =>
      have hin : slot ∈ s.allRead.dir.disk.hints :=
        AList.lookup_isSome.mp (by
          show (s.dir.disk.hints.lookup slot).isSome = true
          rw [hlookup]
          rfl)
      exact absurd (h.hinted slot hin) hslot

theorem runCompaction {s : Store} {job : CompactionJob}
    (h : Alive s (Out.merging job)) {merged : MergedFile} {dir : Dir}
    (hrun : job.run s.dir = Except.ok (merged, dir)) :
    Alive { s with dir := dir } (Out.merged merged) := by
  rcases h.charted with ⟨chart, hcharted⟩
  rcases h.indexes with ⟨m, hindexes⟩
  rcases h.out with ⟨hrestoring, hknown, hjob, hslot⟩
  rcases hjob.shows with ⟨shown, hshows⟩
  rcases hjob.run with ⟨merged', dir', bytes, hrun', hplaced, _, hmerged⟩
  have hpair := Except.ok.inj (hrun'.symm.trans hrun)
  cases hpair
  rcases CompactionJob.run_dir hshows hrun with
    ⟨hid, _, rs, es, hes, _, _, hdir⟩
  rcases CompactionJob.run_placed hshows hrun with
    ⟨_, _, rs', es', hes', _, _, _, hlookup, hhints⟩
  have hunhinted : (s.dir.writePart job.mergedId []).disk.hints.lookup
      job.mergedId = none := unhinted hcharted hslot
  have hsound : s.dir.SoundAs chart := ⟨h.through, hcharted.soundAs⟩
  refine ⟨h.ok.placed hjob.slot hplaced,
    ⟨m, hindexes.placed hjob.slot hplaced⟩,
    ⟨_, hcharted.placed hslot hjob.slot.below hes' rfl rfl hlookup hhints⟩, ?_,
    hrestoring, ?_, hmerged⟩
  · show dir.Through Disk.Sound
    rw [hdir]
    exact ((hsound.writePart job.mergedId []).placed hunhinted hes).through
  · intro id hin hne
    rw [hid] at hne
    refine hknown id ?_ (by simp)
    have hin' : id ∈ dir.disk.data := hin
    rw [← AList.lookup_isSome, hlookup,
      if_neg (fun heq => hne (by rw [heq])), AList.lookup_isSome] at hin'
    exact hin'

theorem known_removeFiles {s s' : Store} {slot : FileId}
    {oldIds : List FileId} (hknown : Known s (some slot))
    (hdir : s'.dir = removeFiles s.dir oldIds)
    (hreaders : forall id, id ∉ oldIds -> id = slot ∨ id ∈ s.readers ->
      id ∈ s'.readers) : Known s' none := by
  intro id hid _
  rw [hdir, ← AList.lookup_isSome, ((removeFiles_spec oldIds s.dir).2 id).1]
    at hid
  split at hid
  · cases hid
  · next hnot =>
      rw [AList.lookup_isSome] at hid
      apply hreaders id hnot
      by_cases heq : id = slot
      · exact Or.inl heq
      · exact Or.inr (hknown id hid (fun hsome => heq
          (Option.some.inj hsome).symm))

theorem finishCompaction {s : Store} {merged : MergedFile}
    (h : Alive s (Out.merged merged)) :
    Alive (s.finishCompaction merged) Out.idle := by
  rcases h.charted with ⟨chart, hcharted⟩
  rcases h.indexes with ⟨m, hindexes⟩
  rcases h.out with ⟨hrestoring, hknown, hmerged⟩
  rcases Store.finishCompaction_spec h.ok hindexes hmerged with
    ⟨hok, hindexes', _⟩
  have htrimmed : s.Trimmed merged.oldIds (s.finishCompaction merged) :=
    ⟨rfl, rfl⟩
  have hsound : s.dir.SoundAs chart := ⟨h.through, hcharted.soundAs⟩
  refine ⟨hok, ⟨m, hindexes'⟩,
    ⟨_, hcharted.trimmed htrimmed hmerged.slot.active_notMem rfl⟩,
    (hsound.removeFiles merged.oldIds).through, rfl, hrestoring,
    known_removeFiles hknown rfl ?_⟩
  intro id hnot hin
  simpa [Store.finishCompaction, List.mem_filter, List.mem_insert_iff] using
    And.intro hin hnot

theorem abandoned {s s' : Store} {out : Out} (h : Alive s out)
    (hknown : Known s none) (hdata : s'.dir.disk.data = s.dir.disk.data)
    (hhints : s'.dir.disk.hints = s.dir.disk.hints)
    (hwriter : s'.writer = s.writer) (hreaders : s'.readers = s.readers)
    (hkeydir : s'.keydir = s.keydir)
    (hactive : s'.activeHints = s.activeHints)
    (hthrough : s'.dir.Through Disk.Sound) (hcompacting : s'.compacting = false)
    (hrestoring : s'.restoring = false) : Alive s' Out.idle := by
  rcases h.charted with ⟨chart, hcharted⟩
  rcases h.indexes with ⟨m, hindexes⟩
  refine ⟨h.ok.flagged hdata hwriter hreaders,
    ⟨m, hindexes.flagged hdata hwriter hreaders hkeydir⟩,
    ⟨chart, hcharted.congr hdata hhints hwriter hactive
      (fun _ hid => AList.mem_keys.mp hid)⟩, hthrough, hcompacting, hrestoring,
    ?_⟩
  intro id hid hne
  rw [hdata] at hid
  rw [hreaders]
  exact hknown id hid hne

/-!
# Restores
-/

theorem beginRestore {s s' : Store} (h : Alive s Out.idle) {job : RestoreJob}
    (hbegin : s.beginRestore = Except.ok (job, s')) :
    Alive s' (Out.restoring job) := by
  rcases h.sealed with ⟨chart, hcharted, hsound, hunlinked⟩
  rcases h.indexes with ⟨m, hindexes⟩
  rcases Store.beginRestore_spec h.ok hindexes h.out.1 h.out.2.1 with
    ⟨job', s'', hbegin', hok, hindexes', _, hcompacting, hrestoring, _, hslot,
      hof⟩
  have hpair := Except.ok.inj (hbegin'.symm.trans hbegin)
  cases hpair
  unfold Store.beginRestore at hbegin
  rw [if_neg (by simp [h.out.1, h.out.2.1])] at hbegin
  cases hbegin
  exact ⟨hok, ⟨m, hindexes'⟩, ⟨chart, hcharted.congr rfl rfl rfl rfl
    (fun _ hid => AList.mem_keys.mp hid)⟩,
    (hsound.sound.writePart _ []).through, hcompacting, hrestoring,
    fun id hid _ => hcharted.known id hid, hslot, hunlinked, [], hof,
    Hint.Describes.nil 0, fun _ hr => absurd hr List.not_mem_nil⟩

theorem push {s : Store} {job job' : RestoreJob}
    (h : Alive s (Out.restoring job)) {key value : Bytes}
    (hfits : Fits key value) (hpush : job.push key value = Except.ok job') :
    Alive s (Out.restoring job') := by
  rcases h.out with
    ⟨hcompacting, hrestoring, hknown, hslot, hunlinked, rs, hof, hhints,
      hlive⟩
  rcases RestoreJob.push_eq_ok hfits hpush with ⟨r, rfl, hvalue, htstamp, rfl⟩
  have hof' := hof.pushed htstamp hvalue hpush
  refine ⟨h.ok, h.indexes, h.charted, h.through, hcompacting, hrestoring,
    hknown, hslot, hunlinked, rs ++ [r], hof', ?_, ?_⟩
  · apply hhints.append
    refine Hint.Describes.cons rfl ?_ rfl (by rw [hvalue]; rfl)
      (Hint.Describes.nil _)
    rw [Nat.zero_add, ← hof.file]
    exact hof.offset
  · intro r' hr'
    rcases List.mem_append.mp hr' with hold | hnew
    · exact hlive r' hold
    · rw [List.mem_singleton.mp hnew, hvalue]
      exact Option.some_ne_none value

theorem finish {s : Store} {job : RestoreJob}
    (h : Alive s (Out.restoring job)) :
    Alive { s with dir := (job.finish s.dir).2 }
      (Out.restored (job.finish s.dir).1) := by
  rcases h.charted with ⟨chart, hcharted⟩
  rcases h.indexes with ⟨m, hindexes⟩
  rcases h.out with
    ⟨hcompacting, hrestoring, hknown, hslot, hunlinked, rs, hof, hhints,
      hlive⟩
  have hplaced := Dir.placed_renamePart s.dir job.id job.file job.offset
    job.hints
  have hlookup := s.dir.lookup_placed job.id job.file job.offset job.hints
  have hhinted := s.dir.hints_placed job.id job.file job.offset job.hints
  have hsound : s.dir.SoundAs chart := ⟨h.through, hcharted.soundAs⟩
  have hthrough := (hsound.placed (unhinted hcharted hunlinked)
    hhints).through
  have hlinked := hplaced.linked
  have hhandle := hplaced.handle_slot
  have hoffset := hof.offset
  rw [hof.file] at hplaced hlookup hhinted hlinked hhandle hoffset
  rw [hoffset] at hplaced hlookup hhinted hlinked hhandle
  have hdir : (job.finish s.dir).2 = Hint.write ((s.dir.writePart job.id
      (Rec.join rs)).renamePart job.id) job.id (Rec.join rs).length
        job.hints := by
    rw [RestoreJob.finish, hof.file, hoffset]
  rw [hdir]
  refine ⟨h.ok.placed hslot hplaced, ⟨m, hindexes.placed hslot hplaced⟩,
    ⟨_, hcharted.placed hunlinked hslot.below hhints rfl rfl hlookup hhinted⟩,
    hthrough, hcompacting, hrestoring, ?_, ⟨hslot.below, hslot.unread,
      hslot.old⟩, hlinked, ?_⟩
  · intro id hin hne
    have hne' : id ≠ job.id := fun heq => hne (by rw [heq]; rfl)
    refine hknown id ?_ (by simp)
    have hin' : id ∈ (Hint.write ((s.dir.writePart job.id
        (Rec.join rs)).renamePart job.id) job.id (Rec.join rs).length
          job.hints).disk.data := hin
    rw [← AList.lookup_isSome, hlookup, if_neg hne',
      AList.lookup_isSome] at hin'
    exact hin'
  · intro entry hentry
    rcases hof.index entry hentry with ⟨r, hr, hkey, hid, hlen, hlocated⟩
    refine ⟨r, hkey, hlive r hr, hid, hlen, ?_⟩
    show Located (Disk.handle _ job.id) _ _
    rw [hhandle, ← hof.file]
    exact hlocated

theorem finishRestore {s : Store} {restored : RestoredFile}
    (h : Alive s (Out.restored restored)) :
    Alive (s.finishRestore restored) Out.idle := by
  rcases h.charted with ⟨chart, hcharted⟩
  rcases h.out with
    ⟨hcompacting, _, hknown, hslot, hlinked, hindex⟩
  have htrimmed : s.Trimmed restored.oldIds (s.finishRestore restored) :=
    ⟨rfl, rfl⟩
  have hsound : s.dir.SoundAs chart := ⟨h.through, hcharted.soundAs⟩
  have hreaders : forall id, id ∈ (s.finishRestore restored).readers ↔
      id = restored.id ∨ id ∈ s.readers ∧ id ∉ restored.oldIds := by
    intro id
    simp [Store.finishRestore, List.mem_filter, List.mem_insert_iff]
  have hok : (s.finishRestore restored).Ok := by
    apply htrimmed.ok h.ok hslot.active_notMem
    · exact (hreaders _).mpr (Or.inr ⟨h.ok.active, hslot.active_notMem⟩)
    · intro id hid
      rcases (hreaders id).mp hid with heq | ⟨hold, hnot⟩
      · rw [heq]
        exact ⟨hslot.notMem, hlinked⟩
      · exact ⟨hnot, h.ok.linked id hold⟩
  refine ⟨hok, Store.indexes_of_held ?_,
    ⟨_, hcharted.trimmed htrimmed hslot.active_notMem rfl⟩,
    (hsound.removeFiles restored.oldIds).through, hcompacting, rfl,
    known_removeFiles hknown rfl ?_⟩
  · intro k loc hlookup
    rcases Totals.mem_of_lookup_fill hlookup with hin | hempty
    · rcases hindex (k, loc) hin with ⟨r, hkey, hvalue, hid, hlen, hlocated⟩
      refine ⟨r, hkey, hvalue, ⟨?_, hlen, (hreaders _).mpr (Or.inl hid), ?_⟩⟩
      · rw [hid, htrimmed.contents hslot.notMem, Store.contents_of_ne s
          (Nat.ne_of_lt hslot.below), ← Store.handle_of_mem hlinked]
        exact hlocated
      · intro heq
        exact absurd (hid.symm.trans heq) (Nat.ne_of_lt hslot.below)
    · cases hempty
  · intro id hnot hin
    rcases hin with heq | hold
    · exact (hreaders id).mpr (Or.inl heq)
    · exact (hreaders id).mpr (Or.inr ⟨hold, hnot⟩)

/-!
# Stopping and starting
-/

theorem abandonCompaction {s : Store} {job : CompactionJob}
    (h : Alive s (Out.merging job)) : Alive s.abandonCompaction Out.idle :=
  h.abandoned h.out.2.1 rfl rfl rfl rfl rfl rfl h.through rfl h.out.1

theorem abandonRestore {s : Store} {job : RestoreJob}
    (h : Alive s (Out.restoring job)) :
    Alive { s.abandonRestore with dir := job.drop s.dir } Out.idle := by
  rcases h.charted with ⟨chart, hcharted⟩
  have hsound : s.dir.SoundAs chart := ⟨h.through, hcharted.soundAs⟩
  exact h.abandoned h.out.2.2.1 rfl rfl rfl rfl rfl rfl
    (hsound.removePart job.id).through h.out.1 rfl

theorem stopped {s : Store} {out : Out} (h : Alive s out) {disk : Disk}
    (hdisk : disk ∈ s.close.states) : disk.Sound := by
  rcases h.charted with ⟨chart, hcharted⟩
  have hclosed := (hcharted.soundWriter h.ok h.through).flush.sound.through
  exact Dir.through_iff.mp hclosed disk hdisk

theorem opened {dir : Dir} {kept : Chart} {s : Store}
    (h : Opened dir kept s) (hthrough : s.dir.Through Disk.Sound) :
    Alive s Out.idle :=
  ⟨h.ok, ⟨_, h.indexes⟩, ⟨kept, h.charted.allRead⟩, hthrough, h.compacting,
    h.restoring, fun id hid _ => h.charted.known id hid⟩

end Alive

theorem Disk.SoundAs.dir {disk : Disk} {chart : Chart}
    (h : disk.SoundAs chart) : Dir.SoundAs { disk := disk } chart :=
  ⟨⟨⟨chart, h⟩, fun _ hpast => absurd hpast List.not_mem_nil⟩, h⟩

namespace Disk.Sound

theorem opening {disk disk' : Disk} (h : disk.Sound) {opts : Options}
    (hdisk : disk' ∈ (Store.openDir { disk := disk } opts).states) :
    disk'.Sound := by
  rcases h with ⟨chart, hsound⟩
  exact Dir.through_iff.mp (openWith_sound hsound.dir opts).1.through disk'
    hdisk

theorem opened {disk : Disk} (h : disk.Sound) {opts : Options} {s : Store}
    (hopen : Store.openWith { disk := disk } opts = Except.ok s) :
    Alive s Out.idle := by
  rcases h with ⟨chart, hsound⟩
  rcases openWith_sound hsound.dir opts with ⟨hdir, hstore⟩
  rcases hstore s hopen with ⟨kept, hopened⟩
  rw [Store.openDir, hopen] at hdir
  exact Alive.opened hopened hdir.through

theorem new : Disk.Sound {} :=
  ⟨fun _ => [], fun _ => List.nil_prefix, fun _ => Or.inr rfl,
    fun _ _ hlookup => by cases hlookup⟩

theorem bared {disk disk' : Disk} (h : disk.Sound)
    (hbared : disk.Bared disk') : disk'.Sound := by
  rcases h with ⟨chart, hsound⟩
  refine ⟨chart, hsound.congr ?_ ?_ hbared.hints⟩
  · intro id
    rw [Disk.contents, hbared.data, ← Disk.contents]
  · intro id
    rw [Disk.synced, hbared.data, ← Disk.synced]

theorem taken {disk disk' : Disk} (h : disk.Sound)
    (hkept : forall id, exists n, disk.synced id <= n ∧
      disk'.contents id = (disk.contents id).take n)
    (hsynced : forall id, disk'.synced id = disk.synced id ∨
      disk'.synced id = (disk'.contents id).length)
    (hhints : forall id bytes, disk'.hints.lookup id = some bytes ->
      disk.hints.lookup id = some bytes) : disk'.Sound := by
  rcases h with ⟨chart, hsound⟩
  have hlength : forall id, disk.synced id <= (disk'.contents id).length := by
    intro id
    rcases hkept id with ⟨n, hn, hcontents⟩
    rw [hcontents, List.length_take]
    exact Nat.le_min.mpr ⟨hn, disk.synced_le id⟩
  have hle : forall id, disk.synced id <= disk'.synced id := by
    intro id
    rcases hsynced id with hsame | hall
    · exact Nat.le_of_eq hsame.symm
    · rw [hall]
      exact hlength id
  refine ⟨chart, ?_, ?_, ?_⟩
  · intro id
    rcases hkept id with ⟨n, _, hcontents⟩
    rw [hcontents]
    exact (List.take_prefix n _).trans (hsound.files id)
  · intro id
    rcases hsynced id with hsame | hall
    · rcases hsound.marks id with ⟨rs, hrs, hmark⟩ | hmark
      · exact Or.inl ⟨rs, hrs, hsame.trans hmark⟩
      · -- all there was is synced, so nothing can have been lost
        refine Or.inr (Nat.le_antisymm (disk'.synced_le id) ?_)
        rcases hkept id with ⟨n, _, hcontents⟩
        rw [hsame, hmark, hcontents]
        exact (List.take_prefix n _).length_le
    · exact Or.inr hall
  · intro id bytes hlookup
    exact (hsound.hints id bytes (hhints id bytes hlookup)).mono
      (List.prefix_refl _) (hle id)

theorem shorn {disk disk' : Disk} (h : disk.Sound)
    (hshorn : disk.Shorn disk') : disk'.Sound := by
  refine h.taken hshorn.kept (fun id => Or.inl (hshorn.synced id)) ?_
  intro id bytes hlookup
  rw [← hshorn.hints id]
  exact hlookup

theorem cut {disk disk' : Disk} (h : disk.Sound)
    (hcut : disk.CutAll disk') : disk'.Sound :=
  h.taken hcut.kept (fun id => Or.inr (hcut.settled id)) hcut.hints

end Disk.Sound

/-- Whatever happens to a directory, its hints stay true. -/
theorem History.sound {life : Life} (h : History Fits life) : life.Sound := by
  induction h with
  | new => exact Disk.Sound.new
  | opened _ hopen ih => exact Disk.Sound.opened ih hopen
  | opening _ hdisk ih => exact Disk.Sound.opening ih hdisk
  | shuffled _ horder ih => exact Alive.shuffled ih horder
  | call _ hplain hputs ih => exact Alive.call ih hplain hputs
  | compact _ hcompact ih => exact Alive.compact ih hcompact
  | beginCompaction _ hbegin ih => exact Alive.beginCompaction ih hbegin
  | runCompaction _ hrun ih => exact Alive.runCompaction ih hrun
  | finishCompaction _ ih => exact Alive.finishCompaction ih
  | abandonCompaction _ ih => exact Alive.abandonCompaction ih
  | beginRestore _ hbegin ih => exact Alive.beginRestore ih hbegin
  | push _ hfits hpush ih => exact Alive.push ih hfits hpush
  | finish _ ih => exact Alive.finish ih
  | finishRestore _ ih => exact Alive.finishRestore ih
  | abandonRestore _ ih => exact Alive.abandonRestore ih
  | stopped _ hdisk ih => exact Alive.stopped ih hdisk
  | bared _ hbared ih => exact Disk.Sound.bared ih hbared
  | shorn _ hshorn ih => exact Disk.Sound.shorn ih hshorn
  | cut _ hcut ih => exact Disk.Sound.cut ih hcut

/-!
# With hints and without
-/

/-- As long as every record that is put fits its field, reading the hints and
reading the records come to the same, also when hints are lost or damaged. -/
theorem hinted_open_agrees {disk disk' : Disk}
    (h : History Fits (Life.down disk)) (hspoiled : disk.Spoiled disk')
    (opts : Options) :
    Store.SameOpening
      (Store.openWith { disk := disk' } { opts with verifyOnOpen := false })
      (Store.openWith { disk := disk' } { opts with verifyOnOpen := true }) :=
  (Disk.Sound.allReadable h.sound hspoiled).sameOpening _ _

/-- One put and a compaction, and then the hint is cut short. -/
theorem hinted_open_agrees_compacted :
    exists (s : Store) (disk : Disk),
      ((newStore {}).call (Call.put [7] [1] 5 6)).1.compact = Except.ok s ∧
      (s.close.disk.hints.lookup 2).isSome = true ∧
      disk = { s.close.disk with hints := AList.insert 2 [0, 1, 2] ∅ } ∧
      Store.SameOpening
        (Store.openWith { disk := disk }
          { ({} : Options) with verifyOnOpen := false })
        (Store.openWith { disk := disk }
          { ({} : Options) with verifyOnOpen := true }) := by
  have hopened : History Fits (Life.up (newStore {}) Out.idle) :=
    History.opened History.new (openWith_nothing {})
  have hput : History Fits
      (Life.up ((newStore {}).call (Call.put [7] [1] 5 6)).1 Out.idle) :=
    hopened.call trivial (show Fits [7] [1] by unfold Fits; decide)
  have hcompact : exists s, ((newStore {}).call
      (Call.put [7] [1] 5 6)).1.compact = Except.ok s ∧
        (s.close.disk.hints.lookup 2).isSome = true := ⟨_, rfl, rfl⟩
  rcases hcompact with ⟨s, hcompact, hhint⟩
  have hstopped : History Fits (Life.down s.close.disk) :=
    (hput.compact hcompact).stopped List.mem_cons_self
  have hspoiled : s.close.disk.Spoiled
      { s.close.disk with hints := AList.insert 2 [0, 1, 2] ∅ } := by
    refine ⟨rfl, ?_⟩
    intro id bytes hlookup
    right
    by_cases heq : id = 2
    · rw [heq, AList.lookup_insert, Option.some.injEq] at hlookup
      rw [← hlookup]
      exact Or.inl (by decide)
    · rw [AList.lookup_insert_ne heq] at hlookup
      cases hlookup
  exact ⟨s, _, hcompact, hhint, rfl, hinted_open_agrees hstopped hspoiled {}⟩

def misled : Disk where
  data := AList.insert 2 File.empty ∅
  hints := AList.insert 2
    (Hint.encode 0
      [{ key := [7], offset := 0, len := 0, tstamp := 6, tombstone := false }])
    ∅

/-- The length of a record of 2^32 bytes reads as none at all, and none of them
are copied. -/
theorem compact_long_record {bytes value : Bytes}
    (hencode : encode [7] (some value) 5 = Except.ok bytes)
    (hlen : UInt32.ofNat bytes.length = 0) :
    exists s, ((newStore {}).call (Call.put [7] value 5 6)).1.compact =
        Except.ok s ∧
      misled.data = s.close.disk.data ∧
      misled.hints = s.close.disk.hints := by
  rw [Store.call, Store.put, Store.putWith, if_neg (by decide), hencode]
  dsimp only
  rw [show (newStore {}).rollIfNeeded bytes.length = newStore {} from
    if_pos (Or.inl rfl)]
  unfold LogWriter.append
  rw [if_pos (by decide), hlen]
  dsimp only
  exact ⟨_, rfl, rfl, rfl⟩

/-- A put of 2^32 bytes and a compaction leave a key in a hint that no record has,
so that it is there when the hint is read and gone when it is not. -/
theorem long_record_only_in_hint :
    exists (value : Bytes) (s : Store) (disk : Disk),
      value.length = 2 ^ 32 - 22 ∧
      ((newStore {}).call (Call.put [7] value 5 6)).1.compact =
        Except.ok s ∧
      disk.data = s.close.disk.data ∧ disk.hints = s.close.disk.hints ∧
      History (fun _ _ => True) (Life.down disk) ∧
      ¬ Store.SameOpening
        (Store.openWith { disk := disk }
          { ({} : Options) with verifyOnOpen := false })
        (Store.openWith { disk := disk }
          { ({} : Options) with verifyOnOpen := true }) := by
  have hvalue : exists value : Bytes, value.length = 2 ^ 32 - 22 :=
    ⟨List.replicate (2 ^ 32 - 22) 0, List.length_replicate⟩
  rcases hvalue with ⟨value, hvalue⟩
  rcases encode_long_record hvalue with ⟨bytes, hencode, hbytes⟩
  have hlen : UInt32.ofNat bytes.length = 0 := by
    rw [hbytes]
    rfl
  rcases compact_long_record hencode hlen with ⟨s, hcompact, hdata, hhints⟩
  refine ⟨value, s, misled, hvalue, hcompact, hdata, hhints, ?_, ?_⟩
  · have hopened : History (fun _ _ => True)
        (Life.up (newStore {}) Out.idle) :=
      History.opened History.new (openWith_nothing {})
    have hput := hopened.call
      (c := Call.put [7] value 5 6) trivial trivial
    have hstopped := (hput.compact hcompact).stopped List.mem_cons_self
    refine hstopped.bared ⟨hdata, ?_⟩
    intro id found hlookup
    rw [← hhints]
    exact hlookup
  · have hwith : (Store.openWith { disk := misled }
        { ({} : Options) with verifyOnOpen := false }).map
          (fun s => s.containsKey [7]) = Except.ok true := by
      decide +kernel
    have hwithout : (Store.openWith { disk := misled }
        { ({} : Options) with verifyOnOpen := true }).map
          (fun s => s.containsKey [7]) = Except.ok false := by
      decide +kernel
    intro hsame
    have hkeys := hsame.containsKey [7]
    rw [hwith, hwithout] at hkeys
    cases hkeys

end Minicask
