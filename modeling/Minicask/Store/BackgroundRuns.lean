import Minicask.Store.PowerCut
import Minicask.Store.Slots

/-!
# Compacting in the background shows nowhere

Calls go on while a merge is out: begun, written to its slot, installed or given
up.  The store answers as one that never compacted, and so does whatever opens on
its files.
-/

namespace Minicask

open Replay

/-- The background compaction that is out, if one is. -/
inductive Compacting where
  | idle
  | started (job : CompactionJob)
  | finished (merged : MergedFile)

/-- What a store leaves behind: its files after a clean close, or as they are when
the process is killed with nothing in the buffer. -/
def Store.Leaves (s : Store) (dir : Dir) : Prop :=
  dir = s.close ∨ (s.writer.pending = [] ∧ dir = { disk := s.dir.disk })

/-- What is there of a merge while it is written: a part file with anything in it, or
the whole of it in its slot, without a hint yet. -/
inductive CompactionJob.Midway (job : CompactionJob) (dir : Dir) : Disk -> Prop where
  | part (bytes : Bytes) :
      Midway job dir
        { dir.disk with parts := dir.disk.parts.insert job.mergedId bytes }
  | renamed {merged : MergedFile} {done : Dir} {disk : Disk} {earlier : List Disk}
      (hrun : job.run dir = Except.ok (merged, done))
      (hpast : done.past = disk :: earlier) : Midway job dir disk

/-- Calls on a store, with compactions in the background and in the foreground
and restarts, in any order.  The list has the calls so far. -/
inductive BackgroundRun (opts : Options) :
    Store -> Compacting -> List Call -> Prop where
  | start {s : Store} (hopen : Store.openWith {} opts = Except.ok s) :
      BackgroundRun opts s Compacting.idle []
  | call {s : Store} {work : Compacting} {calls : List Call}
      (hrun : BackgroundRun opts s work calls) {c : Call} (hplain : c.Plain)
      (hshort : c.Short) : BackgroundRun opts (s.call c).1 work (calls ++ [c])
  | compact {s s' : Store} {calls : List Call}
      (hrun : BackgroundRun opts s Compacting.idle calls)
      (hcompact : s.compact = Except.ok s') :
      BackgroundRun opts s' Compacting.idle calls
  | beginCompaction {s s' : Store} {calls : List Call}
      (hrun : BackgroundRun opts s Compacting.idle calls)
      {job : CompactionJob}
      (hbegin : s.beginCompaction = Except.ok (job, s')) :
      BackgroundRun opts s' (Compacting.started job) calls
  | runCompaction {s : Store} {calls : List Call} {job : CompactionJob}
      (hrun : BackgroundRun opts s (Compacting.started job) calls)
      {merged : MergedFile} {dir : Dir}
      (hjob : job.run s.dir = Except.ok (merged, dir)) :
      BackgroundRun opts { s with dir := dir } (Compacting.finished merged)
        calls
  | finishCompaction {s : Store} {calls : List Call} {merged : MergedFile}
      (hrun : BackgroundRun opts s (Compacting.finished merged) calls) :
      BackgroundRun opts (s.finishCompaction merged) Compacting.idle calls
  | abandonCompaction {s : Store} {calls : List Call} {job : CompactionJob}
      (hrun : BackgroundRun opts s (Compacting.started job) calls) :
      BackgroundRun opts s.abandonCompaction Compacting.idle calls
  | reopen {s s' : Store} {work : Compacting} {calls : List Call}
      (hrun : BackgroundRun opts s work calls) {dir : Dir}
      (hleaves : s.Leaves dir) {opts' : Options}
      (hopen : Store.openWith dir opts' = Except.ok s') :
      BackgroundRun opts s' Compacting.idle calls
  | killed {s s' : Store} {calls : List Call} {job : CompactionJob}
      (hrun : BackgroundRun opts s (Compacting.started job) calls)
      (hpending : s.writer.pending = []) {disk : Disk}
      (hmidway : job.Midway s.dir disk) {opts' : Options}
      (hopen : Store.openWith { disk := disk } opts' = Except.ok s') :
      BackgroundRun opts s' Compacting.idle calls

/-!
# The invariant
-/

/-- The files the store has no handle on: none, or a merge that is not installed
yet. -/
def Known (s : Store) (slot : Option FileId) : Prop :=
  forall id, id ∈ s.dir.disk.data -> slot ≠ some id -> id ∈ s.readers

/-- What holds of a compaction while it is out.  The files before its slot replay
to the map its view shows, and so do the copies. -/
def WorkOk (s : Store) (chart : Chart) : Compacting -> Prop
  | Compacting.idle => s.compacting = false ∧ Known s none
  | Compacting.started job =>
      s.compacting = true ∧ Known s none ∧ job.Ok s ∧
        job.mergedId ∉ s.dir.disk.data ∧
        (forall id, id ∈ s.dir.disk.data -> id < job.mergedId ->
          id ∈ job.oldIds) ∧
        job.view.Shows s.dir (replay empty
          (((List.range job.mergedId).flatMap chart).map Rec.write))
  | Compacting.finished merged =>
      s.compacting = true ∧ Known s (some merged.id) ∧ merged.Ok s ∧
        (forall id, id ∈ s.dir.disk.data -> id < merged.id ->
          id ∈ merged.oldIds) ∧
        (forall r, r ∈ chart merged.id -> r.value ≠ none) ∧
        exists m, replay empty
            (((List.range merged.id).flatMap chart).map Rec.write) = m ∧
          replay empty ((chart merged.id).map Rec.write) = m ∧
          replay m ((chart merged.id).map Rec.write) = m

structure Backs (s : Store) (work : Compacting) (m : Contents)
    (chart : Chart) : Prop where
  ok : s.Ok
  indexes : s.Indexes m
  restoring : s.restoring = false
  charted : Charted s.allRead chart
  whole : recorded chart s.writer.fileId = m
  work : WorkOk s chart work

/-!
# Calls
-/

/-- A store went on, and reads every file that is new. -/
structure Grown (s s' : Store) : Prop where
  later : s.Later s'
  files : forall id, id ∈ s'.dir.disk.data ->
    id ∈ s.dir.disk.data ∨ id ∈ s'.readers
  readers : forall id, id ∈ s.readers -> id ∈ s'.readers

theorem Store.rollIfNeeded_cases (s : Store) (incoming : Nat) :
    s.rollIfNeeded incoming = s ∨
      s.rollIfNeeded incoming = s.sealInto (s.writer.fileId + 1) := by
  unfold rollIfNeeded
  split
  · exact Or.inl rfl
  · exact Or.inr rfl

theorem Store.Wrote.grown {s s' : Store} {r : Rec} (hok : s.Ok)
    (h : s.Wrote r s') : Grown s s' := by
  have hmem := h.advanced.appended.frame.mem_iff
    (Store.rolled hok r.bytes.length).1.writer.linked
  have hreaders := h.advanced.readers
  refine ⟨h.later hok, ?_, ?_⟩
  · intro id hid
    rw [hmem] at hid
    rcases s.rollIfNeeded_cases r.bytes.length with hroll | hroll
    · rw [hroll] at hid
      exact Or.inl hid
    · rw [hroll] at hid hreaders
      rcases (Store.mem_sealInto hok _ id).mp hid with hnew | hold
      · rw [hreaders, hnew]
        exact Or.inr List.mem_insert_self
      · exact Or.inl hold
  · intro id hid
    rw [hreaders]
    rcases s.rollIfNeeded_cases r.bytes.length with hroll | hroll
    · rw [hroll]
      exact hid
    · rw [hroll]
      exact List.mem_insert_of_mem hid

theorem grown_sync {s : Store} (hok : s.Ok) : Grown s s.sync where
  later := Store.later_sync hok
  files id hid := Or.inl (((Store.advanced_sync hok).appended.frame.mem_iff
    hok.writer.linked id).mp hid)
  readers _ hid := hid

theorem Known.grown {s s' : Store} {slot : Option FileId} (h : Known s slot)
    (hgrown : Grown s s') : Known s' slot := by
  intro id hid hne
  rcases hgrown.files id hid with hold | hnew
  · exact hgrown.readers id (h id hold hne)
  · exact hnew

theorem mem_of_later {s s' : Store} (h : s.Later s') {id : FileId}
    (hid : id < s.writer.fileId) :
    id ∈ s'.dir.disk.data ↔ id ∈ s.dir.disk.data := by
  rw [← AList.lookup_isSome, h.files id hid, AList.lookup_isSome]

/-- A compaction that is out does not mind what is written meanwhile. -/
theorem WorkOk.grown {s s' : Store} {chart chart' : Chart}
    {work : Compacting} (h : WorkOk s chart work) (hgrown : Grown s s')
    (hchart : forall id, id < s.writer.fileId -> chart' id = chart id) :
    WorkOk s' chart' work := by
  have hlater := hgrown.later
  have hbelow : forall slot, slot < s.writer.fileId ->
      (List.range slot).flatMap chart' = (List.range slot).flatMap chart := by
    intro slot hslot
    apply List.flatMap_congr
    intro id hrange
    exact hchart id (Nat.lt_trans (List.mem_range.mp hrange) hslot)
  cases work with
  | idle =>
      exact ⟨hlater.compacting.trans h.1, h.2.grown hgrown⟩
  | started job =>
      rcases h with ⟨hcompacting, hknown, hjob, hslot, hold, hshows⟩
      have hlt := hjob.slot.below
      refine ⟨hlater.compacting.trans hcompacting, hknown.grown hgrown,
        hjob.later hlater, ?_, ?_, ?_⟩
      · rw [mem_of_later hlater hlt]
        exact hslot
      · intro id hid hless
        exact hold id ((mem_of_later hlater (Nat.lt_trans hless hlt)).mp hid)
          hless
      · rw [hbelow _ hlt]
        exact hshows.kept
          (fun id hid => hlater.handles id (hjob.within id hid).1)
  | finished merged =>
      rcases h with ⟨hcompacting, hknown, hmerged, hold, hlive, hm⟩
      have hlt := hmerged.slot.below
      refine ⟨hlater.compacting.trans hcompacting, hknown.grown hgrown,
        hmerged.later hlater, ?_, ?_, ?_⟩
      · intro id hid hless
        exact hold id ((mem_of_later hlater (Nat.lt_trans hless hlt)).mp hid)
          hless
      · rw [hchart _ hlt]
        exact hlive
      · rw [hbelow _ hlt, hchart _ hlt]
        exact hm

/-- What a call can do to a store that takes writes and to the map it stands
for. -/
inductive Store.Called (s : Store) (m : Contents) (c : Call) : Prop where
  | same (hstore : (s.call c).1 = s) (hmap : replay m c.write.toList = m)
  | wrote {r : Rec} (hwrote : s.Wrote r (s.call c).1)
      (hindexes : (s.call c).1.Indexes (act m r.write))
      (hmap : replay m c.write.toList = act m r.write)
  | synced (hstore : (s.call c).1 = s.sync) (hmap : replay m c.write.toList = m)

theorem Store.called_put {s : Store} (hok : s.Ok) {m : Contents}
    (hindexes : s.Indexes m) (hwritable : s.restoring = false)
    {key value : Bytes} (reach : Reach) (now later : UInt64) {c : Call}
    (hwrite : c.write =
      if key.isEmpty then none else some { key := key, value := some value })
    (hcall : (s.call c).1 =
      (s.putWith key value reach now later).toOption.getD s)
    (hshort : headerLen + key.length + value.length < 2 ^ 32) :
    s.Called m c := by
  cases key with
  | nil =>
      apply Called.same
      · rw [hcall, Store.putWith, if_neg (by simp [hwritable]), encode_nil]
        rfl
      · rw [hwrite]
        rfl
  | cons head tail =>
      rcases putWith_spec hok hindexes hwritable (List.cons_ne_nil head tail)
        hshort reach now later with ⟨s', r, hput, hr, hwrote, hindexes'⟩
      rw [hput] at hcall
      rw [← hr] at hindexes'
      apply Called.wrote (r := r)
      · rw [hcall]
        exact hwrote
      · rw [hcall]
        exact hindexes'
      · rw [hwrite, hr]
        rfl

theorem Store.called_delete {s : Store} (hok : s.Ok) {m : Contents}
    (hindexes : s.Indexes m) (hwritable : s.restoring = false) {key : Bytes}
    (reach : Reach) (now later : UInt64) {c : Call}
    (hwrite : c.write = some { key := key, value := none })
    (hcall : (s.call c).1 =
      ((s.deleteWith key reach now later).map Prod.fst).toOption.getD s) :
    s.Called m c := by
  rcases deleteWith_spec hok hindexes hwritable key reach now later with
    ⟨s', hdelete, hindexes', ⟨hsame, hnone⟩ | ⟨r, hr, hwrote⟩⟩
  · rw [hdelete] at hcall
    apply Called.same
    · rw [hcall, ← hsame]
      rfl
    · rw [hwrite]
      exact act_eq_self hnone
  · rw [hdelete] at hcall
    rw [← hr] at hindexes'
    apply Called.wrote (r := r)
    · rw [hcall]
      exact hwrote
    · rw [hcall]
      exact hindexes'
    · rw [hwrite, hr]
      rfl

theorem Store.called {s : Store} (hok : s.Ok) {m : Contents}
    (hindexes : s.Indexes m) (hwritable : s.restoring = false) {c : Call}
    (hplain : c.Plain) (hshort : c.Short) : s.Called m c := by
  cases c with
  | put key value now later =>
      apply called_put hok hindexes hwritable s.reach now later rfl _ hshort
      rw [Store.call, Store.put]
      cases s.putWith key value s.reach now later <;> rfl
  | putDeferred key value now later =>
      apply called_put hok hindexes hwritable Reach.buffer now later rfl _ hshort
      rw [Store.call, Store.putDeferred]
      cases s.putWith key value Reach.buffer now later <;> rfl
  | delete key now later =>
      apply called_delete hok hindexes hwritable s.reach now later rfl
      rw [Store.call, Store.delete]
      cases s.deleteWith key s.reach now later <;> rfl
  | deleteDeferred key now later =>
      apply called_delete hok hindexes hwritable Reach.buffer now later rfl
      rw [Store.call, Store.deleteDeferred]
      cases s.deleteWith key Reach.buffer now later <;> rfl
  | sync => exact Called.synced rfl rfl
  | compact => exact False.elim hplain
  | reopen opts => exact False.elim hplain

namespace Backs

theorem wrote {s s' : Store} {work : Compacting} {m : Contents}
    {chart : Chart} (h : Backs s work m chart) {r : Rec}
    (hwrote : s.Wrote r s') (hindexes : s'.Indexes (act m r.write)) :
    exists chart', Backs s' work (act m r.write) chart' := by
  rcases h.charted.allRead_wrote h.ok hwrote with ⟨hcharted, hrecorded⟩
  have hgrown := hwrote.grown h.ok
  refine ⟨_, hwrote.ok h.ok, hindexes, hwrote.restoring.trans h.restoring,
    hcharted, ?_, h.work.grown hgrown ?_⟩
  · rw [hrecorded, h.whole]
  · intro id hless
    exact chart.extend_of_ne _
      (Nat.ne_of_lt (Nat.lt_of_lt_of_le hless hgrown.later.newer))

theorem sync {s : Store} {work : Compacting} {m : Contents} {chart : Chart}
    (h : Backs s work m chart) : Backs s.sync work m chart := by
  have hadvanced := Store.advanced_sync h.ok
  refine ⟨hadvanced.ok h.ok, h.indexes.carried (hadvanced.carries h.ok) rfl,
    h.restoring, h.charted.allRead_sync h.ok, ?_,
    h.work.grown (grown_sync h.ok) (fun _ _ => rfl)⟩
  rw [hadvanced.appended.fileId]
  exact h.whole

theorem call {s : Store} {work : Compacting} {m : Contents} {chart : Chart}
    (h : Backs s work m chart) {c : Call} (hplain : c.Plain)
    (hshort : c.Short) :
    exists chart', Backs (s.call c).1 work (replay m c.write.toList)
      chart' := by
  cases Store.called h.ok h.indexes h.restoring hplain hshort with
  | same hstore hmap =>
      rw [hstore, hmap]
      exact ⟨chart, h⟩
  | wrote hwrote hindexes hmap =>
      rw [hmap]
      exact h.wrote hwrote hindexes
  | synced hstore hmap =>
      rw [hstore, hmap]
      exact ⟨chart, h.sync⟩

/-!
# Compactions
-/

theorem abandonCompaction {s : Store} {job : CompactionJob} {m : Contents}
    {chart : Chart} (h : Backs s (Compacting.started job) m chart) :
    Backs s.abandonCompaction Compacting.idle m chart where
  ok := h.ok.flagged rfl rfl rfl
  indexes := h.indexes.flagged rfl rfl rfl rfl
  restoring := h.restoring
  charted := h.charted.congr rfl rfl rfl rfl
    (fun _ hid => AList.mem_keys.mp hid)
  whole := h.whole
  work := ⟨rfl, h.work.2.1⟩

theorem compact {s s' : Store} {m : Contents} {chart : Chart}
    (h : Backs s Compacting.idle m chart) (hcompact : s.compact = Except.ok s') :
    exists chart', Backs s' Compacting.idle m chart' := by
  have hcharted : Charted s chart := h.charted.congr rfl rfl rfl rfl
    (fun id hid => h.work.2 id hid (by simp))
  rcases Store.compact_spec h.ok h.indexes h.work.1 h.restoring with
    ⟨_, rs, hcompact', hok, hindexes, _, _, _, hcompacting, hrestoring, _,
      hrecorded, hcharts⟩
  rw [hcompact, Except.ok.injEq] at hcompact'
  subst hcompact'
  have hcharted' := hcharts chart hcharted
  exact ⟨_, hok, hindexes, hrestoring, hcharted'.allRead, hrecorded,
    hcompacting, fun id hid _ => hcharted'.known id hid⟩

theorem beginCompaction {s s' : Store} {m : Contents} {chart : Chart}
    (h : Backs s Compacting.idle m chart) {job : CompactionJob}
    (hbegin : s.beginCompaction = Except.ok (job, s')) :
    Backs s' (Compacting.started job) m chart := by
  have hnext : s.writer.fileId < s.writer.fileId + 2 :=
    Nat.lt_trans (Nat.lt_succ_self _) (Nat.lt_succ_self _)
  have hcharted : Charted s chart := h.charted.congr rfl rfl rfl rfl
    (fun id hid => h.work.2 id hid (by simp))
  have hsealed := hcharted.sealInto h.ok hnext
  have hsealedOk := Store.ok_sealInto h.ok hnext
  rcases Store.beginCompaction_spec h.ok h.indexes h.work.1 h.restoring with
    ⟨_, _, hbegin', hok, hindexes, _, hcompacting, hrestoring, _, hjob⟩
  rw [hbegin, Except.ok.injEq, Prod.mk.injEq] at hbegin'
  rcases hbegin' with ⟨hjobEq, hsEq⟩
  subst hjobEq hsEq
  unfold Store.beginCompaction at hbegin
  rw [if_neg (by simp [h.work.1, h.restoring])] at hbegin
  cases hbegin
  have hshows := Store.view_shows hsealedOk
    (h.indexes.carried (Store.carries_sealInto h.ok hnext) rfl)
  have hmem : forall id, id ∈ (s.sealInto (s.writer.fileId + 2)).dir.disk.data ->
      id < s.writer.fileId + 2 -> id ∈ s.dir.disk.data := by
    intro id hid hless
    rcases (Store.mem_sealInto h.ok _ id).mp hid with hnew | hold
    · exact absurd hnew (Nat.ne_of_lt hless)
    · exact hold
  refine ⟨hok, hindexes, hrestoring, hsealed.congr rfl rfl rfl rfl
    (fun _ hid => AList.mem_keys.mp hid), ?_, rfl,
    fun id hid _ => hsealed.known id hid, hjob, ?_, ?_, ?_⟩
  · show recorded chart (s.writer.fileId + 2) = m
    rw [recorded, logged_of_empty (Nat.le_of_lt hnext)
      (fun id hgt => hcharted.empty_of_gt h.ok hgt)]
    exact h.whole
  · intro hid
    exact Nat.not_succ_le_self _
      (h.ok.newest _ (hmem _ hid (Nat.lt_succ_self _)))
  · intro id hid hless
    exact hcharted.known id
      (hmem id hid (Nat.lt_trans hless (Nat.lt_succ_self _)))
  · rw [← h.whole] at hshows
    exact hshows

theorem runCompaction {s : Store} {m : Contents} {chart : Chart}
    {job : CompactionJob} (h : Backs s (Compacting.started job) m chart)
    {merged : MergedFile} {dir : Dir}
    (hrun : job.run s.dir = Except.ok (merged, dir)) :
    exists chart', Backs { s with dir := dir } (Compacting.finished merged) m
      chart' := by
  rcases h.work with ⟨hcompacting, hknown, hjob, hslot, hold, hshows⟩
  have hbelow := hjob.slot.below
  rcases hjob.run with ⟨_, _, bytes, hrun', hplaced, _, hmerged⟩
  rw [hrun, Except.ok.injEq, Prod.mk.injEq] at hrun'
  rcases hrun' with ⟨hmergedEq, hdirEq⟩
  subst hmergedEq hdirEq
  rcases CompactionJob.run_placed hshows hrun with
    ⟨hid, holdIds, rs, es, hes, hcopies, hsame, hlive, hlookup, hhints⟩
  have hchart : forall id, id ≠ job.mergedId ->
      Function.update chart job.mergedId rs id = chart id :=
    fun id hne => Function.update_of_ne hne ..
  have hrange : (List.range job.mergedId).flatMap
      (Function.update chart job.mergedId rs) =
        (List.range job.mergedId).flatMap chart := by
    apply List.flatMap_congr
    intro id hin
    exact hchart id (Nat.ne_of_lt (List.mem_range.mp hin))
  have hempty : chart job.mergedId = [] := h.charted.absent _ hslot
  have hmem : forall id, id ∈ dir.disk.data -> id ≠ job.mergedId ->
      id ∈ s.dir.disk.data := by
    intro id hin hne
    rw [← AList.lookup_isSome, hlookup, if_neg hne, AList.lookup_isSome] at hin
    exact hin
  refine ⟨Function.update chart job.mergedId rs,
    h.ok.placed hjob.slot hplaced, h.indexes.placed hjob.slot hplaced,
    h.restoring, h.charted.placed hslot hbelow hes rfl rfl hlookup hhints, ?_,
    hcompacting, ?_, hmerged, ?_, ?_, ?_⟩
  · show recorded (Function.update chart job.mergedId rs)
      s.writer.fileId = m
    rw [recorded_filled (Nat.le_of_lt hbelow) hempty hsame]
    exact h.whole
  · intro id hin hne
    rw [hid] at hne
    exact hknown id (hmem id hin (fun heq => hne (by rw [heq]))) (by simp)
  · intro id hin hless
    rw [hid] at hless
    rw [holdIds]
    exact hold id (hmem id hin (Nat.ne_of_lt hless)) hless
  · rw [hid, Function.update_self]
    exact hlive
  · rw [hid, hrange, Function.update_self]
    exact ⟨_, rfl, hcopies, hsame⟩

theorem finishCompaction {s : Store} {m : Contents} {chart : Chart}
    {merged : MergedFile} (h : Backs s (Compacting.finished merged) m chart) :
    Backs (s.finishCompaction merged) Compacting.idle m
      (chart.without merged.oldIds) := by
  rcases h.work with
    ⟨_, hknown, hmerged, hold, _, older, holder, hcopies, hsame⟩
  rcases Store.finishCompaction_spec h.ok h.indexes hmerged with
    ⟨hok, hindexes, _⟩
  have htrimmed : s.Trimmed merged.oldIds (s.finishCompaction merged) :=
    ⟨rfl, rfl⟩
  refine ⟨hok, hindexes, h.restoring,
    h.charted.trimmed htrimmed hmerged.slot.active_notMem rfl, ?_, rfl, ?_⟩
  · show recorded (chart.without merged.oldIds) s.writer.fileId = m
    rw [recorded_without (Nat.le_of_lt hmerged.slot.below) holder hcopies
      hsame hmerged.slot.old]
    · exact h.whole
    · intro id hless hsome
      refine hold id ?_ hless
      by_contra hnot
      exact hsome (h.charted.absent id hnot)
  · intro id hid _
    have hin : id ∉ merged.oldIds ∧ id ∈ s.dir.disk.data := by
      have hlookup := ((removeFiles_spec merged.oldIds s.dir).2 id).1
      rw [← AList.lookup_isSome] at hid
      change ((removeFiles s.dir merged.oldIds).disk.data.lookup id).isSome at hid
      rw [hlookup] at hid
      by_cases hmem : id ∈ merged.oldIds
      · rw [if_pos hmem] at hid
        cases hid
      · rw [if_neg hmem, AList.lookup_isSome] at hid
        exact ⟨hmem, hid⟩
    have hread : id = merged.id ∨ id ∈ s.readers := by
      by_cases heq : id = merged.id
      · exact Or.inl heq
      · exact Or.inr (hknown id hin.2 (fun hsome => heq (by simpa using hsome.symm)))
    simpa [Store.finishCompaction, List.mem_filter, List.mem_insert_iff] using
      And.intro hread hin.1

/-!
# Closing and opening
-/

theorem opens {s : Store} {work : Compacting} {m : Contents} {chart : Chart}
    (h : Backs s work m chart) {dir : Dir} {s' : Store}
    (hopened : Opened dir chart s') (hid : s'.writer.fileId = s.writer.fileId) :
    Backs s' Compacting.idle m chart := by
  have hwhole : recorded chart s'.writer.fileId = m := by
    rw [hid]
    exact h.whole
  exact ⟨hopened.ok, hwhole ▸ hopened.indexes, hopened.restoring,
    hopened.charted.allRead, hwhole, hopened.compacting,
    fun id hid _ => hopened.charted.known id hid⟩

theorem opens_killed {s : Store} {work : Compacting} {m : Contents} {chart : Chart}
    (h : Backs s work m chart) (hpending : s.writer.pending = []) (disk : Disk)
    (hdata : disk.data = s.dir.disk.data)
    (hhints : forall id bytes, disk.hints.lookup id = some bytes ->
      s.dir.disk.hints.lookup id = some bytes) (opts : Options) :
    exists s', Store.openWith { disk := disk } opts = Except.ok s' ∧
      Backs s' Compacting.idle m chart := by
  have hfiles := Charted.openable h.ok.allRead h.charted hpending
  have hopenable : Openable ({ disk := disk } : Dir).disk chart [] :=
    hfiles.bared hdata (fun id bytes _ => hhints id bytes)
  rcases openWith_opened hopenable opts with ⟨s', hopen, hopened, hid⟩
  have hlast : disk.listDataFiles.getLast? = some s.writer.fileId := by
    rw [Disk.listDataFiles, hdata]
    exact getLast_of_newest h.ok.writer.linked h.ok.newest
  refine ⟨s', hopen, h.opens hopened ?_⟩
  rw [hid, hlast]
  rfl

/-- What a store leaves opens to the same map, whatever was out. -/
theorem reopen {s : Store} {work : Compacting} {m : Contents}
    {chart : Chart} (h : Backs s work m chart) {dir : Dir}
    (hleaves : s.Leaves dir) (opts : Options) :
    exists s', Store.openWith dir opts = Except.ok s' ∧
      Backs s' Compacting.idle m chart := by
  rcases hleaves with hclose | ⟨hpending, hkilled⟩
  · rw [hclose]
    rcases h.charted.reopen h.ok.allRead opts with ⟨s', hopen, hopened, hid⟩
    exact ⟨s', hopen, h.opens hopened hid⟩
  · rw [hkilled]
    exact h.opens_killed hpending s.dir.disk rfl (fun _ _ hlookup => hlookup) opts

/-- And so does what it leaves while a merge is written. -/
theorem midway {s : Store} {m : Contents} {chart : Chart} {job : CompactionJob}
    (h : Backs s (Compacting.started job) m chart)
    (hpending : s.writer.pending = []) {disk : Disk}
    (hmidway : job.Midway s.dir disk) (opts : Options) :
    exists s' chart', Store.openWith { disk := disk } opts = Except.ok s' ∧
      Backs s' Compacting.idle m chart' := by
  cases hmidway with
  | part bytes =>
      rcases h.opens_killed hpending { s.dir.disk with
        parts := s.dir.disk.parts.insert job.mergedId bytes } rfl
        (fun _ _ hlookup => hlookup) opts with ⟨s', hopen, hbacks⟩
      exact ⟨s', chart, hopen, hbacks⟩
  | renamed hrun hpast =>
      rcases h.work with ⟨_, _, _, hslot, _, hshows⟩
      rcases h.runCompaction hrun with ⟨chart', hfinished⟩
      rcases job.run_dir hshows hrun with ⟨_, _, rs, es, _, _, _, hdir⟩
      subst hdir
      cases hpast
      let renamed := ((s.dir.writePart job.mergedId []).writePart job.mergedId
        (Rec.join rs)).renamePart job.mergedId
      have hunhinted : s.dir.disk.hints.lookup job.mergedId = none :=
        AList.lookup_eq_none.mpr (fun hin => hslot (h.charted.hinted _ hin))
      have hopens : exists s', Store.openWith { disk := renamed.disk } opts =
          Except.ok s' ∧ Backs s' Compacting.idle m chart' := by
        refine hfinished.opens_killed hpending renamed.disk rfl ?_ opts
        intro id bytes hlookup
        have hbefore : s.dir.disk.hints.lookup id = some bytes := by
          rw [← hlookup]
          show _ = AList.lookup id (Dir.renamePart _ _).disk.hints
          rw [Dir.hints_renamePart]
          rfl
        have hne : id ≠ job.mergedId := by
          intro heq
          rw [heq, hunhinted] at hbefore
          cases hbefore
        rw [← hbefore, Dir.hints_placed, AList.lookup_insert_ne hne]
        rfl
      rcases hopens with ⟨s', hopen, hbacks⟩
      exact ⟨s', chart', hopen, hbacks⟩

end Backs

/-!
# Whole runs
-/

theorem written_snoc (calls : List Call) (c : Call) :
    written (calls ++ [c]) = replay (written calls) c.write.toList :=
  appliedTo_snoc empty calls c

theorem BackgroundRun.backs {opts : Options} {s : Store} {work : Compacting}
    {calls : List Call} (h : BackgroundRun opts s work calls) :
    exists chart, Backs s work (written calls) chart := by
  induction h with
  | start hopen =>
      rcases Store.serves_open opts with
        ⟨s', hopen', hok, hindexes, hcompacting, hrestoring, chart, hcharted,
          hrecorded⟩
      rw [hopen, Except.ok.injEq] at hopen'
      subst hopen'
      exact ⟨chart, hok, hindexes, hrestoring, hcharted.allRead, hrecorded,
        hcompacting, fun id hid _ => hcharted.known id hid⟩
  | call _ hplain hshort ih =>
      rcases ih with ⟨chart, hbacks⟩
      rw [written_snoc]
      exact hbacks.call hplain hshort
  | compact _ hcompact ih =>
      rcases ih with ⟨chart, hbacks⟩
      exact hbacks.compact hcompact
  | beginCompaction _ hbegin ih =>
      rcases ih with ⟨chart, hbacks⟩
      exact ⟨chart, hbacks.beginCompaction hbegin⟩
  | runCompaction _ hjob ih =>
      rcases ih with ⟨chart, hbacks⟩
      exact hbacks.runCompaction hjob
  | finishCompaction _ ih =>
      rcases ih with ⟨chart, hbacks⟩
      exact ⟨_, hbacks.finishCompaction⟩
  | abandonCompaction _ ih =>
      rcases ih with ⟨chart, hbacks⟩
      exact ⟨chart, hbacks.abandonCompaction⟩
  | @reopen _ _ _ _ _ _ hleaves opts' hopen ih =>
      rcases ih with ⟨chart, hbacks⟩
      rcases hbacks.reopen hleaves opts' with ⟨_, hopen', hbacks'⟩
      rw [hopen, Except.ok.injEq] at hopen'
      subst hopen'
      exact ⟨chart, hbacks'⟩
  | @killed _ _ _ _ _ hpending _ hmidway opts' hopen ih =>
      rcases ih with ⟨chart, hbacks⟩
      rcases hbacks.midway hpending hmidway opts' with ⟨_, chart', hopen', hbacks'⟩
      rw [hopen, Except.ok.injEq] at hopen'
      subst hopen'
      exact ⟨chart', hbacks'⟩

theorem BackgroundRun.short {opts : Options} {s : Store} {work : Compacting}
    {calls : List Call} (h : BackgroundRun opts s work calls) :
    forall c, c ∈ calls -> c.Short := by
  induction h with
  | start _ => exact fun c hc => absurd hc List.not_mem_nil
  | call _ _ hshort ih =>
      intro c hc
      rcases List.mem_append.mp hc with hold | hnew
      · exact ih c hold
      · rw [List.mem_singleton.mp hnew]
        exact hshort
  | compact _ _ ih => exact ih
  | beginCompaction _ _ ih => exact ih
  | runCompaction _ _ ih => exact ih
  | finishCompaction _ ih => exact ih
  | abandonCompaction _ ih => exact ih
  | reopen _ _ _ ih => exact ih
  | killed _ _ _ _ ih => exact ih

/-- Two stores that cannot be told apart by reading. -/
def Store.AnswersAs (s s' : Store) : Prop :=
  (forall k, s.get k = s'.get k) ∧ forall k, k ∈ s.keys ↔ k ∈ s'.keys

theorem answersAs_of_indexes {s s' : Store} {m : Contents} (hok : s.Ok)
    (hok' : s'.Ok) (h : s.Indexes m) (h' : s'.Indexes m) : s.AnswersAs s' := by
  constructor
  · intro k
    rw [Store.get_eq hok h, Store.get_eq hok' h']
  · intro k
    rw [Store.mem_keys_iff h, Store.mem_keys_iff h']

/-- At every moment of a run the store answers as one on which the same calls were
made and that never compacted, and so does what opens on its files, also while a merge
is written.  No key points into a file that is gone, and a merge that was begun can be
made. -/
theorem background_compaction_invisible {opts : Options} {s : Store}
    {work : Compacting} {calls : List Call}
    (h : BackgroundRun opts s work calls) :
    exists plain, Store.openWith {} opts = Except.ok plain ∧
      s.AnswersAs (plain.after calls) ∧
      (forall dir opts', s.Leaves dir ->
        exists s', Store.openWith dir opts' = Except.ok s' ∧
          s'.AnswersAs (plain.after calls)) ∧
      (forall k loc, s.keydir.lookup k = some loc ->
        loc.fileId ∈ s.dir.disk.data) ∧
      (forall job, work = Compacting.started job ->
        (exists merged dir, job.run s.dir = Except.ok (merged, dir)) ∧
        (s.writer.pending = [] -> forall disk opts', job.Midway s.dir disk ->
          exists s', Store.openWith { disk := disk } opts' = Except.ok s' ∧
            s'.AnswersAs (plain.after calls))) := by
  rcases h.backs with ⟨chart, hbacks⟩
  rcases Store.serves_open opts with ⟨plain, hopen, hserves⟩
  have hplain := hserves.after h.short
  refine ⟨plain, hopen, answersAs_of_indexes hbacks.ok hplain.1 hbacks.indexes
    hplain.2.1, ?_, ?_, ?_⟩
  · intro dir opts' hleaves
    rcases hbacks.reopen hleaves opts' with ⟨s', hopen', hbacks'⟩
    exact ⟨s', hopen', answersAs_of_indexes hbacks'.ok hplain.1
      hbacks'.indexes hplain.2.1⟩
  · intro k loc hlookup
    rcases hbacks.indexes.held k loc hlookup with ⟨r, _, _, hholds⟩
    exact hbacks.ok.linked _ hholds.readable
  · intro job hwork
    subst hwork
    constructor
    · rcases hbacks.work.2.2.1.run with ⟨merged, dir, _, hrun, _⟩
      exact ⟨merged, dir, hrun⟩
    · intro hpending disk opts' hmidway
      rcases hbacks.midway hpending hmidway opts' with ⟨s', _, hopen', hbacks'⟩
      exact ⟨s', hopen', answersAs_of_indexes hbacks'.ok hplain.1 hbacks'.indexes
        hplain.2.1⟩

/-- A put, a merge of it begun, a delete meanwhile, and a kill while the part file is
written; and after the restart another merge, which is installed. -/
theorem background_compaction_invisible_deleted :
    exists s, BackgroundRun {} s Compacting.idle
        [Call.put [97] [1] 5 6, Call.delete [97] 7 8] ∧
      exists plain, Store.openWith {} {} = Except.ok plain ∧
        s.AnswersAs (plain.after
          [Call.put [97] [1] 5 6, Call.delete [97] 7 8]) ∧
        (forall dir opts', s.Leaves dir ->
          exists s', Store.openWith dir opts' = Except.ok s' ∧
            s'.AnswersAs (plain.after
              [Call.put [97] [1] 5 6, Call.delete [97] 7 8])) ∧
        (forall k loc, s.keydir.lookup k = some loc ->
          loc.fileId ∈ s.dir.disk.data) ∧
        (forall job, Compacting.idle = Compacting.started job ->
          (exists merged dir, job.run s.dir = Except.ok (merged, dir)) ∧
          (s.writer.pending = [] -> forall disk opts', job.Midway s.dir disk ->
            exists s', Store.openWith { disk := disk } opts' = Except.ok s' ∧
              s'.AnswersAs (plain.after
                [Call.put [97] [1] 5 6, Call.delete [97] 7 8]))) := by
  have hput := (BackgroundRun.start (openWith_nothing {})).call
    (c := Call.put [97] [1] 5 6) trivial (by decide)
  have hbegun := ((hput.beginCompaction rfl).call
    (c := Call.delete [97] 7 8) trivial trivial)
  rcases hbegun.backs with ⟨_, hbacks⟩
  rcases hbacks.midway rfl (CompactionJob.Midway.part [1, 2, 3]) {} with
    ⟨s', _, hopen, hbacks'⟩
  have hrun := hbegun.killed rfl (CompactionJob.Midway.part [1, 2, 3]) hopen
  rcases Store.beginCompaction_spec hbacks'.ok hbacks'.indexes hbacks'.work.1
    hbacks'.restoring with ⟨job, s, hbegin, _, _, _, _, _, _, hjob⟩
  rcases hjob.run with ⟨merged, dir, _, hdone, _⟩
  have hfinished := ((hrun.beginCompaction hbegin).runCompaction
    hdone).finishCompaction
  exact ⟨_, hfinished, background_compaction_invisible hfinished⟩

theorem get_of_len_zero_first {s : Store} {key : Bytes} {loc : Location}
    (hlookup : s.keydir.lookup key = some loc) (hlen : loc.len = 0)
    (hoffset : loc.offset = 0) (hwritten : 0 < s.writer.written)
    (hread : loc.fileId ∈ s.readers) :
    s.get key = Except.error
      (Error.corrupt loc.fileId 0 "record shorter than a header") := by
  have hbuffered : s.writer.buffered loc.offset loc.len = none := by
    rw [LogWriter.buffered, hoffset, if_pos hwritten]
  unfold Store.get readValue readRecord Dir.readAt
  rw [hlookup]
  dsimp only
  rw [hbuffered, ite_self]
  dsimp only
  rw [if_pos hread, hlen, hoffset]
  simp [slice, decodeValue, headerLen, Except.bind, Except.map, hoffset]

/-- A put into an empty active file whose record takes exactly 2^32 bytes. -/
theorem get_after_long_put {s : Store} {key value bytes : Bytes}
    {now later : UInt64} (hencode : encode key (some value) now =
      Except.ok bytes) (hbytes : bytes.length = 2 ^ 32)
    (hrestoring : s.restoring = false) (hoffset : s.writer.offset = 0)
    (hpending : s.writer.pending = [])
    (hread : s.writer.fileId ∈ s.readers) :
    (s.call (Call.put key value now later)).2 = Except.ok none ∧
      (s.call (Call.put key value now later)).1.get key = Except.error
        (Error.corrupt s.writer.fileId 0 "record shorter than a header") := by
  have hroll : s.rollIfNeeded bytes.length = s := if_pos (Or.inl hoffset)
  have hlen : UInt32.ofNat bytes.length = 0 := by
    rw [hbytes]
    rfl
  have hdirect : s.reach ≠ Reach.buffer ∧ s.writer.pending.isEmpty = true := by
    constructor
    · unfold Store.reach
      split <;> nofun
    · rw [hpending]
      rfl
  have happend : exists w dir,
      s.writer.append s.dir bytes s.reach = ((0, 0), w, dir) ∧
        w.fileId = s.writer.fileId ∧ w.written = bytes.length := by
    unfold LogWriter.append
    rw [if_pos hdirect, hlen, hoffset, Nat.zero_add]
    dsimp only
    split
    · exact ⟨_, _, rfl, rfl, rfl⟩
    · exact ⟨_, _, rfl, rfl, rfl⟩
  rcases happend with ⟨w, dir, happend, hid, hwritten⟩
  rw [Store.call, Store.put, Store.putWith, if_neg (by simp [hrestoring]),
    hencode]
  dsimp only
  rw [hroll, happend]
  refine ⟨rfl, ?_⟩
  rw [get_of_len_zero_first (AList.lookup_insert _) rfl rfl ?_ ?_]
  · rw [hid]
  · show 0 < w.written
    rw [hwritten, hbytes]
    decide
  · show w.fileId ∈ s.readers
    rw [hid]
    exact hread

theorem encode_long_record {value : Bytes} (hvalue : value.length = 2 ^ 32 - 22) :
    exists bytes, encode [7] (some value) 5 = Except.ok bytes ∧
      bytes.length = 2 ^ 32 := by
  have hencode : exists bytes, encode [7] (some value) 5 = Except.ok bytes := by
    unfold encode
    rw [if_neg (show ¬ List.isEmpty [(7 : UInt8)] = true by decide),
      if_neg (show ¬ [(7 : UInt8)].length > u32Max by decide)]
    dsimp only [Option.getD_some]
    rw [if_neg (by rw [hvalue]; decide)]
    exact ⟨_, rfl⟩
  rcases hencode with ⟨bytes, hencode⟩
  refine ⟨bytes, hencode, ?_⟩
  rcases encode_parts hencode with ⟨header, heq, _⟩
  rw [heq, List.length_append, Header.length_encode, List.length_append,
    Option.getD_some, hvalue]
  rfl

/-- A record of 2^32 bytes cannot be read, and the error names a file that a
compaction moved writing to. -/
theorem long_record_shows_compaction :
    exists (value : Bytes) (job : CompactionJob) (s : Store),
      value.length = 2 ^ 32 - 22 ∧
      (newStore {}).beginCompaction = Except.ok (job, s) ∧
      (s.call (Call.put [7] value 5 6)).2 = Except.ok none ∧
      ((newStore {}).call (Call.put [7] value 5 6)).2 = Except.ok none ∧
      (s.call (Call.put [7] value 5 6)).1.get [7] ≠
        ((newStore {}).call (Call.put [7] value 5 6)).1.get [7] := by
  have hvalue : exists value : Bytes, value.length = 2 ^ 32 - 22 :=
    ⟨List.replicate (2 ^ 32 - 22) 0, List.length_replicate⟩
  rcases hvalue with ⟨value, hvalue⟩
  rcases encode_long_record hvalue with ⟨bytes, hencode, hbytes⟩
  have hplain : ((newStore {}).call (Call.put [7] value 5 6)).2 =
        Except.ok none ∧
      ((newStore {}).call (Call.put [7] value 5 6)).1.get [7] = Except.error
        (Error.corrupt 1 0 "record shorter than a header") :=
    get_after_long_put hencode hbytes rfl rfl rfl (by decide)
  have hbegin : exists job s, (newStore {}).beginCompaction =
      Except.ok (job, s) ∧ s.restoring = false ∧ s.writer.offset = 0 ∧
        s.writer.pending = [] ∧ s.writer.fileId = 3 ∧ 3 ∈ s.readers :=
    ⟨_, _, rfl, rfl, rfl, rfl, rfl, by decide⟩
  rcases hbegin with
    ⟨job, s, hbegin, hrestoring, hoffset, hpending, hid, hread⟩
  rcases get_after_long_put (s := s) hencode hbytes hrestoring hoffset
    hpending (hid ▸ hread) with ⟨hok, hget⟩
  refine ⟨value, job, s, hvalue, hbegin, hok, hplain.1, ?_⟩
  rw [hget, hplain.2, hid]
  simp

end Minicask
