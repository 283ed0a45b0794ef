import Minicask.Store.BackgroundRuns

/-!
# A view stays as it was

A view has handles of its own.  Writes go behind what it points at, and the files
that a compaction removes are still there for whoever has them open.  So a view shows
the map that the store stood for when it was taken, however the store went on.
-/

namespace Minicask

open Replay

/-- How a store goes on: calls, and compactions in the background and in the
foreground. -/
inductive Onward (s : Store) (work : Compacting) :
    Store -> Compacting -> Prop where
  | refl : Onward s work s work
  | call {s' : Store} {work' : Compacting} (hrun : Onward s work s' work')
      {c : Call} (hplain : c.Plain) (hshort : c.Short) :
      Onward s work (s'.call c).1 work'
  | compact {s' s'' : Store} (hrun : Onward s work s' Compacting.idle)
      (hcompact : s'.compact = Except.ok s'') :
      Onward s work s'' Compacting.idle
  | beginCompaction {s' s'' : Store} (hrun : Onward s work s' Compacting.idle)
      {job : CompactionJob}
      (hbegin : s'.beginCompaction = Except.ok (job, s'')) :
      Onward s work s'' (Compacting.started job)
  | runCompaction {s' : Store} {job : CompactionJob}
      (hrun : Onward s work s' (Compacting.started job)) {merged : MergedFile}
      {dir : Dir} (hjob : job.run s'.dir = Except.ok (merged, dir)) :
      Onward s work { s' with dir := dir } (Compacting.finished merged)
  | finishCompaction {s' : Store} {merged : MergedFile}
      (hrun : Onward s work s' (Compacting.finished merged)) :
      Onward s work (s'.finishCompaction merged) Compacting.idle
  | abandonCompaction {s' : Store} {job : CompactionJob}
      (hrun : Onward s work s' (Compacting.started job)) :
      Onward s work s'.abandonCompaction Compacting.idle

/-- The compaction that is out can be run and installed. -/
def JobOk (s : Store) : Compacting -> Prop
  | Compacting.idle => s.compacting = false
  | Compacting.started job => s.compacting = true ∧ job.Ok s
  | Compacting.finished merged => s.compacting = true ∧ merged.Ok s

theorem WorkOk.jobOk {s : Store} {chart : Chart} {work : Compacting}
    (h : WorkOk s chart work) : JobOk s work := by
  cases work with
  | idle => exact h.1
  | started job => exact ⟨h.1, h.2.2.1⟩
  | finished merged => exact ⟨h.1, h.2.2.1⟩

theorem JobOk.later {s s' : Store} {work : Compacting} (h : JobOk s work)
    (hlater : s.Later s') : JobOk s' work := by
  cases work with
  | idle => exact hlater.compacting.trans h
  | started job => exact ⟨hlater.compacting.trans h.1, h.2.later hlater⟩
  | finished merged => exact ⟨hlater.compacting.trans h.1, h.2.later hlater⟩

def Compacting.slot : Compacting -> Option FileId
  | started job => some job.mergedId
  | _ => none

/-- A store that went on since some handles were opened: they read all they did,
and no merge is going to write to a file of theirs. -/
structure Frozen (handles : List FileId) (dir : Dir) (s : Store)
    (work : Compacting) : Prop where
  ok : s.Ok
  map : exists m, s.Indexes m
  writable : s.restoring = false
  job : JobOk s work
  old : forall id, id ∈ handles -> id <= s.writer.fileId
  kept : forall id, id ∈ handles -> dir.disk.handle id <+: s.dir.disk.handle id
  slot : forall id, work.slot = some id -> id ∉ handles

namespace Frozen

variable {handles : List FileId} {dir : Dir} {s s' : Store} {work : Compacting}

theorem view {m : Contents} {chart : Chart} (h : Backs s work m chart) :
    Frozen s.view.1.readers s.view.2.dir s.view.2 work := by
  have hadvanced := Store.advanced_flushed h.ok
  have hok : s.flushed.Ok := hadvanced.ok h.ok
  constructor
  · exact hok
  · exact ⟨m, h.indexes.carried (hadvanced.carries h.ok) rfl⟩
  · exact h.restoring
  · exact h.work.jobOk.later (Store.later_flushed h.ok)
  · intro id hid
    exact hok.newest id (hok.linked id hid)
  · intro id hid
    exact List.prefix_refl _
  · intro id hslot
    cases work with
    | idle => cases hslot
    | started job =>
        cases hslot
        exact h.work.jobOk.2.slot.unread
    | finished merged => cases hslot

/-- Whatever keeps what the handles of the store read keeps what they read. -/
theorem next (h : Frozen handles dir s work) (hkept : s.Kept s') (hok : s'.Ok)
    {m : Contents} (hindexes : s'.Indexes m) (hwritable : s'.restoring = false)
    {work' : Compacting} (hjob : JobOk s' work')
    (hslot : forall id, work'.slot = some id -> id ∉ handles) :
    Frozen handles dir s' work' where
  ok := hok
  map := ⟨m, hindexes⟩
  writable := hwritable
  job := hjob
  old id hid := Nat.le_trans (h.old id hid) hkept.newer
  kept id hid := (h.kept id hid).trans (hkept.handles id (h.old id hid))
  slot := hslot

theorem later (h : Frozen handles dir s work) (hlater : s.Later s')
    (hok : s'.Ok) {m : Contents} (hindexes : s'.Indexes m) :
    Frozen handles dir s' work :=
  h.next hlater.toKept hok hindexes (hlater.restoring.trans h.writable)
    (h.job.later hlater) h.slot

theorem call (h : Frozen handles dir s work) {c : Call} (hplain : c.Plain)
    (hshort : c.Short) : Frozen handles dir (s.call c).1 work := by
  rcases h.map with ⟨m, hindexes⟩
  cases Store.called h.ok hindexes h.writable hplain hshort with
  | same hstore hmap =>
      rw [hstore]
      exact h
  | wrote hwrote hindexes' hmap =>
      exact h.later (hwrote.later h.ok) (hwrote.ok h.ok) hindexes'
  | synced hstore hmap =>
      have hadvanced := Store.advanced_sync h.ok
      rw [hstore]
      exact h.later (Store.later_sync h.ok) (hadvanced.ok h.ok)
        (hindexes.carried (hadvanced.carries h.ok) rfl)

theorem compact (h : Frozen handles dir s Compacting.idle)
    (hcompact : s.compact = Except.ok s') :
    Frozen handles dir s' Compacting.idle := by
  rcases h.map with ⟨m, hindexes⟩
  rcases Store.compact_spec h.ok hindexes h.job h.writable with
    ⟨_, rs, hcompact', hok, hindexes', hkept, _, _, hcompacting, hwritable, _⟩
  rw [hcompact, Except.ok.injEq] at hcompact'
  subst hcompact'
  exact h.next hkept hok hindexes' hwritable hcompacting (fun _ hslot => by
    cases hslot)

theorem beginCompaction (h : Frozen handles dir s Compacting.idle)
    {job : CompactionJob} (hbegin : s.beginCompaction = Except.ok (job, s')) :
    Frozen handles dir s' (Compacting.started job) := by
  rcases h.map with ⟨m, hindexes⟩
  rcases Store.beginCompaction_spec h.ok hindexes h.job h.writable with
    ⟨_, _, hbegin', hok, hindexes', hkept, hcompacting, hwritable, hnew, hjob⟩
  rw [hbegin, Except.ok.injEq, Prod.mk.injEq] at hbegin'
  rcases hbegin' with ⟨rfl, rfl⟩
  have hout : JobOk s' (Compacting.started job) := ⟨hcompacting, hjob⟩
  apply h.next hkept hok hindexes' hwritable hout
  intro id hslot hid
  cases hslot
  exact Nat.not_le_of_lt hnew (h.old _ hid)

theorem runCompaction {job : CompactionJob}
    (h : Frozen handles dir s (Compacting.started job)) {merged : MergedFile}
    {dir' : Dir} (hrun : job.run s.dir = Except.ok (merged, dir')) :
    Frozen handles dir { s with dir := dir' } (Compacting.finished merged) := by
  rcases h.map with ⟨m, hindexes⟩
  rcases h.job with ⟨hcompacting, hjob⟩
  rcases hjob.run with ⟨_, _, bytes, hrun', hplaced, _, hmerged⟩
  rw [hrun, Except.ok.injEq, Prod.mk.injEq] at hrun'
  rcases hrun' with ⟨rfl, rfl⟩
  constructor
  · exact h.ok.placed hjob.slot hplaced
  · exact ⟨m, hindexes.placed hjob.slot hplaced⟩
  · exact h.writable
  · exact ⟨hcompacting, hmerged⟩
  · exact h.old
  · intro id hid
    have hne : id ≠ job.mergedId := by
      intro heq
      exact h.slot job.mergedId rfl (heq ▸ hid)
    show dir.disk.handle id <+: dir'.disk.handle id
    rw [hplaced.handle hne]
    exact h.kept id hid
  · intro id hslot
    cases hslot

theorem finishCompaction {merged : MergedFile}
    (h : Frozen handles dir s (Compacting.finished merged)) :
    Frozen handles dir (s.finishCompaction merged) Compacting.idle := by
  rcases h.map with ⟨m, hindexes⟩
  rcases Store.finishCompaction_spec h.ok hindexes h.job.2 with
    ⟨hok, hindexes', hkept⟩
  exact h.next hkept hok hindexes' h.writable rfl (fun _ hslot => by
    cases hslot)

theorem abandonCompaction {job : CompactionJob}
    (h : Frozen handles dir s (Compacting.started job)) :
    Frozen handles dir s.abandonCompaction Compacting.idle := by
  rcases h.map with ⟨m, hindexes⟩
  constructor
  · exact h.ok.flagged rfl rfl rfl
  · exact ⟨m, hindexes.flagged rfl rfl rfl rfl⟩
  · exact h.writable
  · rfl
  · exact h.old
  · exact h.kept
  · intro id hslot
    cases hslot

end Frozen

theorem Onward.frozen {s s' : Store} {work work' : Compacting}
    (h : Onward s work s' work') {handles : List FileId} {dir : Dir}
    (hstart : Frozen handles dir s work) : Frozen handles dir s' work' := by
  induction h with
  | refl => exact hstart
  | call _ hplain hshort ih => exact ih.call hplain hshort
  | compact _ hcompact ih => exact ih.compact hcompact
  | beginCompaction _ hbegin ih => exact ih.beginCompaction hbegin
  | runCompaction _ hjob ih => exact ih.runCompaction hjob
  | finishCompaction _ ih => exact ih.finishCompaction
  | abandonCompaction _ ih => exact ih.abandonCompaction

/-- A view goes on showing the map of the store that it was taken of. -/
theorem BackgroundRun.view_shows {opts : Options} {s : Store}
    {work : Compacting} {calls : List Call}
    (h : BackgroundRun opts s work calls) {s' : Store} {work' : Compacting}
    (honward : Onward s.view.2 work s' work') :
    s.view.1.Shows s'.dir (written calls) := by
  rcases h.backs with ⟨chart, hbacks⟩
  have hfrozen := honward.frozen (Frozen.view hbacks)
  exact (Store.view_shows hbacks.ok hbacks.indexes).kept hfrozen.kept

end Minicask
