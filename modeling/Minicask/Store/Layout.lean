import Minicask.Store.Index

/-!
# What the files hold

Every data file is a run of whole records, and replaying the files oldest first
gives the map back.  A chart names the records of each file, those still in the
writer's buffer included.
-/

namespace Minicask

open Replay

abbrev Chart := FileId -> List Rec

/-- The records of every file up to `top`, oldest first. -/
def logged (chart : Chart) (top : FileId) : List Rec :=
  (List.range (top + 1)).flatMap chart

/-- What replaying the files gives. -/
def recorded (chart : Chart) (top : FileId) : Contents :=
  replay empty ((logged chart top).map Rec.write)

def Chart.extend (chart : Chart) (id : FileId) (rs : List Rec) : Chart :=
  Function.update chart id (chart id ++ rs)

@[simp] theorem Chart.extend_self (chart : Chart) (id : FileId)
    (rs : List Rec) : chart.extend id rs id = chart id ++ rs := by
  simp [extend]

theorem Chart.extend_of_ne (chart : Chart) {id other : FileId}
    (rs : List Rec) (h : other ≠ id) : chart.extend id rs other = chart other := by
  simp [extend, h]

theorem Chart.extend_nil (chart : Chart) (id : FileId) :
    chart.extend id [] = chart := by
  simp [extend]

theorem logged_eq (chart : Chart) (top : FileId) :
    logged chart top = (List.range top).flatMap chart ++ chart top := by
  simp [logged, List.range_succ]

theorem logged_extend (chart : Chart) (top : FileId) (rs : List Rec) :
    logged (chart.extend top rs) top = logged chart top ++ rs := by
  have hbelow : (List.range top).flatMap (chart.extend top rs) =
      (List.range top).flatMap chart := by
    apply List.flatMap_congr
    intro id hid
    exact chart.extend_of_ne rs (Nat.ne_of_lt (List.mem_range.mp hid))
  rw [logged_eq, logged_eq, hbelow, Chart.extend_self, List.append_assoc]

theorem logged_of_empty {chart : Chart} {top next : FileId} (hle : top <= next)
    (h : forall id, top < id -> chart id = []) :
    logged chart next = logged chart top := by
  induction next, hle using Nat.le_induction with
  | base => rfl
  | succ next hle ih =>
      rw [logged_eq, h (next + 1) (Nat.lt_succ_of_le hle), List.append_nil]
      exact ih

theorem recorded_extend (chart : Chart) (top : FileId) (rs : List Rec) :
    recorded (chart.extend top rs) top =
      replay (recorded chart top) (rs.map Rec.write) := by
  rw [recorded, logged_extend, List.map_append, replay_append]
  rfl

/-- A hint that describes the start of a file, no further than is sure to
survive. -/
def HintOk (disk : Disk) (id : FileId) (rs : List Rec) (bytes : Bytes) :
    Prop :=
  exists hinted es, hinted <+: rs ∧
    bytes = Hint.encode (Rec.join hinted).length es ∧
    Hint.Describes 0 es hinted ∧ (Rec.join hinted).length <= disk.synced id

/-- The store's files hold what a chart says.  Only the active file can hold
less, by what is still in the buffer. -/
structure Charted (s : Store) (chart : Chart) : Prop where
  absent : forall id, id ∉ s.dir.disk.data -> chart id = []
  known : forall id, id ∈ s.dir.disk.data -> id ∈ s.readers
  hinted : forall id, id ∈ s.dir.disk.hints -> id ∈ s.dir.disk.data
  sealed : forall id, id ∈ s.dir.disk.data -> id ≠ s.writer.fileId ->
    s.dir.disk.contents id = Rec.join (chart id) ∧
      s.dir.disk.synced id = (Rec.join (chart id)).length
  contents : s.writer.contents s.dir = Rec.join (chart s.writer.fileId)
  flushed : exists rs, rs <+: chart s.writer.fileId ∧
    s.dir.disk.contents s.writer.fileId = Rec.join rs
  synced : exists rs, rs <+: chart s.writer.fileId ∧
    s.dir.disk.synced s.writer.fileId = (Rec.join rs).length
  hints : forall id bytes, s.dir.disk.hints.lookup id = some bytes ->
    HintOk s.dir.disk id (chart id) bytes
  activeHints : Hint.Describes 0 s.activeHints (chart s.writer.fileId)

theorem HintOk.mono {disk disk' : Disk} {id : FileId} {rs rs' : List Rec}
    {bytes : Bytes} (h : HintOk disk id rs bytes) (hrs : rs <+: rs')
    (hsynced : disk.synced id <= disk'.synced id) :
    HintOk disk' id rs' bytes := by
  rcases h with ⟨hinted, es, hhinted, hbytes, hdescribes, hle⟩
  exact ⟨hinted, es, hhinted.trans hrs, hbytes, hdescribes,
    Nat.le_trans hle hsynced⟩

namespace Charted

theorem join_length {s : Store} {chart : Chart} (hok : s.Ok)
    (h : Charted s chart) :
    (Rec.join (chart s.writer.fileId)).length = s.writer.offset := by
  rw [← h.contents, hok.writer.length_contents]

theorem empty_of_gt {s : Store} {chart : Chart} (hok : s.Ok)
    (h : Charted s chart) {id : FileId} (hgt : s.writer.fileId < id) :
    chart id = [] := by
  apply h.absent
  intro hmem
  exact Nat.not_le_of_lt hgt (hok.newest id hmem)

theorem contents_advanced {s s' : Store} {chart : Chart} {rs : List Rec}
    (h : Charted s chart) (hadvanced : s.Advanced (Rec.join rs) s') :
    s'.writer.contents s'.dir =
      Rec.join (chart.extend s.writer.fileId rs s.writer.fileId) := by
  rw [hadvanced.appended.contents, h.contents, Chart.extend_self,
    Rec.join_append]

/-- What is in the file is whole records again: those that were there, or all
there are. -/
theorem flushed_advanced {s s' : Store} {chart : Chart} {rs : List Rec}
    (hok : s.Ok) (h : Charted s chart)
    (hadvanced : s.Advanced (Rec.join rs) s') :
    exists rs', rs' <+: chart.extend s.writer.fileId rs s.writer.fileId ∧
      s'.dir.disk.contents s.writer.fileId = Rec.join rs' := by
  have hid := hadvanced.appended.fileId
  have hlength := hadvanced.appended.ok.written
  rw [hid] at hlength
  have hfile : s'.dir.disk.contents s.writer.fileId <+:
      s'.writer.contents s'.dir := by
    rw [← hid]
    exact ⟨s'.writer.pending, rfl⟩
  rcases hadvanced.appended.boundary with hsame | hall
  · rcases h.flushed with ⟨rs', hprefix, hjoin⟩
    have hold : s.dir.disk.contents s.writer.fileId <+:
        s'.writer.contents s'.dir := by
      rw [hadvanced.appended.contents]
      exact List.IsPrefix.trans ⟨s.writer.pending, rfl⟩
        (List.prefix_append _ _)
    have heq : s'.dir.disk.contents s.writer.fileId =
        s.dir.disk.contents s.writer.fileId := by
      apply (List.prefix_of_prefix_length_le hfile hold _).eq_of_length
      · rw [hlength, hsame, hok.writer.written]
      · rw [hlength, hsame, hok.writer.written]
    refine ⟨rs', ?_, heq.trans hjoin⟩
    rw [Chart.extend_self]
    exact hprefix.trans (List.prefix_append _ _)
  · refine ⟨_, List.prefix_refl _, ?_⟩
    rw [← h.contents_advanced hadvanced]
    apply hfile.eq_of_length
    rw [hlength, hall, hadvanced.appended.ok.length_contents]

theorem advanced {s s' : Store} {chart : Chart} (hok : s.Ok)
    (h : Charted s chart) {rs : List Rec}
    (hadvanced : s.Advanced (Rec.join rs) s') {es : List HintEntry}
    (hes : s'.activeHints = s.activeHints ++ es)
    (hdescribes : Hint.Describes s.writer.offset es rs) :
    Charted s' (chart.extend s.writer.fileId rs) := by
  have hid := hadvanced.appended.fileId
  have hframe := hadvanced.appended.frame
  have hmem := hframe.mem_iff hok.writer.linked
  have hflushed := h.flushed_advanced hok hadvanced
  have hne : forall id, id ≠ s.writer.fileId ->
      s'.dir.disk.contents id = s.dir.disk.contents id ∧
      s'.dir.disk.synced id = s.dir.disk.synced id ∧
      chart.extend s.writer.fileId rs id = chart id := by
    intro id hne
    refine ⟨hframe.contents hne, ?_, chart.extend_of_ne rs hne⟩
    rw [Disk.synced, Disk.synced, hframe.lookup id hne]
  refine ⟨?_, ?_, ?_, ?_, ?_, ?_, ?_, ?_, ?_⟩
  · intro id hnot
    rw [hmem] at hnot
    have hnid : id ≠ s.writer.fileId := by
      intro heq
      rw [heq] at hnot
      exact hnot hok.writer.linked
    rw [(hne id hnid).2.2]
    exact h.absent id hnot
  · intro id hin
    rw [hadvanced.readers]
    exact h.known id ((hmem id).mp hin)
  · intro id hin
    rw [hframe.hints] at hin
    exact (hmem id).mpr (h.hinted id hin)
  · intro id hin hnid
    rw [hid] at hnid
    rw [(hne id hnid).1, (hne id hnid).2.1, (hne id hnid).2.2]
    exact h.sealed id ((hmem id).mp hin) hnid
  · rw [hid]
    exact h.contents_advanced hadvanced
  · rw [hid]
    exact hflushed
  · rw [hid]
    rcases hadvanced.appended.synced with hsame | hall
    · rcases h.synced with ⟨rs', hprefix, hsynced⟩
      refine ⟨rs', ?_, hsame.trans hsynced⟩
      rw [Chart.extend_self]
      exact hprefix.trans (List.prefix_append _ _)
    · rcases hflushed with ⟨rs', hprefix, hjoin⟩
      refine ⟨rs', hprefix, ?_⟩
      rw [hall, ← hjoin, ← hadvanced.appended.ok.written, hid]
  · intro id bytes hlookup
    rw [hframe.hints] at hlookup
    by_cases hnid : id = s.writer.fileId
    · subst hnid
      apply (h.hints _ bytes hlookup).mono _ hframe.synced
      rw [Chart.extend_self]
      exact List.prefix_append _ _
    · apply (h.hints id bytes hlookup).mono
      · rewrite [(hne id hnid).2.2]
        exact List.prefix_refl _
      · exact Nat.le_of_eq (hne id hnid).2.1.symm
  · rw [hid, hes, Chart.extend_self]
    apply h.activeHints.append
    rw [Nat.zero_add, h.join_length hok]
    exact hdescribes

theorem sync {s : Store} {chart : Chart} (hok : s.Ok) (h : Charted s chart) :
    Charted s.sync chart := by
  have hadvanced : s.Advanced (Rec.join []) s.sync := Store.advanced_sync hok
  have := h.advanced hok hadvanced (List.append_nil _).symm
    (Hint.Describes.nil _)
  rwa [Chart.extend_nil] at this

theorem sealInto {s : Store} {chart : Chart} (hok : s.Ok)
    (h : Charted s chart) {nextId : FileId}
    (hnext : s.writer.fileId < nextId) :
    Charted (s.sealInto nextId) chart := by
  have hmem := Store.mem_sealInto hok nextId
  have hcontents := Store.contents_sealInto hok hnext
  have hsync := h.sync hok
  have hid := (Store.advanced_sync hok).appended.fileId
  have hframe := (Store.advanced_sync hok).appended.frame
  have hempty := h.empty_of_gt hok hnext
  have hsynced : forall id, id ≠ nextId ->
      (s.sealInto nextId).dir.disk.synced id = s.sync.dir.disk.synced id := by
    intro id hne
    rw [Disk.synced, Disk.synced, Store.lookup_sealInto, if_neg hne]
  have hmemSync := hframe.mem_iff hok.writer.linked
  refine ⟨?_, ?_, ?_, ?_, ?_, ?_, ?_, ?_, ?_⟩
  · intro id hnot
    rw [hmem] at hnot
    exact h.absent id (fun hin => hnot (Or.inr hin))
  · intro id hin
    rcases (hmem id).mp hin with heq | hin
    · rw [heq]
      exact List.mem_insert_self
    · exact List.mem_insert_of_mem (h.known id hin)
  · intro id hin
    rw [Store.hints_sealInto, AList.mem_insert, hframe.hints] at hin
    rw [hmem]
    rcases hin with heq | hin
    · rw [heq]
      exact Or.inr hok.writer.linked
    · exact Or.inr (h.hinted id hin)
  · intro id hin hne
    rw [Store.writer_sealInto] at hne
    have hin' := ((hmem id).mp hin).resolve_left hne
    rw [hcontents, if_neg hne, hsynced id hne]
    by_cases hactive : id = s.writer.fileId
    · subst hactive
      rw [Store.contents_active, h.contents, h.join_length hok]
      exact ⟨rfl, LogWriter.synced_sync hok.writer⟩
    · have := hsync.sealed id ((hmemSync id).mpr hin') (by rw [hid]; exact hactive)
      rw [← Store.contents_sync hok]
      exact this
  · show (s.sealInto nextId).dir.disk.contents nextId ++ [] =
      Rec.join (chart nextId)
    rw [hcontents, if_pos rfl, hempty]
    rfl
  · refine ⟨[], List.nil_prefix, ?_⟩
    show (s.sealInto nextId).dir.disk.contents nextId = _
    rw [hcontents, if_pos rfl]
    rfl
  · refine ⟨[], List.nil_prefix, ?_⟩
    show (s.sealInto nextId).dir.disk.synced nextId = _
    rw [Disk.synced, Store.lookup_sealInto, if_pos rfl,
      AList.lookup_eq_none.mpr (Store.not_mem_of_gt hok hnext)]
    rfl
  · intro id bytes hlookup
    rw [Store.hints_sealInto] at hlookup
    by_cases hactive : id = s.writer.fileId
    · subst hactive
      rw [AList.lookup_insert, Option.some.injEq] at hlookup
      refine ⟨chart s.writer.fileId, s.activeHints, List.prefix_refl _, ?_,
        h.activeHints, ?_⟩
      · rw [← hlookup, h.join_length hok,
          (Store.advanced_sync hok).appended.offset hok.writer]
        rfl
      · rw [hsynced _ (Nat.ne_of_lt hnext), h.join_length hok]
        exact Nat.le_of_eq (LogWriter.synced_sync hok.writer).symm
    · rw [AList.lookup_insert_ne hactive] at hlookup
      have hin : id ∈ s.sync.dir.disk.data := hsync.hinted id
        (AList.lookup_isSome.mp (by rw [hlookup]; rfl))
      have hne : id ≠ nextId := by
        intro heq
        rw [heq] at hin
        exact Store.not_mem_of_gt hok hnext hin
      apply (hsync.hints id bytes hlookup).mono (List.prefix_refl _)
      exact Nat.le_of_eq (hsynced id hne).symm
  · show Hint.Describes 0 [] (chart nextId)
    rw [hempty]
    exact Hint.Describes.nil 0

/-- After a rollover, if one was due, the files replay to the same map. -/
theorem rolled {s : Store} {chart : Chart} (hok : s.Ok) (h : Charted s chart)
    (incoming : Nat) :
    Charted (s.rollIfNeeded incoming) chart ∧
      recorded chart (s.rollIfNeeded incoming).writer.fileId =
        recorded chart s.writer.fileId := by
  unfold Store.rollIfNeeded
  split
  · exact ⟨h, rfl⟩
  · refine ⟨h.sealInto hok (Nat.lt_succ_self _), ?_⟩
    rw [Store.writer_sealInto, recorded, logged_of_empty (Nat.le_succ _)
      (fun id hgt => h.empty_of_gt hok hgt)]
    rfl

/-- A record written is one more write to the map. -/
theorem wrote {s s' : Store} {chart : Chart} {r : Rec} (hok : s.Ok)
    (h : Charted s chart) (hwrote : s.Wrote r s') :
    Charted s' (chart.extend s'.writer.fileId [r]) ∧
      recorded (chart.extend s'.writer.fileId [r]) s'.writer.fileId =
        act (recorded chart s.writer.fileId) r.write := by
  rcases h.rolled hok r.bytes.length with ⟨hrolled, hrecorded⟩
  have hokRolled := (Store.rolled hok r.bytes.length).1
  rcases hwrote.noted with ⟨e, hes, hkey, hoffset, hlen, htombstone⟩
  have hadvanced : (s.rollIfNeeded r.bytes.length).Advanced (Rec.join [r]) s' := by
    rw [Rec.join_cons, Rec.join_nil, List.append_nil]
    exact hwrote.advanced
  have hid := hadvanced.appended.fileId
  rw [hid]
  refine ⟨hrolled.advanced hokRolled hadvanced hes
    (Hint.Describes.cons hkey hoffset hlen htombstone
      (Hint.Describes.nil _)), ?_⟩
  rw [recorded_extend, hrecorded]
  rfl

end Charted

end Minicask
