import Minicask.Store.Killed
import Minicask.Store.Unlinking

/-!
# A process killed while it compacts

Every state that the files go through while a merge is written, synced, hinted and
the old files are unlinked is some whole records in every file.  It opens to what
replaying them gives, so a kill changes nothing exactly when none of these states
brings a deleted key back.
-/

namespace Minicask

open Replay

/-- Every file is whole records, and every hint describes some of them. -/
structure Disk.Whole (disk : Disk) (chart : Chart) : Prop where
  absent : forall id, id ∉ disk.data -> chart id = []
  files : forall id, id ∈ disk.data -> disk.contents id = Rec.join (chart id)
  hints : forall id bytes, disk.hints.lookup id = some bytes ->
    exists hinted es, hinted <+: chart id ∧
      bytes = Hint.encode (Rec.join hinted).length es ∧
      Hint.Describes 0 es hinted

/-!
# Taking the files for synced
-/

theorem Disk.Alike.refl (disk : Disk) : disk.Alike disk :=
  ⟨fun _ => rfl, fun _ => rfl, rfl⟩

theorem Disk.Alike.trans {a b c : Disk} (hab : a.Alike b) (hbc : b.Alike c) :
    a.Alike c where
  files id := (hbc.files id).trans (hab.files id)
  hints id := (hbc.hints id).trans (hab.hints id)
  unlinked := hbc.unlinked.trans hab.unlinked

theorem alike_syncData (dir : Dir) (id : FileId) :
    (dir.syncData id).disk.Alike dir.disk where
  files other := by
    rw [Dir.syncData, Dir.lookup_modify]
    by_cases heq : other = id
    · rw [if_pos heq, heq, Option.map_map]
      rfl
    · rw [if_neg heq]
  hints other := by rw [Dir.syncData, Dir.hints_modify]
  unlinked := (Dir.syncData_sameBut dir id).unlinked.symm

theorem synced_of_listed (ids : List FileId) (dir : Dir) :
    exists dir' : Dir, dir'.disk.Alike dir.disk ∧ forall id, id ∈ ids ->
      dir'.disk.synced id = (dir'.disk.contents id).length := by
  induction ids with
  | nil => exact ⟨dir, Disk.Alike.refl _, fun _ h => absurd h List.not_mem_nil⟩
  | cons id ids ih =>
      rcases ih with ⟨dir', halike, hsynced⟩
      refine ⟨dir'.syncData id, (alike_syncData dir' id).trans halike, ?_⟩
      intro other hother
      by_cases heq : other = id
      · rw [heq]
        exact synced_all dir' id
      · have hlookup := (Dir.syncData_sameBut dir' id).lookup other heq
        rw [Disk.synced, Disk.contents, hlookup]
        exact hsynced other ((List.mem_cons.mp hother).resolve_left heq)

theorem settled_alike (disk : Disk) :
    exists disk' : Disk, disk'.Alike disk ∧ disk'.Settled := by
  rcases synced_of_listed disk.data.keys { disk := disk } with
    ⟨dir', halike, hsynced⟩
  refine ⟨dir'.disk, halike, ?_⟩
  intro id
  by_cases hin : id ∈ disk.data
  · exact hsynced id (AList.mem_keys.mp hin)
  · have hnot : id ∉ dir'.disk.data :=
      fun hin' => hin ((halike.mem_iff id).mpr hin')
    rw [Disk.synced, Disk.contents, AList.lookup_eq_none.mpr hnot]
    rfl

/-- Whole records open to what replaying them gives, whatever was synced. -/
theorem Disk.Whole.opens {disk : Disk} {chart : Chart} (h : disk.Whole chart)
    {top : FileId} (htop : forall id, id ∈ disk.data -> id <= top)
    (opts : Options) :
    exists s, Store.openWith { disk := disk } opts = Except.ok s ∧
      (forall k, s.get k = Except.ok (recorded chart top k)) ∧
      forall k, k ∈ s.keys ↔ (recorded chart top k).isSome := by
  rcases settled_alike disk with ⟨disk', halike, hsettled⟩
  have hopenable : Openable ({ disk := disk' } : Dir).disk chart [] := by
    refine ⟨?_, ?_, Or.inl rfl, fun id _ _ => hsettled id, ?_, ?_⟩
    · intro id hnot
      exact h.absent id (fun hin => hnot ((halike.mem_iff id).mp hin))
    · intro id hin
      rw [ite_self, List.append_nil, ← halike.contents id]
      exact h.files id ((halike.mem_iff id).mpr hin)
    · intro id hlast _
      have hin := (le_of_getLast hlast).1
      refine ⟨chart id, List.prefix_refl _, ?_⟩
      rw [hsettled, ← halike.contents id,
        h.files id ((halike.mem_iff id).mpr hin)]
    · intro id bytes hin hlookup
      rw [← halike.hints id] at hlookup
      rcases h.hints id bytes hlookup with ⟨hinted, es, hstarts, hbytes, hes⟩
      refine ⟨hinted, es, hstarts, hbytes, hes, ?_⟩
      rw [hsettled, ← halike.contents id,
        h.files id ((halike.mem_iff id).mpr hin)]
      exact (join_mono hstarts).length_le
  rcases openWith_opened hopenable opts with ⟨s, hopen, hopened, hid⟩
  have hdirs : ({ disk := disk' } : Dir).disk.Alike
      ({ disk := disk } : Dir).disk :=
    halike
  rcases hdirs.openWith hopen with ⟨s', hopen', hanswers⟩
  have hrecorded : recorded chart s.writer.fileId = recorded chart top := by
    rcases Nat.le_total s.writer.fileId top with hle | hle
    · rw [recorded, recorded, logged_of_empty hle
        (fun id hgt => hopened.charted.empty_of_gt hopened.ok hgt)]
    · rw [recorded, recorded, logged_of_empty hle (fun id hgt =>
        h.absent id (fun hin => Nat.not_lt_of_le (htop id hin) hgt))]
  have hindexes := hopened.indexes
  rw [hrecorded] at hindexes
  refine ⟨s', hopen', ?_, ?_⟩
  · intro k
    rw [← hanswers.1 k]
    exact Store.get_eq hopened.ok hindexes k
  · intro k
    rw [← hanswers.2 k]
    exact Store.mem_keys_iff hindexes k

/-!
# What each step leaves
-/

namespace Disk.Whole

theorem create {dir : Dir} {chart : Chart} (h : dir.disk.Whole chart)
    {id : FileId} (hid : id ∉ dir.disk.data) :
    (dir.create id).disk.Whole chart := by
  have hlookup := Dir.lookup_create dir id
  refine ⟨?_, ?_, ?_⟩
  · intro other hnot
    apply h.absent
    intro hin
    apply hnot
    rw [← AList.lookup_isSome, hlookup]
    split
    · rfl
    · exact AList.lookup_isSome.mpr hin
  · intro other hin
    by_cases heq : other = id
    · rw [Disk.contents, hlookup, if_pos heq, heq,
        AList.lookup_eq_none.mpr hid, h.absent id hid]
      rfl
    · rw [← AList.lookup_isSome, hlookup, if_neg heq,
        AList.lookup_isSome] at hin
      rw [Disk.contents, hlookup, if_neg heq]
      exact h.files other hin
  · rw [Dir.hints_create]
    exact h.hints

theorem writeAll {dir : Dir} {chart : Chart} (h : dir.disk.Whole chart)
    {id : FileId} (hid : id ∈ dir.disk.data) (rs : List Rec) :
    (dir.writeAll id (Rec.join rs)).disk.Whole (chart.extend id rs) := by
  have hframe := Dir.writeAll_sameBut dir id (Rec.join rs)
  have hmem := hframe.mem_iff hid
  refine ⟨?_, ?_, ?_⟩
  · intro other hnot
    have hne : other ≠ id := fun heq => hnot ((hmem other).mpr (heq ▸ hid))
    rw [chart.extend_of_ne rs hne]
    exact h.absent other (fun hin => hnot ((hmem other).mpr hin))
  · intro other hin
    by_cases heq : other = id
    · rw [heq, Chart.extend_self, Rec.join_append, ← h.files id hid]
      exact Dir.contents_writeAll _ hid
    · rw [chart.extend_of_ne rs heq, hframe.contents heq]
      exact h.files other ((hmem other).mp hin)
  · intro other bytes hlookup
    rw [hframe.hints] at hlookup
    rcases h.hints other bytes hlookup with ⟨hinted, es, hstarts, hrest⟩
    refine ⟨hinted, es, hstarts.trans ?_, hrest⟩
    by_cases heq : other = id
    · rw [heq, Chart.extend_self]
      exact List.prefix_append _ _
    · rewrite [chart.extend_of_ne rs heq]
      exact List.prefix_refl _

theorem syncData {dir : Dir} {chart : Chart} (h : dir.disk.Whole chart)
    (id : FileId) : (dir.syncData id).disk.Whole chart := by
  have halike := alike_syncData dir id
  refine ⟨?_, ?_, ?_⟩
  · intro other hnot
    exact h.absent other (fun hin => hnot ((halike.mem_iff other).mp hin))
  · intro other hin
    rw [← halike.contents]
    exact h.files other ((halike.mem_iff other).mpr hin)
  · intro other bytes hlookup
    rw [← halike.hints] at hlookup
    exact h.hints other bytes hlookup

theorem writeHint {dir : Dir} {chart : Chart} (h : dir.disk.Whole chart)
    {id : FileId} {es : List HintEntry}
    (hes : Hint.Describes 0 es (chart id)) :
    (Hint.write dir id (Rec.join (chart id)).length es).disk.Whole chart := by
  refine ⟨h.absent, h.files, ?_⟩
  intro other bytes hlookup
  rw [Hint.write, Dir.hints_writeHint] at hlookup
  by_cases heq : other = id
  · subst heq
    rw [AList.lookup_insert, Option.some.injEq] at hlookup
    exact ⟨chart other, es, List.prefix_refl _, hlookup.symm, hes⟩
  · rw [AList.lookup_insert_ne heq] at hlookup
    exact h.hints other bytes hlookup

theorem removeHint {dir : Dir} {chart : Chart} (h : dir.disk.Whole chart)
    (id : FileId) : (dir.removeHint id).disk.Whole chart := by
  refine ⟨?_, ?_, ?_⟩
  · rw [Dir.data_removeHint]
    exact h.absent
  · intro other hin
    rw [Dir.data_removeHint] at hin
    rw [Disk.contents, Dir.data_removeHint]
    exact h.files other hin
  · intro other bytes hlookup
    rw [Dir.lookup_removeHint] at hlookup
    split at hlookup
    · cases hlookup
    · exact h.hints other bytes hlookup

theorem removeFile {dir : Dir} {chart : Chart} (h : dir.disk.Whole chart)
    (id : FileId) :
    ((dir.removeHint id).removeData id).disk.Whole (chart.without [id]) := by
  have hlookup := Dir.lookup_removeData (dir.removeHint id) id
  have hnone : forall other, other ≠ id -> chart.without [id] other =
      chart other := fun other hne => chart.without_of_notMem
    (fun hin => hne (List.mem_singleton.mp hin))
  refine ⟨?_, ?_, ?_⟩
  · intro other hnot
    by_cases heq : other = id
    · exact chart.without_of_mem (List.mem_singleton.mpr heq)
    · rw [hnone other heq]
      apply h.absent
      intro hin
      apply hnot
      rw [← AList.lookup_isSome, hlookup, if_neg heq, Dir.data_removeHint,
        AList.lookup_isSome]
      exact hin
  · intro other hin
    rw [← AList.lookup_isSome, hlookup] at hin
    by_cases heq : other = id
    · rw [if_pos heq] at hin
      cases hin
    · rw [if_neg heq, Dir.data_removeHint, AList.lookup_isSome] at hin
      rw [hnone other heq, Disk.contents, hlookup, if_neg heq,
        Dir.data_removeHint]
      exact h.files other hin
  · intro other bytes hbytes
    rw [Dir.hints_removeData, Dir.lookup_removeHint] at hbytes
    by_cases heq : other = id
    · rw [if_pos heq] at hbytes
      cases hbytes
    · rw [if_neg heq] at hbytes
      rw [hnone other heq]
      exact h.hints other bytes hbytes

end Disk.Whole

/-!
# Every state along the way
-/

def Dir.states (dir : Dir) : List Disk :=
  dir.disk :: dir.past

theorem Dir.through_iff {P : Disk -> Prop} {dir : Dir} :
    dir.Through P ↔ forall disk, disk ∈ dir.states -> P disk := by
  rw [Dir.Through, Dir.states, List.forall_mem_cons]

theorem Dir.Through.mono {P Q : Disk -> Prop} {dir : Dir} (h : dir.Through P)
    (hPQ : forall disk, P disk -> Q disk) : dir.Through Q :=
  ⟨hPQ _ h.1, fun disk hdisk => hPQ disk (h.2 disk hdisk)⟩

/-- Nothing happened, or one step of the file system. -/
def Dir.Moves (dir dir' : Dir) : Prop :=
  dir' = dir ∨ dir'.past = dir.states

/-- A step that leads to a good state keeps all of them good. -/
theorem Dir.Through.step {P : Disk -> Prop} {dir dir' : Dir}
    (h : dir.Through P) (hmoves : dir.Moves dir')
    (hdisk : P dir'.disk) : dir'.Through P := by
  rcases hmoves with hsame | hpast
  · rw [hsame]
    exact h
  · refine ⟨hdisk, ?_⟩
    rw [hpast]
    exact Dir.through_iff.mp h

theorem Dir.moves_modify (dir : Dir) (id : FileId) (change : File -> File) :
    dir.Moves (dir.modify id change) := by
  unfold modify
  split
  · exact Or.inr rfl
  · exact Or.inl rfl

theorem Dir.moves_create (dir : Dir) (id : FileId) :
    dir.Moves (dir.create id) := by
  unfold create
  split
  · exact Or.inl rfl
  · exact Or.inr rfl

theorem Dir.moves_removeHint (dir : Dir) (id : FileId) :
    dir.Moves (dir.removeHint id) := by
  unfold removeHint
  split
  · exact Or.inr rfl
  · exact Or.inl rfl

theorem Dir.moves_removeData (dir : Dir) (id : FileId) :
    dir.Moves (dir.removeData id) := by
  unfold removeData
  split
  · exact Or.inr rfl
  · exact Or.inl rfl

/-!
# The merge
-/

theorem Charted.whole {s : Store} {chart : Chart} (h : Charted s chart)
    (hpending : s.writer.pending = []) : s.dir.disk.Whole chart := by
  refine ⟨h.absent, ?_, ?_⟩
  · intro id hin
    by_cases heq : id = s.writer.fileId
    · have hcontents := h.contents
      rw [LogWriter.contents, hpending, List.append_nil] at hcontents
      rw [heq]
      exact hcontents
    · exact (h.sealed id hin heq).1
  · intro id bytes hlookup
    rcases h.hints id bytes hlookup with
      ⟨hinted, es, hstarts, hbytes, hes, _⟩
    exact ⟨hinted, es, hstarts, hbytes, hes⟩

/-- The old files as they were, and some copies in the new one. -/
def Copying (chart : Chart) (mergedId : FileId) (m : Contents) (disk : Disk) :
    Prop :=
  (forall id, id ∈ disk.data -> id <= mergedId) ∧
    exists copied, (forall r, r ∈ copied -> r.value = m r.key) ∧
      disk.Whole (Function.update chart mergedId copied)

/-- A merge part of the way: what it copied is in the file or in the buffer, and
all along the files were some copies beside the old ones. -/
structure Merging (chart : Chart) (mergedId : FileId) (m : Contents)
    (w : LogWriter) (dir : Dir) (rs : List Rec) : Prop where
  linked : mergedId ∈ dir.disk.data
  newest : forall id, id ∈ dir.disk.data -> id <= mergedId
  values : forall r, r ∈ rs -> r.value = m r.key
  through : dir.Through (Copying chart mergedId m)
  split : exists flushed buffered, rs = flushed ++ buffered ∧
    w.pending = Rec.join buffered ∧
    dir.disk.Whole (Function.update chart mergedId flushed)

theorem extend_update (chart : Chart) (id : FileId) (rs more : List Rec) :
    Chart.extend (Function.update chart id rs) id more =
      Function.update chart id (rs ++ more) := by
  rw [Chart.extend, Function.update_self, Function.update_idem]

theorem Merging.flushed {chart : Chart} {mergedId : FileId} {m : Contents}
    {w w' : LogWriter} {dir : Dir} {rs : List Rec}
    (h : Merging chart mergedId m w dir rs) {more : List Rec}
    (hmore : forall r, r ∈ more -> r.value = m r.key)
    (hpending : w'.pending = []) :
    Merging chart mergedId m w'
      (dir.writeAll mergedId (w.pending ++ Rec.join more)) (rs ++ more) := by
  rcases h.split with ⟨flushed, buffered, hsplit, hbuffer, hwhole⟩
  have hframe := Dir.writeAll_sameBut dir mergedId
    (w.pending ++ Rec.join more)
  have hvalues : forall r, r ∈ rs ++ more -> r.value = m r.key := by
    intro r hr
    rcases List.mem_append.mp hr with hold | hnew
    · exact h.values r hold
    · exact hmore r hnew
  have hwhole' : (dir.writeAll mergedId
      (w.pending ++ Rec.join more)).disk.Whole
        (Function.update chart mergedId (rs ++ more)) := by
    rw [hbuffer, ← Rec.join_append, hsplit, List.append_assoc,
      ← extend_update]
    exact hwhole.writeAll h.linked _
  have hnewest : forall id, id ∈ (dir.writeAll mergedId
      (w.pending ++ Rec.join more)).disk.data -> id <= mergedId :=
    fun id hin => h.newest id ((hframe.mem_iff h.linked id).mp hin)
  exact ⟨hframe.linked h.linked, hnewest, hvalues,
    h.through.step (Dir.moves_modify dir mergedId _)
      ⟨hnewest, _, hvalues, hwhole'⟩,
    _, [], (List.append_nil _).symm, hpending, hwhole'⟩

theorem Merging.append {chart : Chart} {mergedId : FileId} {m : Contents}
    {w : LogWriter} {dir : Dir} {rs : List Rec}
    (h : Merging chart mergedId m w dir rs) (hid : w.fileId = mergedId)
    {r : Rec} (hr : r.value = m r.key) :
    Merging chart mergedId m (w.append dir r.bytes Reach.buffer).2.1
      (w.append dir r.bytes Reach.buffer).2.2 (rs ++ [r]) := by
  have hone : forall r', r' ∈ [r] -> r'.value = m r'.key := by
    intro r' hr'
    rw [List.mem_singleton.mp hr']
    exact hr
  have hjoin : Rec.join [r] = r.bytes := by
    rw [Rec.join_cons, Rec.join_nil, List.append_nil]
  unfold LogWriter.append
  rw [if_neg (fun hreach => hreach.1 rfl)]
  dsimp only
  split
  · rcases h.split with ⟨flushed, buffered, hsplit, hbuffer, hwhole⟩
    refine ⟨h.linked, h.newest, ?_, h.through, flushed, buffered ++ [r], ?_,
      ?_, hwhole⟩
    · intro r' hr'
      rcases List.mem_append.mp hr' with hold | hnew
      · exact h.values r' hold
      · exact hone r' hnew
    · rw [hsplit, List.append_assoc]
    · rw [Rec.join_append, hjoin, ← hbuffer]
  · have hsome : ¬(w.pending ++ r.bytes).isEmpty = true := by
      simp [r.bytes_ne_nil]
    unfold LogWriter.flush
    dsimp only
    rw [if_neg hsome, hid, ← hjoin]
    exact h.flushed hone rfl

theorem Merging.sync {chart : Chart} {mergedId : FileId} {m : Contents}
    {w : LogWriter} {dir : Dir} {rs : List Rec}
    (h : Merging chart mergedId m w dir rs) (hid : w.fileId = mergedId) :
    (w.sync dir).2.Through (Copying chart mergedId m) ∧
      (w.sync dir).2.disk.Whole (Function.update chart mergedId rs) ∧
      forall id, id ∈ (w.sync dir).2.disk.data -> id <= mergedId := by
  subst hid
  have hflush : Merging chart w.fileId m (w.flush dir).1 (w.flush dir).2 rs ∧
      (w.flush dir).1.pending = [] ∧ (w.flush dir).1.fileId = w.fileId := by
    unfold LogWriter.flush
    by_cases hempty : w.pending.isEmpty = true
    · rw [if_pos hempty]
      exact ⟨h, List.isEmpty_iff.mp hempty, rfl⟩
    · rw [if_neg hempty]
      refine ⟨?_, rfl, rfl⟩
      have hnone : forall r : Rec, r ∈ ([] : List Rec) -> r.value = m r.key :=
        fun _ hr => absurd hr List.not_mem_nil
      have hflushed : Merging chart w.fileId m
          { w with pending := [], written := w.offset }
          (dir.writeAll w.fileId (w.pending ++ Rec.join [])) (rs ++ []) :=
        h.flushed hnone rfl
      rw [Rec.join_nil, List.append_nil, List.append_nil] at hflushed
      exact hflushed
  rcases hflush with ⟨hmerging, hpending, hid⟩
  rcases hmerging.split with ⟨flushed, buffered, hsplit, hbuffer, hwhole⟩
  have hnil : buffered = [] := by
    rw [hpending] at hbuffer
    have hlength := length_le_join buffered
    rw [← hbuffer] at hlength
    exact List.length_eq_zero_iff.mp (Nat.le_zero.mp hlength)
  rw [hnil, List.append_nil] at hsplit
  rw [← hsplit] at hwhole
  have hsynced := hwhole.syncData w.fileId
  have hnewest : forall id, id ∈ ((w.flush dir).2.syncData
      w.fileId).disk.data -> id <= w.fileId :=
    fun id hin => hmerging.newest id
      (((alike_syncData _ w.fileId).mem_iff id).mpr hin)
  have hshow : (w.sync dir).2 = (w.flush dir).2.syncData w.fileId := by
    rw [LogWriter.sync, ← hid]
  rw [hshow]
  exact ⟨hmerging.through.step (Dir.moves_modify _ w.fileId _)
    ⟨hnewest, rs, hmerging.values, hsynced⟩, hsynced, hnewest⟩

/-!
# The unlinking
-/

/-- What is left opens, under any options, to a store that answers the same. -/
def Disk.Reopens (disk : Disk) (s : Store) : Prop :=
  forall opts, exists s', Store.openWith { disk := disk } opts =
    Except.ok s' ∧ s'.AnswersAs s

theorem Disk.Whole.reopens_iff {disk : Disk} {chart : Chart}
    (h : disk.Whole chart) {top : FileId}
    (htop : forall id, id ∈ disk.data -> id <= top) {s : Store}
    {m : Contents} (hok : s.Ok) (hindexes : s.Indexes m) :
    disk.Reopens s ↔ recorded chart top = m := by
  constructor
  · intro hreopens
    rcases hreopens {} with ⟨s', hopen, hanswers⟩
    rcases h.opens htop {} with ⟨s'', hopen', hget, _⟩
    rw [hopen, Except.ok.injEq] at hopen'
    subst hopen'
    funext k
    have hk := hanswers.1 k
    rw [hget k, Store.get_eq hok hindexes k, Except.ok.injEq] at hk
    exact hk
  · intro hm opts
    rcases h.opens htop opts with ⟨s', hopen, hget, hkeys⟩
    rw [hm] at hget hkeys
    refine ⟨s', hopen, ?_, ?_⟩
    · intro k
      rw [hget k, Store.get_eq hok hindexes k]
    · intro k
      rw [hkeys k, Store.mem_keys_iff hindexes k]

theorem without_without (chart : Chart) (id : FileId) (gone : List FileId) :
    (chart.without [id]).without gone = chart.without (id :: gone) := by
  funext other
  by_cases hin : other ∈ gone
  · rw [Chart.without_of_mem _ hin,
      chart.without_of_mem (List.mem_cons_of_mem id hin)]
  · rw [Chart.without_of_notMem _ hin]
    by_cases heq : other = id
    · rw [heq, chart.without_of_mem List.mem_cons_self,
        chart.without_of_mem List.mem_cons_self]
    · rw [chart.without_of_notMem (by simpa using heq),
        chart.without_of_notMem (by simpa using And.intro heq hin)]

theorem without_nil (chart : Chart) : chart.without [] = chart := by
  funext id
  exact chart.without_of_notMem List.not_mem_nil

theorem Disk.Whole.removeFiles {dir : Dir} {chart : Chart}
    (h : dir.disk.Whole chart) (gone : List FileId) :
    (removeFiles dir gone).disk.Whole (chart.without gone) := by
  induction gone generalizing dir chart with
  | nil =>
      rw [without_nil]
      exact h
  | cons id gone ih =>
      rw [← without_without]
      exact ih (h.removeFile id)

theorem mem_of_removeFiles {dir : Dir} {gone : List FileId} {id : FileId}
    (h : id ∈ (removeFiles dir gone).disk.data) : id ∈ dir.disk.data := by
  rw [← AList.lookup_isSome, ((removeFiles_spec gone dir).2 id).1] at h
  split at h
  · cases h
  · exact AList.lookup_isSome.mp h

/-- Each state of the unlinking has the first few of the files gone. -/
theorem Dir.Through.removeFiles {P : Disk -> Prop} {chart : Chart}
    {order : List FileId} {dir : Dir} (hthrough : dir.Through P)
    (h : dir.disk.Whole chart)
    (hP : forall gone disk, gone <+: order ->
      disk.Whole (chart.without gone) ->
      (forall id, id ∈ disk.data -> id ∈ dir.disk.data) -> P disk) :
    (removeFiles dir order).Through P := by
  induction order generalizing dir chart with
  | nil => exact hthrough
  | cons id order ih =>
      have hhint : (dir.removeHint id).Through P := by
        refine hthrough.step (Dir.moves_removeHint dir id) (hP [] _
          List.nil_prefix ?_ ?_)
        · rw [without_nil]
          exact h.removeHint id
        · rw [Dir.data_removeHint]
          exact fun _ hin => hin
      have hmem : forall other,
          other ∈ ((dir.removeHint id).removeData id).disk.data ->
            other ∈ dir.disk.data :=
        fun other hin => mem_of_removeFiles
          (show other ∈ (Minicask.removeFiles dir [id]).disk.data from hin)
      have hdata : ((dir.removeHint id).removeData id).Through P :=
        hhint.step (Dir.moves_removeData _ id) (hP [id] _
          (List.cons_prefix_cons.mpr ⟨rfl, List.nil_prefix⟩) (h.removeFile id)
          hmem)
      refine ih hdata (h.removeFile id) ?_
      intro gone disk hgone hwhole hsub
      rw [without_without] at hwhole
      exact hP (id :: gone) disk (List.cons_prefix_cons.mpr ⟨rfl, hgone⟩)
        hwhole (fun other hin => hmem other (hsub other hin))

theorem Dir.Moves.states {dir dir' : Dir} (h : dir.Moves dir') {disk : Disk}
    (hdisk : disk ∈ dir.states) : disk ∈ dir'.states := by
  rcases h with hsame | hpast
  · rw [hsame]
    exact hdisk
  · rw [Dir.states, hpast]
    exact List.mem_cons_of_mem _ hdisk

theorem states_removeFiles {dir : Dir} {order : List FileId} {disk : Disk}
    (h : disk ∈ dir.states) : disk ∈ (removeFiles dir order).states := by
  induction order generalizing dir with
  | nil => exact h
  | cons id order ih =>
      exact ih ((Dir.moves_removeData _ id).states
        ((Dir.moves_removeHint dir id).states h))

/-- A kill while the old files are unlinked changes nothing exactly when no put
outlasts what buries it. -/
theorem unlinking_reopens_iff {dir : Dir} {chart : Chart} {top : FileId}
    {order : List FileId} {s : Store} {m : Contents} (hok : s.Ok)
    (hindexes : s.Indexes m) (hwhole : dir.disk.Whole chart)
    (htop : forall id, id ∈ dir.disk.data -> id <= top)
    (hm : recorded chart top = m) (hreplaced : Replaced chart top order)
    (hthrough : dir.Through (fun disk => disk.Reopens s)) :
    (forall disk, disk ∈ (removeFiles dir order).states -> disk.Reopens s) ↔
      forall k, Unkept chart top order k -> Buries chart order k := by
  rw [← unlinking_iff hreplaced, hm]
  constructor
  · intro hall gone hgone
    rcases hgone with ⟨rest, hrest⟩
    have hin : (removeFiles dir gone).disk ∈
        (removeFiles dir order).states := by
      rw [← hrest, removeFiles, List.foldl_append]
      exact states_removeFiles List.mem_cons_self
    exact ((hwhole.removeFiles gone).reopens_iff
      (fun id hid => htop id (mem_of_removeFiles hid)) hok hindexes).mp
        (hall _ hin)
  · intro hall
    refine Dir.through_iff.mp (hthrough.removeFiles hwhole ?_)
    intro gone disk hgone hdisk hsub
    exact (hdisk.reopens_iff (fun id hid => htop id (hsub id hid)) hok
      hindexes).mpr (hall gone hgone)

/-!
# What a data file says of a key
-/

/-- Whether the last record of a key in some bytes is a put, if there is one. -/
def lastSays (bytes key : Bytes) : Option Bool :=
  (((scanLoop (bytes.length + 1) { rest := bytes, offset := 0 }).1.filter
    (fun e => e.key = key)).getLast?).map (fun e => !e.tombstone)

theorem filter_describes {start : Nat} {es : List HintEntry} {rs : List Rec}
    (h : Hint.Describes start es rs) (key : Bytes) :
    (es.filter (fun e => e.key = key)).map (fun e => !e.tombstone) =
      ((rs.map Rec.write).filter (fun w => w.key = key)).map
        (fun w => w.value.isSome) := by
  induction h with
  | nil _ => rfl
  | @cons _ e r es rs hkey _ _ htombstone _ ih =>
      have hwrite : r.write.key = r.key := rfl
      rw [List.map_cons, List.filter_cons, List.filter_cons, hkey, hwrite]
      by_cases heq : r.key = key
      · rw [if_pos (by simpa using heq), if_pos (by simpa using heq),
          List.map_cons, List.map_cons, ih, htombstone]
        cases hvalue : r.value <;> simp [Rec.write, hvalue]
      · rw [if_neg (by simpa using heq), if_neg (by simpa using heq), ih]

theorem lastSays_join (rs : List Rec) (key : Bytes) :
    lastSays (Rec.join rs) key =
      (lastWrite key (rs.map Rec.write)).map (fun w => w.value.isSome) := by
  rcases scanLoop_join (Or.inl rfl) rs 0
    (Nat.lt_succ_of_le (length_le_join rs)) with ⟨es, torn, hscan, hes, _⟩
  rw [List.append_nil] at hscan
  rw [lastSays, hscan, lastWrite, ← List.getLast?_map, ← List.getLast?_map,
    filter_describes hes]

theorem lastSays_eq_none {bytes key : Bytes}
    (h : forall e, e ∈ (scanLoop (bytes.length + 1)
      { rest := bytes, offset := 0 }).1 -> e.key ≠ key) :
    lastSays bytes key = none := by
  rw [lastSays, Option.map_eq_none_iff, List.getLast?_eq_none_iff,
    List.filter_eq_nil_iff]
  intro e he
  rw [decide_eq_true_iff]
  exact h e he

/-- No deleted key comes back while files are unlinked in some order: of a key that
is not in the index, and that no file that stays has a record of, every file that
ends on a put goes before some newer file that mentions it. -/
def Store.Orderly (s : Store) (order : List FileId) : Prop :=
  forall key, s.containsKey key = false ->
    (forall id, id ∈ s.readers -> id ∉ order ->
      lastSays (s.contents id) key = none) ->
    forall before id after, order = before ++ id :: after ->
      lastSays (s.contents id) key = some true ->
      exists id', id' ∈ after ∧ id < id' ∧
        lastSays (s.contents id') key ≠ none

theorem orderly_iff {s : Store} {chart : Chart} {top : FileId}
    {order : List FileId}
    (hcontents : forall id, id ∈ order ->
      s.contents id = Rec.join (chart id))
    (hunkept : forall k, Unkept chart top order k ↔
      s.containsKey k = false ∧ forall id, id ∈ s.readers -> id ∉ order ->
        lastSays (s.contents id) k = none) :
    (forall k, Unkept chart top order k -> Buries chart order k) ↔
      s.Orderly order := by
  have hlasts : forall id k, id ∈ order -> lastSays (s.contents id) k =
      (chart.last k id).map (fun w => w.value.isSome) := by
    intro id k hid
    rw [hcontents id hid, lastSays_join]
    rfl
  have hmem : forall {before id after}, order = before ++ id :: after ->
      id ∈ order ∧ forall id', id' ∈ after -> id' ∈ order := by
    intro before id after hsplit
    rw [hsplit]
    exact ⟨List.mem_append_right before List.mem_cons_self, fun id' hid' =>
      List.mem_append_right before (List.mem_cons_of_mem id hid')⟩
  constructor
  · intro h key habsent hstays before id after hsplit hput
    rcases hmem hsplit with ⟨hid, hafter⟩
    rw [hlasts id key hid, Option.map_eq_some_iff] at hput
    rcases hput with ⟨w, hlast, hvalue⟩
    rcases h key ((hunkept key).mpr ⟨habsent, hstays⟩) before id after w hsplit
      hlast (by
        intro hnone
        rw [hnone] at hvalue
        cases hvalue) with ⟨id', hid', hless, hmentions⟩
    refine ⟨id', hid', hless, ?_⟩
    rw [hlasts id' key (hafter id' hid'), ne_eq, Option.map_eq_none_iff]
    exact hmentions
  · intro h k hk before id after w hsplit hlast hvalue
    rcases hmem hsplit with ⟨hid, hafter⟩
    rcases (hunkept k).mp hk with ⟨habsent, hstays⟩
    rcases h k habsent hstays before id after hsplit (by
      rw [hlasts id k hid, hlast, Option.map_some, Option.some.injEq]
      exact Option.isSome_iff_ne_none.mpr hvalue) with
      ⟨id', hid', hless, hmentions⟩
    refine ⟨id', hid', hless, ?_⟩
    rw [hlasts id' k (hafter id' hid'), ne_eq, Option.map_eq_none_iff] at hmentions
    exact hmentions

/-!
# Compacting in the foreground
-/

/-- A table's keys in some order, each once. -/
def Lists (order readers : List FileId) : Prop :=
  order.Nodup ∧ forall id, id ∈ order ↔ id ∈ readers

/-- The states of the files in `compact`, from the call on, when the table of
readers gives its keys in some order. -/
def Store.compactSteps (s : Store) (order : List FileId) : List Disk :=
  match compact { s with readers := order, dir := { disk := s.dir.disk } } with
  | Except.ok s' => s'.dir.states
  | Except.error _ => []

theorem reordered {s : Store} {m : Contents} (hok : s.Ok)
    (hindexes : s.Indexes m) {order : List FileId}
    (horder : forall id, id ∈ order ↔ id ∈ s.readers) :
    Store.Ok { s with readers := order, dir := { disk := s.dir.disk } } ∧
      Store.Indexes
        { s with readers := order, dir := { disk := s.dir.disk } } m := by
  constructor
  · exact ⟨⟨hok.writer.linked, hok.writer.written, hok.writer.offset⟩,
      (horder _).mpr hok.active, fun id hid => hok.linked id ((horder id).mp hid),
      hok.newest⟩
  · refine hindexes.carried ?_ rfl
    intro loc r hholds
    exact ⟨hholds.located, hholds.len, (horder _).mpr hholds.readable,
      hholds.whole⟩

theorem flushed_eq {s : Store} (hpending : s.writer.pending = []) :
    s.flushed = s := by
  unfold Store.flushed LogWriter.flush
  rw [if_pos (by rw [hpending]; rfl)]

theorem merging_start {s : Store} {m : Contents} {chart : Chart} (hok : s.Ok)
    (hcharted : Charted s chart) (hpending : s.writer.pending = [])
    (hpast : s.dir.past = []) :
    Merging chart (s.writer.fileId + 1) m
      (LogWriter.openFile s.dir (s.writer.fileId + 1)).1
      (LogWriter.openFile s.dir (s.writer.fileId + 1)).2 [] := by
  have hfresh : s.writer.fileId + 1 ∉ s.dir.disk.data := fun hin =>
    Nat.not_succ_le_self _ (hok.newest _ hin)
  have hchart : Function.update chart (s.writer.fileId + 1) [] = chart := by
    rw [← hcharted.absent _ hfresh, Function.update_eq_self]
  have hwhole := hcharted.whole hpending
  have hbelow : forall id, id ∈ s.dir.disk.data -> id <= s.writer.fileId + 1 :=
    fun id hin => Nat.le_succ_of_le (hok.newest id hin)
  have hnone : forall r : Rec, r ∈ ([] : List Rec) -> r.value = m r.key :=
    fun _ hr => absurd hr List.not_mem_nil
  have hlookup := Dir.lookup_create s.dir (s.writer.fileId + 1)
  have hcreatedBelow : forall id,
      id ∈ (s.dir.create (s.writer.fileId + 1)).disk.data ->
        id <= s.writer.fileId + 1 := by
    intro id hin
    by_cases heq : id = s.writer.fileId + 1
    · exact Nat.le_of_eq heq
    · rw [← AList.lookup_isSome, hlookup, if_neg heq, AList.lookup_isSome] at hin
      exact hbelow id hin
  have hcreated : (s.dir.create (s.writer.fileId + 1)).disk.Whole
      (Function.update chart (s.writer.fileId + 1) []) := by
    rw [hchart]
    exact hwhole.create hfresh
  refine ⟨?_, hcreatedBelow, hnone, ?_, [], [], rfl, rfl, hcreated⟩
  · show s.writer.fileId + 1 ∈
      (s.dir.create (s.writer.fileId + 1)).disk.data
    rw [← AList.lookup_isSome, hlookup, if_pos rfl]
    rfl
  · have hinitial : s.dir.Through (Copying chart (s.writer.fileId + 1) m) := by
      refine ⟨⟨hbelow, [], hnone, by rw [hchart]; exact hwhole⟩, ?_⟩
      rw [hpast]
      exact fun _ hdisk => absurd hdisk List.not_mem_nil
    exact hinitial.step (Dir.moves_create _ _)
      ⟨hcreatedBelow, [], hnone, hcreated⟩

/-- What `compact` does before it unlinks anything, and how it goes on. -/
theorem compact_through {s : Store} {m : Contents} {chart : Chart}
    (hok : s.Ok) (hindexes : s.Indexes m) (hcompacting : s.compacting = false)
    (hrestoring : s.restoring = false) (hcharted : Charted s chart)
    (hpending : s.writer.pending = []) (hpast : s.dir.past = []) :
    exists s' dir rs, s.compact = Except.ok s' ∧
      s'.dir = removeFiles dir s.readers ∧
      dir.Through (Copying chart (s.writer.fileId + 1) m) ∧
      dir.disk.Whole (Function.update chart (s.writer.fileId + 1) rs) ∧
      (forall id, id ∈ dir.disk.data -> id <= s.writer.fileId + 1) ∧
      (forall r, r ∈ rs -> r.value = m r.key ∧ r.value ≠ none) ∧
      forall k, m k ≠ none -> exists r, r ∈ rs ∧ r.key = k := by
  have hnext : s.writer.fileId < s.writer.fileId + 1 := Nat.lt_succ_self _
  have hstart := merging_start (m := m) hok hcharted hpending hpast
  have hflushed := flushed_eq hpending
  have hmerge := Store.merged_start hok hnext
  have hcopyable := fun p (hp : p ∈ inFileOrder s.keydir) =>
    Store.copyable hok hindexes hnext hp
  rw [hflushed] at hmerge hcopyable
  rcases hmerge.loop_keeps (Q := Merging chart (s.writer.fileId + 1) m)
    (fun w d rs r _ hid hmerging hvalue => hmerging.append hid hvalue)
    (inFileOrder s.keydir) hstart hcopyable with
    ⟨mg, rs, hloop, hmerged, hmerging, hkeys, hvalues⟩
  rw [List.nil_append] at hmerged hmerging
  rcases hmerging.sync hmerged.fileId with ⟨hthrough, hsynced, hnewest⟩
  have hoffset : (mg.writer.sync mg.dir).1.offset = (Rec.join rs).length := by
    rw [(LogWriter.appended_sync hmerged.ok).1.offset hmerged.ok,
      ← hmerged.ok.length_contents, hmerged.contents]
    rfl
  have hdescribes : Hint.Describes 0 mg.hints
      (Function.update chart (s.writer.fileId + 1) rs
        (s.writer.fileId + 1)) := by
    rw [Function.update_self]
    exact hmerged.hints
  have hhinted := hsynced.writeHint hdescribes
  rw [Function.update_self, ← hoffset] at hhinted
  refine ⟨_, _, rs,
    Store.compact_eq hok hcompacting hrestoring (by rw [hflushed]; exact hloop),
    rfl, hthrough.step (Or.inr rfl) ⟨hnewest, rs, hmerging.values, hhinted⟩,
    hhinted, hnewest, hvalues, ?_⟩
  exact Store.copied_of_live hindexes hkeys

/-- Copies in the file after the active one change nothing. -/
theorem Backs.recorded_copies {s : Store} {work : Compacting} {m : Contents}
    {chart : Chart} (h : Backs s work m chart) {copied : List Rec}
    (hcopied : forall r, r ∈ copied -> r.value = m r.key) :
    recorded (Function.update chart (s.writer.fileId + 1) copied)
      (s.writer.fileId + 1) = m := by
  have hgt : forall id, s.writer.fileId < id -> chart id = [] :=
    fun id hgt => h.charted.empty_of_gt h.ok.allRead hgt
  have hrange : replay empty (((List.range (s.writer.fileId + 1)).flatMap
      chart).map Rec.write) = m := h.whole
  rw [recorded_filled (Nat.le_refl _) (hgt _ (Nat.lt_succ_self _)), recorded,
    logged_of_empty (Nat.le_succ _) hgt]
  · exact h.whole
  · rw [hrange]
    apply replay_eq_self
    intro w hw
    rcases List.mem_map.mp hw with ⟨r, hr, heq⟩
    rw [← heq]
    exact (hcopied r hr).symm

theorem compactSteps_iff {s : Store} {m : Contents} {chart : Chart}
    (h : Backs s Compacting.idle m chart) (hpending : s.writer.pending = [])
    {order : List FileId} (horder : Lists order s.readers) :
    (forall disk, disk ∈ s.compactSteps order -> disk.Reopens s) ↔
      s.Orderly order := by
  have hcharted : Charted s chart := h.charted.congr rfl rfl rfl rfl
    (fun id hid => h.work.2 id hid (by simp))
  rcases reordered h.ok h.indexes horder.2 with ⟨hok, hindexes⟩
  have hcharted' : Charted
      { s with readers := order, dir := { disk := s.dir.disk } } chart :=
    hcharted.congr rfl rfl rfl rfl
      (fun id hid => (horder.2 id).mpr (hcharted.known id hid))
  rcases compact_through hok hindexes h.work.1 h.restoring hcharted' hpending
    rfl with
    ⟨s', dir, rs, hcompact, hdir, hthrough, hwhole, hnewest, hvalues, hkeys⟩
  have hfilled : forall copied : List Rec,
      (forall r, r ∈ copied -> r.value = m r.key) ->
      recorded (Function.update chart (s.writer.fileId + 1) copied)
        (s.writer.fileId + 1) = m :=
    fun _ hcopied => h.recorded_copies hcopied
  have hsteps : s.compactSteps order = (removeFiles dir order).states := by
    rw [Store.compactSteps, hcompact]
    dsimp only
    rw [hdir]
  have hmergedNot : s.writer.fileId + 1 ∉ order := fun hin =>
    Nat.not_succ_le_self _ (h.ok.newest _
      (h.ok.linked _ ((horder.2 _).mp hin)))
  have hold : forall id, id ∈ order -> id <= s.writer.fileId := fun id hin =>
    h.ok.newest id (h.ok.linked id ((horder.2 id).mp hin))
  have hother : forall id, id ≠ s.writer.fileId + 1 ->
      Function.update chart (s.writer.fileId + 1) rs id = chart id :=
    fun id hne => Function.update_of_ne hne ..
  have hunkeptLast : forall k, Unkept
      (Function.update chart (s.writer.fileId + 1) rs) (s.writer.fileId + 1)
      order k -> m k = none := by
    intro k hk
    by_contra hsome
    rcases hkeys k hsome with ⟨r, hr, hkey⟩
    have hlast := hk _ (Nat.le_refl _) hmergedNot
    rw [Chart.last, Function.update_self, lastWrite_eq_none] at hlast
    exact hlast r.write (List.mem_map_of_mem hr) hkey
  have hreplaced : Replaced
      (Function.update chart (s.writer.fileId + 1) rs) (s.writer.fileId + 1)
      order := by
    refine ⟨horder.1, fun id hin => Nat.le_succ_of_le (hold id hin), ?_, ?_⟩
    · intro id id' hin hnot hsome
      by_cases heq : id' = s.writer.fileId + 1
      · rw [heq]
        exact Nat.lt_succ_of_le (hold id hin)
      · rw [hother id' heq] at hsome
        refine absurd (hcharted.absent id' ?_) hsome
        intro hin'
        exact hnot ((horder.2 id').mpr (hcharted.known id' hin'))
    · intro k hk
      rw [hfilled rs (fun r hr => (hvalues r hr).1)]
      exact hunkeptLast k hk
  rw [hsteps, unlinking_reopens_iff h.ok h.indexes hwhole hnewest
    (hfilled rs (fun r hr => (hvalues r hr).1)) hreplaced]
  · apply orderly_iff
    · intro id hin
      have hcontents : s.contents id = s.dir.disk.contents id := by
        rw [← flushed_eq hpending]
        exact Store.contents_flushed h.ok id
      rw [hother id (fun heq => hmergedNot (heq ▸ hin)), hcontents]
      exact (hcharted.whole hpending).files id
        (h.ok.linked id ((horder.2 id).mp hin))
    · intro k
      rw [Store.containsKey_eq h.indexes]
      constructor
      · intro hk
        refine ⟨by rw [hunkeptLast k hk]; rfl, ?_⟩
        intro id hid hnot
        exact absurd ((horder.2 id).mpr hid) hnot
      · rintro ⟨habsent, _⟩ id hle hnot
        have hnone : m k = none := by
          cases hm : m k with
          | none => rfl
          | some value =>
              rw [hm] at habsent
              cases habsent
        by_cases heq : id = s.writer.fileId + 1
        · rw [heq, Chart.last, Function.update_self, lastWrite_eq_none]
          intro w hw hkey
          rcases List.mem_map.mp hw with ⟨r, hr, hrw⟩
          have hvalue := hvalues r hr
          have hrkey : r.key = k := by
            rw [← hkey, ← hrw]
            rfl
          rw [hrkey, hnone] at hvalue
          exact hvalue.2 hvalue.1
        · rw [Chart.last, hother id heq, hcharted.absent id]
          · rfl
          · intro hin
            exact hnot ((horder.2 id).mpr (hcharted.known id hin))
  · refine ⟨?_, ?_⟩
    · rcases hthrough.1 with ⟨hbelow, copied, hcopied, hdisk⟩
      exact (hdisk.reopens_iff hbelow h.ok h.indexes).mpr
        (hfilled copied hcopied)
    · intro disk hpast
      rcases hthrough.2 disk hpast with ⟨hbelow, copied, hcopied, hdisk⟩
      exact (hdisk.reopens_iff hbelow h.ok h.indexes).mpr
        (hfilled copied hcopied)

/-!
# Installing a merge
-/

/-- The states of the files in `finishCompaction`, from the call on, when the old
files are visited in some order. -/
def Store.finishSteps (s : Store) (merged : MergedFile)
    (order : List FileId) : List Disk :=
  (finishCompaction { s with dir := { disk := s.dir.disk } }
    { merged with oldIds := order }).dir.states

theorem Backs.replaced {s : Store} {m : Contents} {chart : Chart}
    {merged : MergedFile} (h : Backs s (Compacting.finished merged) m chart)
    {order : List FileId} (horder : Lists order merged.oldIds) :
    Replaced chart s.writer.fileId order := by
  rcases h.work with
    ⟨_, _, hmerged, hold, _, older, holder, hcopies, _⟩
  have hbelow := hmerged.slot.below
  have hless : forall id, id ∈ order -> id < merged.id := fun id hin =>
    hmerged.slot.old id ((horder.2 id).mp hin)
  have hslotNot : merged.id ∉ order := fun hin =>
    Nat.lt_irrefl _ (hless _ hin)
  refine ⟨horder.1, fun id hin =>
    Nat.le_of_lt (Nat.lt_trans (hless id hin) hbelow), ?_, ?_⟩
  · intro id id' hin hnot hsome
    have hdata : id' ∈ s.dir.disk.data := by
      by_contra hout
      exact hsome (h.charted.absent id' hout)
    have hge : merged.id <= id' := by
      by_contra hlt
      exact hnot ((horder.2 id').mpr (hold id' hdata (Nat.lt_of_not_le hlt)))
    exact Nat.lt_of_lt_of_le (hless id hin) hge
  · intro k hk
    cases hvalue : recorded chart s.writer.fileId k with
    | none => rfl
    | some value =>
        rcases recorded_eq_some.mp hvalue with
          ⟨id, w, hid, hlast, hput, hnewer⟩
        have hin : id ∈ order := by
          by_contra hnot
          rw [hk id hid hnot] at hlast
          cases hlast
        -- The files before the slot then hold the key, and the copies do not.
        have hbefore := (last_flatMap chart k merged.id w).mpr ⟨id, hless id hin,
          hlast, fun id' hlow hhigh => hnewer id' hlow
            (Nat.le_of_lt (Nat.lt_trans hhigh hbelow))⟩
        have hsome : older k = some value := by
          rw [← holder, replay_of_lastWrite hbefore, hput]
        have hnone : older k = none := by
          rw [← hcopies]
          exact replay_of_forall_ne (lastWrite_eq_none.mp
            (hk merged.id (Nat.le_of_lt hbelow) hslotNot)) empty
        rw [hsome] at hnone
        cases hnone

/-- The bytes of every file that the store reads, or that a merge replaced. -/
theorem Backs.contents {s : Store} {work : Compacting} {m : Contents}
    {chart : Chart} (h : Backs s work m chart)
    (hpending : s.writer.pending = []) (id : FileId) :
    s.contents id = Rec.join (chart id) := by
  have hcontents : s.contents id = s.dir.disk.contents id := by
    rw [← flushed_eq hpending]
    exact Store.contents_flushed h.ok id
  rw [hcontents]
  by_cases hin : id ∈ s.dir.disk.data
  · exact (h.charted.whole hpending).files id hin
  · rw [h.charted.absent id hin, Disk.contents, AList.lookup_eq_none.mpr hin]
    rfl

theorem finishSteps_iff {s : Store} {m : Contents} {chart : Chart}
    {merged : MergedFile} (h : Backs s (Compacting.finished merged) m chart)
    (hpending : s.writer.pending = []) {order : List FileId}
    (horder : Lists order merged.oldIds) :
    (forall disk, disk ∈ s.finishSteps merged order -> disk.Reopens s) ↔
      s.Orderly order := by
  have hwhole : ({ disk := s.dir.disk } : Dir).disk.Whole chart :=
    h.charted.whole hpending
  have htop : forall id, id ∈ ({ disk := s.dir.disk } : Dir).disk.data ->
      id <= s.writer.fileId := h.ok.newest
  have hreplaced := h.replaced horder
  rcases h.work with ⟨_, hknown, hmerged, _, hlive, _⟩
  have hbelow := hmerged.slot.below
  have hless : forall id, id ∈ order -> id < merged.id := fun id hin =>
    hmerged.slot.old id ((horder.2 id).mp hin)
  have hlasts : forall id k, lastSays (s.contents id) k =
      (chart.last k id).map (fun w => w.value.isSome) := by
    intro id k
    rw [h.contents hpending, lastSays_join]
    rfl
  show (forall disk, disk ∈ (removeFiles { disk := s.dir.disk }
    order).states -> disk.Reopens s) ↔ s.Orderly order
  rw [unlinking_reopens_iff h.ok h.indexes hwhole htop h.whole hreplaced]
  · apply orderly_iff (fun id _ => h.contents hpending id)
    intro k
    rw [Store.containsKey_eq h.indexes]
    constructor
    · intro hk
      have hdead := hreplaced.dead k hk
      rw [h.whole] at hdead
      refine ⟨by rw [hdead]; rfl, ?_⟩
      intro id hid hnot
      rw [hlasts, hk id (h.ok.newest id (h.ok.linked id hid)) hnot]
      rfl
    · rintro ⟨habsent, hstays⟩ id hle hnot
      have hread : forall id', id' ∈ s.readers -> id' ∉ order ->
          chart.last k id' = none := by
        intro id' hid' hnot'
        have hnone := hstays id' hid' hnot'
        rw [hlasts, Option.map_eq_none_iff] at hnone
        exact hnone
      by_cases hin : id ∈ s.dir.disk.data
      · by_cases heq : id = merged.id
        · cases hlast : chart.last k id with
          | none => rfl
          | some w =>
              -- The copy would be the newest record of the key.
              have hnewer : forall id', id < id' -> id' <= s.writer.fileId ->
                  chart.last k id' = none := by
                intro id' hlow _
                by_cases hin' : id' ∈ s.dir.disk.data
                · refine hread id' (hknown id' hin' ?_) ?_
                  · rw [ne_eq, Option.some.injEq, ← heq]
                    exact Nat.ne_of_lt hlow
                  · intro horder'
                    exact Nat.lt_asymm hlow (heq ▸ hless id' horder')
                · rw [Chart.last, h.charted.absent id' hin']
                  rfl
              have hput : w.value ≠ none := by
                have hmem := List.mem_of_getLast? hlast
                rw [List.mem_filter] at hmem
                rcases List.mem_map.mp hmem.1 with ⟨r, hr, hrw⟩
                rw [← hrw]
                exact hlive r (heq ▸ hr)
              rcases Option.ne_none_iff_exists'.mp hput with ⟨value, hvalue⟩
              have hsome := recorded_eq_some.mpr
                ⟨id, w, hle, hlast, hvalue, hnewer⟩
              rw [h.whole] at hsome
              rw [hsome] at habsent
              cases habsent
        · exact hread id (hknown id hin (by
            rw [ne_eq, Option.some.injEq]
            exact Ne.symm heq)) hnot
      · rw [Chart.last, h.charted.absent id hin]
        rfl
  · refine ⟨(hwhole.reopens_iff htop h.ok h.indexes).mpr h.whole, ?_⟩
    exact fun _ hpast => absurd hpast List.not_mem_nil

/-!
# Nothing left in the buffer
-/

def Call.Direct : Call -> Prop
  | put _ _ _ _ => True
  | delete _ _ _ => True
  | sync => True
  | _ => False

theorem reach_ne_buffer (s : Store) : s.reach ≠ Reach.buffer := by
  unfold Store.reach
  split <;> nofun

theorem Store.Flowed.pending {s s' : Store} {reach : Reach}
    (h : s.Flowed reach s') (hreach : reach ≠ Reach.buffer)
    (hpending : s.writer.pending = []) : s'.writer.pending = [] := by
  rcases h with ⟨_, bytes, hwriter, _⟩
  have hrolled : (s.rollIfNeeded bytes.length).writer.pending = [] := by
    rcases s.rollIfNeeded_cases bytes.length with hroll | hroll
    · rw [hroll]
      exact hpending
    · rw [hroll]
      rfl
  rw [hwriter]
  unfold LogWriter.append
  rw [if_pos ⟨hreach, List.isEmpty_iff.mpr hrolled⟩]
  dsimp only
  split
  · exact hrolled
  · exact hrolled

theorem deleteWith_false {s s' : Store} {key : Bytes} {reach : Reach}
    {now later : UInt64}
    (h : s.deleteWith key reach now later = Except.ok (s', false)) :
    s' = s := by
  rcases Store.deleteWith_eq_ok h with ⟨_, _, ⟨_, hsame⟩ | ⟨hlive, _⟩⟩
  · exact hsame
  · cases hlive

theorem pending_call {s : Store} (hok : s.Ok) {c : Call} (hdirect : c.Direct)
    (hpending : s.writer.pending = []) :
    (s.call c).1.writer.pending = [] := by
  cases c with
  | put key value now later =>
      rw [Store.call]
      cases hput : s.put key value now later with
      | error e => exact hpending
      | ok s' =>
          exact (Store.flowed_putWith hput).pending (reach_ne_buffer s)
            hpending
  | delete key now later =>
      rw [Store.call]
      cases hdelete : s.delete key now later with
      | error e => exact hpending
      | ok result =>
          rcases result with ⟨s', was⟩
          cases was with
          | true =>
              exact (Store.flowed_deleteWith hdelete).pending
                (reach_ne_buffer s) hpending
          | false =>
              rw [deleteWith_false hdelete]
              exact hpending
  | sync => exact (LogWriter.appended_sync hok.writer).2
  | putDeferred key value now later => exact False.elim hdirect
  | deleteDeferred key now later => exact False.elim hdirect
  | compact => exact False.elim hdirect
  | reopen opts => exact False.elim hdirect

theorem pending_openWith {dir : Dir} {opts : Options} {s : Store}
    (hopen : Store.openWith dir opts = Except.ok s) : s.writer.pending = [] := by
  unfold Store.openWith at hopen
  dsimp only at hopen
  split at hopen
  · cases hopen
  · cases hopen
    rfl

theorem BackgroundRun.pending {opts : Options} {s : Store}
    {work : Compacting} {calls : List Call}
    (h : BackgroundRun opts s work calls)
    (hdirect : forall c, c ∈ calls -> c.Direct) : s.writer.pending = [] := by
  induction h with
  | start hopen =>
      rw [openWith_nothing, Except.ok.injEq] at hopen
      rw [← hopen]
      rfl
  | call hrun _ _ ih =>
      rcases hrun.backs with ⟨chart, hbacks⟩
      exact pending_call hbacks.ok
        (hdirect _ (List.mem_append_right _ (List.mem_singleton_self _)))
        (ih (fun c hc => hdirect c (List.mem_append_left _ hc)))
  | compact hrun hcompact _ =>
      rcases hrun.backs with ⟨chart, hbacks⟩
      rcases Store.compact_spec hbacks.ok hbacks.indexes hbacks.work.1
        hbacks.restoring with
        ⟨_, _, hcompact', hok, _, _, _, hdurable, _⟩
      rw [hcompact, Except.ok.injEq] at hcompact'
      rw [hcompact']
      exact hdurable.pending hok
  | @beginCompaction s s' _ hrun job hbegin _ =>
      unfold Store.beginCompaction at hbegin
      split at hbegin
      · cases hbegin
      · cases hbegin
        rfl
  | runCompaction _ _ ih => exact ih hdirect
  | finishCompaction _ ih => exact ih hdirect
  | abandonCompaction _ ih => exact ih hdirect
  | reopen _ _ hopen _ => exact pending_openWith hopen
  | killed _ _ _ hopen _ => exact pending_openWith hopen

/-!
# Killed at any point
-/

/-- A process killed at any point of `compact` or of `finishCompaction` leaves what
the store held, exactly when the order in which the old files go is one in which
no put outlasts what deletes it. -/
theorem killed_compaction_iff {opts : Options} {s : Store}
    {work : Compacting} {calls : List Call}
    (h : BackgroundRun opts s work calls)
    (hdirect : forall c, c ∈ calls -> c.Direct) :
    (work = Compacting.idle -> forall order, Lists order s.readers ->
      ((forall disk, disk ∈ s.compactSteps order -> disk.Reopens s) ↔
        s.Orderly order)) ∧
    (forall merged, work = Compacting.finished merged ->
      forall order, Lists order merged.oldIds ->
      ((forall disk, disk ∈ s.finishSteps merged order -> disk.Reopens s) ↔
        s.Orderly order)) := by
  rcases h.backs with ⟨chart, hbacks⟩
  have hpending := h.pending hdirect
  constructor
  · intro hwork order horder
    subst hwork
    exact compactSteps_iff hbacks hpending horder
  · intro merged hwork order horder
    subst hwork
    exact finishSteps_iff hbacks hpending horder

def buriedCalls : List Call :=
  [Call.put [97] [1] 5 6, Call.delete [97] 7 8]

theorem backgroundRun_buriedCalls :
    BackgroundRun { maxFileBytes := 30 }
      ((newStore { maxFileBytes := 30 }).after buriedCalls) Compacting.idle
      buriedCalls :=
  ((BackgroundRun.start (openWith_nothing { maxFileBytes := 30 })).call
    (c := Call.put [97] [1] 5 6) trivial (by decide)).call
    (c := Call.delete [97] 7 8) trivial trivial

/-- Oldest first, no state of the files brings the key back. -/
theorem killed_compaction_iff_buried :
    Lists [1, 2] ((newStore { maxFileBytes := 30 }).after buriedCalls).readers ∧
      forall disk, disk ∈ Store.compactSteps
          ((newStore { maxFileBytes := 30 }).after buriedCalls) [1, 2] ->
        disk.Reopens
          ((newStore { maxFileBytes := 30 }).after buriedCalls) := by
  have hlists : Lists [1, 2]
      ((newStore { maxFileBytes := 30 }).after buriedCalls).readers := by
    constructor
    · decide
    · intro id
      have hreaders : ((newStore { maxFileBytes := 30 }).after
        buriedCalls).readers = [2, 1] := rfl
      rw [hreaders]
      simp [or_comm]
  refine ⟨hlists, ((killed_compaction_iff backgroundRun_buriedCalls ?_).1 rfl
    [1, 2] hlists).mpr ?_⟩
  · intro c hc
    simp only [buriedCalls, List.mem_cons, List.not_mem_nil, or_false] at hc
    rcases hc with rfl | rfl <;> trivial
  · intro key _ _ before id after hsplit hput
    have hkeys : forall id, id ∈ [1, 2] ->
        forall e, e ∈ (scanLoop ((Store.contents
          ((newStore { maxFileBytes := 30 }).after buriedCalls) id).length + 1)
          { rest := Store.contents
              ((newStore { maxFileBytes := 30 }).after buriedCalls) id,
            offset := 0 }).1 -> e.key = [97] := by
      decide +kernel
    have hid : id ∈ [1, 2] := by
      rw [hsplit]
      exact List.mem_append_right before List.mem_cons_self
    have hkey : key = [97] := by
      by_contra hne
      have hnone : lastSays _ key = none := lastSays_eq_none
        (fun e he heq => hne (heq.symm.trans (hkeys id hid e he)))
      rw [hput] at hnone
      cases hnone
    subst hkey
    cases before with
    | nil =>
        cases hsplit
        exact ⟨2, List.mem_singleton_self 2, by decide, by decide +kernel⟩
    | cons first rest =>
        have hlast : id = 2 := by
          cases rest with
          | nil =>
              cases hsplit
              rfl
          | cons second rest =>
              cases rest <;> cases hsplit
        subst hlast
        exact absurd hput (by decide +kernel)

/-- Newest first, a kill between the two files leaves the put without its
delete. -/
theorem killed_compaction_resurrects :
    exists s, BackgroundRun { maxFileBytes := 30 } s Compacting.idle
        buriedCalls ∧
      Lists [2, 1] s.readers ∧
      s.get [97] = Except.ok none ∧
      exists disk, disk ∈ s.compactSteps [2, 1] ∧
        exists s', Store.openWith { disk := disk } {} = Except.ok s' ∧
          s'.get [97] = Except.ok (some [1]) := by
  have hsteps : exists disk, disk ∈ Store.compactSteps
      ((newStore { maxFileBytes := 30 }).after buriedCalls) [2, 1] ∧
      (Store.openWith { disk := disk } {}).toOption.map
        (fun s' => s'.get [97]) = some (Except.ok (some [1])) := by
    decide +kernel
  rcases hsteps with ⟨disk, hdisk, hget⟩
  rw [Option.map_eq_some_iff] at hget
  rcases hget with ⟨s', hopen, hget⟩
  refine ⟨_, backgroundRun_buriedCalls, ?_, ?_, disk, hdisk, s', ?_, hget⟩
  · exact ⟨by decide, fun _ => Iff.rfl⟩
  · rfl
  · cases hresult : Store.openWith { disk := disk } {} with
    | error e =>
        rw [hresult] at hopen
        cases hopen
    | ok s'' =>
        rw [hresult] at hopen
        cases hopen
        rfl
end Minicask
