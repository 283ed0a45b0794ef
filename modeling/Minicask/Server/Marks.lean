import Minicask.Paces
import Minicask.Server.Keyspace

/-!
# How much of the log is on the disk

The server's writes go into a buffer, and an fsync that began some time ago may cover
some of them.  Here a point in the log stands for the number of records before it, and
the log keeps pace with the writes, so that a point stands for some of those.
-/

namespace Minicask

open Replay

/-!
# Charts that grow
-/

/-- A later chart.  The files below the active one have all their records. -/
structure Chart.Grown (active : FileId) (chart chart' : Chart) : Prop where
  kept : forall id, chart id <+: chart' id
  below : forall id, id < active -> chart' id = chart id

namespace Chart.Grown

variable {active active' : FileId} {chart chart' chart'' : Chart}

theorem refl (active : FileId) (chart : Chart) : Grown active chart chart where
  kept _ := List.prefix_refl _
  below _ _ := rfl

theorem trans (h : Grown active chart chart') (h' : Grown active' chart' chart'')
    (hle : active <= active') : Grown active chart chart'' where
  kept id := (h.kept id).trans (h'.kept id)
  below id hlt := (h'.below id (Nat.lt_of_lt_of_le hlt hle)).trans (h.below id hlt)

theorem extend (hle : active <= active') (chart : Chart) (rs : List Rec) :
    Grown active chart (chart.extend active' rs) where
  kept id := by
    by_cases heq : id = active'
    · rw [heq, Chart.extend_self]
      exact List.prefix_append _ _
    · rewrite [Chart.extend_of_ne chart rs heq]
      exact List.prefix_refl _
  below id hlt :=
    Chart.extend_of_ne chart rs (Nat.ne_of_lt (Nat.lt_of_lt_of_le hlt hle))

theorem flatMap_below (h : Grown active chart chart') {id : FileId}
    (hle : id <= active) :
    (List.range id).flatMap chart' = (List.range id).flatMap chart := by
  apply List.flatMap_congr
  intro other hother
  exact h.below other (Nat.lt_of_lt_of_le (List.mem_range.mp hother) hle)

end Chart.Grown

theorem length_flatMap_lt (chart : Chart) {id later : FileId} (hlt : id < later) :
    ((List.range id).flatMap chart).length + (chart id).length <=
      ((List.range later).flatMap chart).length := by
  have hstep : ((List.range (id + 1)).flatMap chart).length =
      ((List.range id).flatMap chart).length + (chart id).length := by
    rw [← List.length_append, ← logged_eq]
    rfl
  rw [← hstep]
  have hle : id + 1 <= later := hlt
  induction later, hle using Nat.le_induction with
  | base => exact Nat.le_refl _
  | succ later hle ih =>
      have hmore : ((List.range (later + 1)).flatMap chart).length =
          ((List.range later).flatMap chart).length + (chart later).length := by
        rw [← List.length_append, ← logged_eq]
        rfl
      have hih := ih hle
      omega

/-!
# What an fsync did
-/

namespace Dir

theorem contents_syncUpTo (dir : Dir) (id : FileId) (extent : Nat) (other : FileId) :
    (dir.syncUpTo id extent).disk.contents other = dir.disk.contents other := by
  rw [Disk.contents, Disk.contents, syncUpTo, lookup_modify]
  split
  · next heq =>
      rw [heq]
      cases dir.disk.data.lookup id <;> rfl
  · rfl

theorem synced_syncUpTo (dir : Dir) (id : FileId) (extent : Nat) (other : FileId) :
    (dir.syncUpTo id extent).disk.synced other =
      if other = id then
        max (dir.disk.synced id) (min extent (dir.disk.contents id).length)
      else dir.disk.synced other := by
  rw [Disk.synced, Disk.synced, Disk.synced, Disk.contents, syncUpTo, lookup_modify]
  split
  · cases dir.disk.data.lookup id with
    | none =>
        show (0 : Nat) = max 0 (min extent 0)
        omega
    | some file => rfl
  · rfl

theorem mem_syncUpTo (dir : Dir) (id : FileId) (extent : Nat) (other : FileId) :
    other ∈ (dir.syncUpTo id extent).disk.data ↔ other ∈ dir.disk.data := by
  rw [← AList.lookup_isSome, ← AList.lookup_isSome, syncUpTo, lookup_modify]
  split
  · next heq =>
      rw [heq, Option.isSome_map]
  · rfl

end Dir

namespace Server

/-!
# Points in the log
-/

/-- So many records of the log are before a point. -/
def Reaching (chart : Chart) (point : Point) (n : Nat) : Prop :=
  exists rs, rs <+: chart point.1 ∧ (Rec.join rs).length = point.2 ∧
    n = ((List.range point.1).flatMap chart).length + rs.length

theorem Reaching.grown {active : FileId} {chart chart' : Chart} {point : Point}
    {n : Nat} (h : Reaching chart point n) (hgrown : Chart.Grown active chart chart')
    (hle : point.1 <= active) : Reaching chart' point n := by
  rcases h with ⟨rs, hrs, hlength, hn⟩
  refine ⟨rs, hrs.trans (hgrown.kept point.1), hlength, ?_⟩
  rw [hgrown.flatMap_below hle]
  exact hn

theorem Reaching.le {chart : Chart} {p q : Point} {m n : Nat} (h : Reaching chart p m)
    (h' : Reaching chart q n) (hle : ¬q.Before p) : m <= n := by
  rcases h with ⟨rs, hrs, hlength, hm⟩
  rcases h' with ⟨more, hmore, hlength', hn⟩
  rw [Point.before_iff] at hle
  rcases Nat.lt_trichotomy p.1 q.1 with hlt | heq | hgt
  · have hbelow := length_flatMap_lt chart hlt
    have := hrs.length_le
    omega
  · have hstarts : rs <+: more := by
      rw [heq] at hrs
      apply prefix_of_join_le hrs hmore
      rw [hlength, hlength']
      exact Nat.le_of_not_lt fun hlt => hle (Or.inr ⟨heq.symm, hlt⟩)
    have := hstarts.length_le
    rw [heq] at hm
    omega
  · exact absurd (Or.inl hgt) hle

theorem reaching_appendPoint {s : Store} {chart : Chart} (hok : s.Ok)
    (h : Charted s chart) :
    Reaching chart (appendPoint s) (logged chart s.writer.fileId).length := by
  refine ⟨chart s.writer.fileId, List.prefix_refl _, h.join_length hok, ?_⟩
  rw [logged_eq, List.length_append]
  rfl

/-- The first `n` records of the log are on the disk. -/
def Secured (s : Store) (chart : Chart) (n : Nat) : Prop :=
  exists rs, rs <+: chart s.writer.fileId ∧
    (Rec.join rs).length <= s.dir.disk.synced s.writer.fileId ∧
    n <= ((List.range s.writer.fileId).flatMap chart).length + rs.length

theorem Secured.mono {s : Store} {chart : Chart} {m n : Nat} (h : Secured s chart n)
    (hle : m <= n) : Secured s chart m := by
  rcases h with ⟨rs, hrs, hsynced, hn⟩
  exact ⟨rs, hrs, hsynced, Nat.le_trans hle hn⟩

theorem Secured.grew {s s' : Store} {chart chart' : Chart} {n : Nat}
    (h : Secured s chart n) (hgrew : s.Grew s')
    (hgrown : Chart.Grown s.writer.fileId chart chart') : Secured s' chart' n := by
  rcases h with ⟨rs, hrs, hsynced, hn⟩
  have hlater := hrs.trans (hgrown.kept s.writer.fileId)
  have hbelow := hgrown.flatMap_below (Nat.le_refl s.writer.fileId)
  rcases Nat.lt_or_eq_of_le hgrew.newer with hlt | heq
  · have hless := length_flatMap_lt chart' hlt
    have hlength := hlater.length_le
    rw [hbelow] at hless
    refine ⟨[], List.nil_prefix, Nat.zero_le _, ?_⟩
    rw [List.length_nil]
    omega
  · refine ⟨rs, ?_, ?_, ?_⟩
    · rw [← heq]
      exact hlater
    · rw [← heq]
      exact Nat.le_trans hsynced (hgrew.synced _)
    · rw [← heq, hbelow]
      exact hn

/-- All before a point that is covered is on the disk. -/
theorem Covered.secured {first now : Store} {chart : Chart} {reached p : Point}
    {n : Nat} (h : Covered first now reached) (hreached : ¬reached.Before p)
    (hreaching : Reaching chart p n) : Secured now chart n := by
  rcases hreaching with ⟨rs, hrs, hlength, hn⟩
  have hwithin := h.within
  have hsynced := h.synced
  rw [Point.before_iff] at hreached
  have hle : @LE.le Nat _ p.1 now.writer.fileId := by
    have hnot : ¬@LT.lt Nat _ reached.1 p.1 := fun hlt => hreached (Or.inl hlt)
    have hle' : @LE.le Nat _ reached.1 now.writer.fileId := hwithin
    omega
  rcases Nat.lt_or_eq_of_le hle with hlt | heq
  · have hless := length_flatMap_lt chart hlt
    have := hrs.length_le
    refine ⟨[], List.nil_prefix, Nat.zero_le _, ?_⟩
    rw [List.length_nil]
    omega
  · have hsame : @Eq Nat reached.1 p.1 := by
      have hnot : ¬@LT.lt Nat _ reached.1 p.1 := fun hlt => hreached (Or.inl hlt)
      have hle' : @LE.le Nat _ reached.1 now.writer.fileId := hwithin
      omega
    have hoffset : p.2 <= reached.2 :=
      Nat.le_of_not_lt fun hlt => hreached (Or.inr ⟨hsame, hlt⟩)
    refine ⟨rs, ?_, ?_, ?_⟩
    · rw [← heq]
      exact hrs
    · rw [hlength, ← heq, ← hsame]
      exact Nat.le_trans hoffset hsynced
    · rw [← heq]
      exact Nat.le_of_eq hn

/-!
# Writes and the log
-/

/-- A store that holds all of this, and all of it on the disk. -/
def OnDisk (s : Store) (m : Contents) : Prop :=
  s.Serves m ∧ s.dir.disk.synced s.writer.fileId = s.writer.offset

/-- What has just been opened on files that were synced is on the disk. -/
theorem onDisk_opened {dir : Dir} {chart : Chart} {s : Store} {opts : Options}
    (h : Opened dir chart s) (hsettled : dir.disk.Settled)
    (hopen : Store.openWith dir opts = Except.ok s) :
    OnDisk s (recorded chart s.writer.fileId) := by
  refine ⟨⟨h.ok, h.indexes, h.compacting, h.restoring, chart, h.charted, rfl⟩, ?_⟩
  rw [(hsettled.openWith hopen).1, h.ok.writer.written, h.ok.writer.offset, h.pending]
  rfl

/-- A store on which some writes have been made since it held `base`: the chart has
their records. -/
structure Kept (s : Store) (base : Contents) (writes : List (Write Bytes Bytes))
    (chart : Chart) (marks : Nat -> Nat) : Prop where
  ok : s.Ok
  indexes : s.Indexes (replay base writes)
  compacting : s.compacting = false
  restoring : s.restoring = false
  charted : Charted s chart
  paced : Paced base writes ((logged chart s.writer.fileId).map Rec.write) marks

namespace Kept

variable {s s' : Store} {base : Contents} {writes : List (Write Bytes Bytes)}
  {chart : Chart} {marks : Nat -> Nat}

theorem start (h : s.Serves base) :
    exists chart, Kept s base [] chart
      (fun _ => (logged chart s.writer.fileId).length) := by
  rcases h with ⟨hok, hindexes, hcompacting, hrestoring, chart, hcharted, hrecorded⟩
  have hpaced := Paced.start hrecorded
  rw [List.length_map] at hpaced
  exact ⟨chart, hok, hindexes, hcompacting, hrestoring, hcharted, hpaced⟩

theorem serves (h : Kept s base writes chart marks) :
    s.Serves (replay base writes) := by
  refine ⟨h.ok, h.indexes, h.compacting, h.restoring, chart, h.charted, ?_⟩
  have hholds := h.paced.holds writes.length (Nat.le_refl _)
  rw [h.paced.all, List.take_length, List.take_length] at hholds
  exact hholds.symm

/-- What some later store has of what was done. -/
structure Later (s : Store) (base : Contents) (writes : List (Write Bytes Bytes))
    (chart : Chart) (marks : Nat -> Nat) (s' : Store)
    (more : List (Write Bytes Bytes)) (chart' : Chart) (marks' : Nat -> Nat) :
    Prop where
  kept : Kept s' base (writes ++ more) chart' marks'
  newer : s.writer.fileId <= s'.writer.fileId
  grown : Chart.Grown s.writer.fileId chart chart'
  marks : forall n, n <= writes.length -> marks' n = marks n

theorem wrote (h : Kept s base writes chart marks) {r : Rec} (hwrote : s.Wrote r s')
    (hindexes : s'.Indexes (act (replay base writes) r.write)) :
    exists marks', Later s base writes chart marks s' [r.write]
      (chart.extend s'.writer.fileId [r]) marks' := by
  rcases h.charted.wrote h.ok hwrote with ⟨hcharted, hrecorded⟩
  have hrolled := Store.grew_rollIfNeeded h.ok.writer r.bytes.length
  have hid := hwrote.advanced.appended.fileId
  have hnewer : s.writer.fileId <= s'.writer.fileId := by
    rw [hid]
    exact hrolled.newer
  have hlogged : logged chart s'.writer.fileId = logged chart s.writer.fileId :=
    logged_of_empty hnewer (fun _ hgt => h.charted.empty_of_gt h.ok hgt)
  have hreplay : replay base (writes ++ [r.write]) =
      replay empty (((logged chart s.writer.fileId).map Rec.write) ++ [r.write]) := by
    have hholds := h.paced.holds writes.length (Nat.le_refl _)
    rw [h.paced.all, List.take_length, List.take_length] at hholds
    rw [replay_append, replay_append, hholds]
  rcases h.paced.write (show [r.write].length <= 1 from Nat.le_refl 1) hreplay with
    ⟨marks', hsame, hpaced⟩
  refine ⟨marks', ⟨hwrote.ok h.ok, ?_, ?_, ?_, hcharted, ?_⟩, hnewer,
    Chart.Grown.extend hnewer chart [r], hsame⟩
  · rw [replay_append]
    exact hindexes
  · exact hwrote.compacting.trans h.compacting
  · exact hwrote.restoring.trans h.restoring
  · rw [logged_extend, hlogged, List.map_append]
    exact hpaced

theorem idle (h : Kept s base writes chart marks) {w : Write Bytes Bytes}
    (hsame : act (replay base writes) w = replay base writes) :
    exists marks', Later s base writes chart marks s [w] chart marks' := by
  have hafter : replay base (writes ++ [w]) = replay base writes := by
    rw [replay_append]
    exact hsame
  have hholds := h.paced.holds writes.length (Nat.le_refl _)
  rw [h.paced.all, List.take_length, List.take_length] at hholds
  have hmore : ([] : List (Write Bytes Bytes)).length <= 1 := Nat.zero_le 1
  rcases h.paced.write hmore (by rw [hafter, List.append_nil, hholds]) with
    ⟨marks', hmarks, hpaced⟩
  rw [List.append_nil] at hpaced
  exact ⟨marks', ⟨h.ok, hafter ▸ h.indexes, h.compacting, h.restoring, h.charted,
    hpaced⟩, Nat.le_refl _, Chart.Grown.refl _ _, hmarks⟩

theorem nothing (h : Kept s base writes chart marks) :
    Later s base writes chart marks s [] chart marks :=
  ⟨by rw [List.append_nil]; exact h, Nat.le_refl _, Chart.Grown.refl _ _,
    fun _ _ => rfl⟩

theorem putWith (h : Kept s base writes chart marks) {key value : Bytes}
    (hkey : key ≠ []) (hshort : headerLen + key.length + value.length < 2 ^ 32)
    (reach : Reach) (now later : UInt64) :
    exists s' chart' marks', s.putWith key value reach now later = Except.ok s' ∧
      Later s base writes chart marks s' [{ key := key, value := some value }] chart'
        marks' := by
  rcases Store.putWith_spec h.ok h.indexes h.restoring hkey hshort reach now
    later with ⟨s', r, hput, hr, hwrote, hindexes⟩
  rw [← hr] at hindexes ⊢
  rcases h.wrote hwrote hindexes with ⟨marks', hlater⟩
  exact ⟨s', _, marks', hput, hlater⟩

theorem deleteWith (h : Kept s base writes chart marks) (key : Bytes)
    (reach : Reach) (now later : UInt64) :
    exists s' was chart' marks',
      s.deleteWith key reach now later = Except.ok (s', was) ∧
        Later s base writes chart marks s' [{ key := key, value := none }] chart'
          marks' := by
  rcases Store.deleteWith_spec h.ok h.indexes h.restoring key reach now
    later with ⟨s', hdelete, hindexes, ⟨hsame, hnone⟩ | ⟨r, hr, hwrote⟩⟩
  · rw [hsame] at hdelete
    rcases h.idle (w := { key := key, value := none }) (act_eq_self hnone) with
      ⟨marks', hlater⟩
    exact ⟨s, _, chart, marks', hdelete, hlater⟩
  · rw [← hr] at hindexes ⊢
    rcases h.wrote hwrote hindexes with ⟨marks', hlater⟩
    exact ⟨s', _, _, marks', hdelete, hlater⟩

theorem call (h : Kept s base writes chart marks) {c : Call} (hc : Appends c) :
    exists chart' marks',
      Later s base writes chart marks (s.call c).1 c.write.toList chart' marks' := by
  rcases hc with ⟨hplain, hshort⟩
  have hrefused : forall value now later reach,
      s.putWith [] value reach now later =
        Except.error (Error.invalidKey "keys may not be empty") := by
    intro value now later reach
    rw [Store.putWith, if_neg (by simp [h.restoring]), encode_nil]
  cases c with
  | put key value now later =>
      by_cases hkey : key = []
      · subst hkey
        rw [Store.call, Store.put, hrefused]
        exact ⟨chart, marks, h.nothing⟩
      · rcases h.putWith hkey hshort s.reach now later with
          ⟨s', chart', marks', hput, hlater⟩
        have hwrite : (Call.put key value now later).write.toList =
            [{ key := key, value := some value }] := by
          simp [Call.write, hkey]
        rw [Store.call, Store.put, hput, hwrite]
        exact ⟨chart', marks', hlater⟩
  | putDeferred key value now later =>
      by_cases hkey : key = []
      · subst hkey
        rw [Store.call, Store.putDeferred, hrefused]
        exact ⟨chart, marks, h.nothing⟩
      · rcases h.putWith hkey hshort Reach.buffer now later with
          ⟨s', chart', marks', hput, hlater⟩
        have hwrite : (Call.putDeferred key value now later).write.toList =
            [{ key := key, value := some value }] := by
          simp [Call.write, hkey]
        rw [Store.call, Store.putDeferred, hput, hwrite]
        exact ⟨chart', marks', hlater⟩
  | delete key now later =>
      rcases h.deleteWith key s.reach now later with
        ⟨s', was, chart', marks', hdelete, hlater⟩
      rw [Store.call, Store.delete, hdelete]
      exact ⟨chart', marks', hlater⟩
  | deleteDeferred key now later =>
      rcases h.deleteWith key Reach.buffer now later with
        ⟨s', was, chart', marks', hdelete, hlater⟩
      rw [Store.call, Store.deleteDeferred, hdelete]
      exact ⟨chart', marks', hlater⟩
  | sync =>
      have hadvanced := Store.advanced_sync h.ok
      have hid := hadvanced.appended.fileId
      refine ⟨chart, marks, ⟨hadvanced.ok h.ok, ?_, h.compacting, h.restoring,
        h.charted.sync h.ok, ?_⟩, Nat.le_of_eq hid.symm, Chart.Grown.refl _ _,
        fun _ _ => rfl⟩
      · exact (List.append_nil writes).symm ▸
          h.indexes.carried (hadvanced.carries h.ok) rfl
      · show Paced base (writes ++ [])
          ((logged chart s.sync.writer.fileId).map Rec.write) marks
        rw [List.append_nil, hid]
        exact h.paced
  | compact => exact False.elim hplain
  | reopen opts => exact False.elim hplain

theorem Later.trans {s'' : Store} {more rest : List (Write Bytes Bytes)}
    {chart' chart'' : Chart} {marks' marks'' : Nat -> Nat}
    (h : Later s base writes chart marks s' more chart' marks')
    (h' : Later s' base (writes ++ more) chart' marks' s'' rest chart'' marks'') :
    Later s base writes chart marks s'' (more ++ rest) chart'' marks'' where
  kept := by
    rw [← List.append_assoc]
    exact h'.kept
  newer := Nat.le_trans h.newer h'.newer
  grown := h.grown.trans h'.grown h.newer
  marks n hn := by
    have hmore : n <= (writes ++ more).length := by
      rw [List.length_append]
      exact Nat.le_add_right_of_le hn
    rw [h'.marks n hmore, h.marks n hn]

theorem calls (h : Kept s base writes chart marks) {calls : List Call}
    (hcalls : forall c, c ∈ calls -> Appends c) :
    exists chart' marks', Later s base writes chart marks (s.after calls)
      (calls.filterMap Call.write) chart' marks' := by
  induction calls generalizing s writes chart marks with
  | nil => exact ⟨chart, marks, h.nothing⟩
  | cons c calls ih =>
      rcases h.call (hcalls c List.mem_cons_self) with ⟨chart₁, marks₁, hlater⟩
      rcases ih hlater.kept (fun c' hc' => hcalls c' (List.mem_cons_of_mem c hc')) with
        ⟨chart', marks', hlater'⟩
      have hwrites : (c :: calls).filterMap Call.write =
          c.write.toList ++ calls.filterMap Call.write := by
        cases hwrite : c.write with
        | none => exact List.filterMap_cons_none hwrite
        | some w => exact List.filterMap_cons_some hwrite
      rw [hwrites]
      exact ⟨chart', marks', hlater.trans hlater'⟩

/-!
# Syncs
-/

theorem advanced (h : Kept s base writes chart marks) (hadvanced : s.Advanced [] s')
    (hkeydir : s'.keydir = s.keydir) (hhints : s'.activeHints = s.activeHints)
    (hcompacting : s'.compacting = s.compacting)
    (hrestoring : s'.restoring = s.restoring) :
    Kept s' base writes chart marks := by
  have hadvanced' : s.Advanced (Rec.join []) s' := hadvanced
  have hcharted := h.charted.advanced h.ok hadvanced'
    (by rw [hhints, List.append_nil]) (Hint.Describes.nil _)
  rw [Chart.extend_nil] at hcharted
  refine ⟨hadvanced.ok h.ok, h.indexes.carried (hadvanced.carries h.ok) hkeydir,
    hcompacting.trans h.compacting, hrestoring.trans h.restoring, hcharted, ?_⟩
  rw [hadvanced.appended.fileId]
  exact h.paced

theorem syncHandle (h : Kept s base writes chart marks) :
    Kept s.syncHandle.2 base writes chart marks :=
  h.advanced ⟨(LogWriter.appended_flush h.ok.writer).1, rfl⟩ rfl rfl rfl rfl

theorem noteSynced (h : Kept s base writes chart marks) (point : Point) :
    Kept (s.noteSynced point) base writes chart marks := by
  unfold Store.noteSynced
  split
  · refine h.advanced ⟨⟨⟨?_, ?_, ?_⟩, rfl, ?_, Or.inl rfl, Or.inl rfl,
      Dir.SameBut.refl _ _⟩, rfl⟩ rfl rfl rfl rfl
    · exact h.ok.writer.linked
    · exact h.ok.writer.written
    · exact h.ok.writer.offset
    · exact (List.append_nil _).symm
  · exact h

/-- What the kernel has of a file is whole records. -/
theorem contents_whole (h : Kept s base writes chart marks) (id : FileId) :
    exists rs, rs <+: chart id ∧ s.dir.disk.contents id = Rec.join rs := by
  by_cases hin : id ∈ s.dir.disk.data
  · by_cases heq : id = s.writer.fileId
    · rw [heq]
      exact h.charted.flushed
    · exact ⟨chart id, List.prefix_refl _, (h.charted.sealed id hin heq).1⟩
  · refine ⟨[], List.nil_prefix, ?_⟩
    rw [Disk.contents, AList.lookup_eq_none.mpr hin]
    rfl

theorem syncUpTo (h : Kept s base writes chart marks) {id : FileId} {extent : Nat}
    (hextent : exists rs, rs <+: chart id ∧ (Rec.join rs).length = extent) :
    Kept { s with dir := s.dir.syncUpTo id extent } base writes chart marks := by
  have hcontents := Dir.contents_syncUpTo s.dir id extent
  have hsynced := Dir.synced_syncUpTo s.dir id extent
  have hmem := Dir.mem_syncUpTo s.dir id extent
  have hframe : Dir.SameBut id s.dir (s.dir.syncUpTo id extent) :=
    Dir.modify_sameBut s.dir id (fun file => Nat.le_max_left _ _)
  have hwriter := (Store.grew_syncUpTo h.ok.writer id extent).ok
  have hsame : forall other,
      Store.contents { s with dir := s.dir.syncUpTo id extent } other =
        s.contents other := by
    intro other
    unfold Store.contents LogWriter.contents
    dsimp only
    rw [hcontents, hcontents]
  have hsealed : forall other, other ∈ s.dir.disk.data -> other ≠ s.writer.fileId ->
      (s.dir.syncUpTo id extent).disk.synced other = s.dir.disk.synced other := by
    intro other hin hne
    rcases h.charted.sealed other hin hne with ⟨hbytes, hall⟩
    rw [hsynced]
    split
    · next heq =>
        subst heq
        rw [hbytes, hall]
        omega
    · rfl
  refine ⟨⟨hwriter, h.ok.active, ?_, ?_⟩, h.indexes.carried ?_ rfl, h.compacting,
    h.restoring, ⟨?_, ?_, ?_, ?_, ?_, ?_, ?_, ?_, h.charted.activeHints⟩, h.paced⟩
  · exact fun other hin => (hmem other).mpr (h.ok.linked other hin)
  · exact fun other hin => h.ok.newest other ((hmem other).mp hin)
  · intro loc r hholds
    refine ⟨?_, hholds.len, hholds.readable, hholds.whole⟩
    rw [hsame]
    exact hholds.located
  · exact fun other hnot =>
      h.charted.absent other (fun hin => hnot ((hmem other).mpr hin))
  · exact fun other hin => h.charted.known other ((hmem other).mp hin)
  · intro other hin
    have hin : other ∈ (s.dir.syncUpTo id extent).disk.hints := hin
    rw [hframe.hints] at hin
    exact (hmem other).mpr (h.charted.hinted other hin)
  · intro other hin hne
    have hin := (hmem other).mp hin
    show (s.dir.syncUpTo id extent).disk.contents other = _ ∧
      (s.dir.syncUpTo id extent).disk.synced other = _
    rw [hcontents, hsealed other hin hne]
    exact h.charted.sealed other hin hne
  · show (s.dir.syncUpTo id extent).disk.contents s.writer.fileId ++ _ = _
    rw [hcontents]
    exact h.charted.contents
  · show exists rs, rs <+: chart s.writer.fileId ∧
      (s.dir.syncUpTo id extent).disk.contents s.writer.fileId = Rec.join rs
    rw [hcontents]
    exact h.charted.flushed
  · show exists rs, rs <+: chart s.writer.fileId ∧
      (s.dir.syncUpTo id extent).disk.synced s.writer.fileId = (Rec.join rs).length
    rw [hsynced]
    by_cases heq : s.writer.fileId = id
    · rw [if_pos heq, ← heq]
      rcases h.charted.flushed with ⟨flushed, hflushed, hbytes⟩
      rcases h.charted.synced with ⟨safe, hsafe, hsafely⟩
      rcases hextent with ⟨rs, hrs, hlength⟩
      rw [← heq] at hrs
      rw [hbytes, hsafely, ← hlength]
      rcases Nat.le_total (Rec.join rs).length (Rec.join flushed).length with hle | hle
      · rw [Nat.min_eq_left hle]
        rcases Nat.le_total (Rec.join safe).length (Rec.join rs).length with hle' | hle'
        · exact ⟨rs, hrs, Nat.max_eq_right hle'⟩
        · exact ⟨safe, hsafe, Nat.max_eq_left hle'⟩
      · rw [Nat.min_eq_right hle]
        rcases Nat.le_total (Rec.join safe).length (Rec.join flushed).length with
          hle' | hle'
        · exact ⟨flushed, hflushed, Nat.max_eq_right hle'⟩
        · exact ⟨safe, hsafe, Nat.max_eq_left hle'⟩
    · rw [if_neg heq]
      exact h.charted.synced
  · intro other bytes hlookup
    have hlookup : (s.dir.syncUpTo id extent).disk.hints.lookup other = some bytes :=
      hlookup
    rw [hframe.hints] at hlookup
    refine (h.charted.hints other bytes hlookup).mono (List.prefix_refl _) ?_
    show _ <= (s.dir.syncUpTo id extent).disk.synced other
    rw [hsynced]
    split
    · next heq =>
        rw [heq]
        exact Nat.le_max_left _ _
    · exact Nat.le_refl _

/-!
# A power cut
-/

/-- A store opens on what a cut leaves, and holds what some of the writes made, all of
those among them whose records were on the disk. -/
theorem reopen (h : Kept s base writes chart marks)
    (hbase : Secured s chart (marks 0)) {disk : Disk}
    (hcut : Disk.Cut s.writer.fileId s.dir.disk disk) (opts : Options) :
    exists s' k, Store.openWith { disk := disk } opts = Except.ok s' ∧
      OnDisk s' (replay base (writes.take k)) ∧
      forall n, n <= writes.length -> Secured s chart (marks n) -> n <= k := by
  rcases h.charted.cut h.ok hcut with ⟨kept, tail, hkept, hall, hopenable⟩
  have hdir : Openable ({ disk := disk } : Dir).disk
      (Function.update chart s.writer.fileId kept) tail :=
    hopenable
  rcases openWith_opened hdir opts with ⟨s', hopen, hopened, hid⟩
  have hactive : s'.writer.fileId = s.writer.fileId := by
    rw [hid, listDataFiles_congr (hcut.mem_iff h.ok.writer.linked),
      getLast_of_newest h.ok.writer.linked h.ok.newest]
    rfl
  have hmost : forall n, Secured s chart n ->
      n <= ((List.range s.writer.fileId).flatMap chart).length + kept.length := by
    rintro n ⟨rs, hrs, hsynced, hn⟩
    have := (hall rs hrs hsynced).length_le
    omega
  have hlog : logged (Function.update chart s.writer.fileId kept) s'.writer.fileId =
      (logged chart s.writer.fileId).take
        (((List.range s.writer.fileId).flatMap chart).length + kept.length) := by
    have hbelow : (List.range s.writer.fileId).flatMap
        (Function.update chart s.writer.fileId kept) =
          (List.range s.writer.fileId).flatMap chart := by
      apply List.flatMap_congr
      intro id hrange
      exact Function.update_of_ne (Nat.ne_of_lt (List.mem_range.mp hrange)) ..
    rw [hactive, logged_eq, logged_eq, hbelow, Function.update_self, List.take_append,
      List.take_of_length_le (Nat.le_add_right _ _), Nat.add_sub_cancel_left,
      ← List.prefix_iff_eq_take.mp hkept]
  have hlength : ((List.range s.writer.fileId).flatMap chart).length + kept.length <=
      ((logged chart s.writer.fileId).map Rec.write).length := by
    have := hkept.length_le
    rw [List.length_map, logged_eq, List.length_append]
    omega
  rcases h.paced.cut (hmost _ hbase) hlength with ⟨k, _, hreplay, hall'⟩
  have hondisk := onDisk_opened hopened (h.charted.settled_cut hcut) hopen
  rw [recorded, hlog, List.map_take, ← hreplay] at hondisk
  exact ⟨s', k, hopen, hondisk, fun n hn hsecured => hall' n hn (hmost _ hsecured)⟩

end Kept

end Server
end Minicask
