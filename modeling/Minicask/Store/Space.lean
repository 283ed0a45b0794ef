import Minicask.Store.BackedHistories
import Minicask.Totals

/-!
# Space

A store counts how many bytes its files hold and how many of them are live.  Both
counts are adjusted as records come and go, and stay what a count afresh would give.
-/

namespace Minicask

open Totals

def Location.weigh (_ : Bytes) (loc : Location) : Nat :=
  loc.len.toNat

def File.weigh (_ : FileId) (file : File) : Nat :=
  file.bytes.length

def File.weighIn (ids : List FileId) (id : FileId) (file : File) : Nat :=
  if id ∈ ids then file.bytes.length else 0

def Location.weighOut (ids : List FileId) (_ : Bytes) (loc : Location) : Nat :=
  if loc.fileId ∈ ids then 0 else loc.len.toNat

namespace Store

/-- What the records take up that the index points at. -/
def liveLength (s : Store) : Nat :=
  total Location.weigh s.keydir

/-- How long the data files are, with what is buffered for the active one. -/
def dataLength (s : Store) : Nat :=
  total File.weigh s.dir.disk.data + s.writer.pending.length

end Store

/-- An index that `openWith` is rebuilding: nothing yet, one entry more, or the next
file. -/
inductive Opening.Reached : Opening -> Prop where
  | new (dir : Dir) : Reached { dir := dir }
  | entry {o : Opening} (h : Reached o) (id : FileId) (e : HintEntry) :
      Reached (indexEntry id o e)
  | file {o : Opening} (h : Reached o) (dir : Dir) (hints : List HintEntry) :
      Reached { o with dir := dir, activeHints := hints }

/-- Everything that can happen to an open store, and the work it has out, while every
record is short enough and no restore is given a key twice. -/
inductive Used : Store -> Out -> Prop where
  | opened {disk : Disk} (h : History Fits (Life.down disk)) {opts : Options}
      {s : Store} (hopen : Store.openWith { disk := disk } opts = Except.ok s) :
      Used s Out.idle
  | reopened {s s' : Store} {out : Out} (h : Used s out) {opts : Options}
      (hopen : Store.openWith { disk := s.close.disk } opts = Except.ok s') :
      Used s' Out.idle
  | shuffled {s : Store} {out : Out} (h : Used s out) {order : List FileId}
      (horder : Lists order s.readers) : Used { s with readers := order } out
  | call {s : Store} {out : Out} (h : Used s out) {c : Call} (hplain : c.Plain)
      (hputs : c.Puts Fits) : Used (s.call c).1 out
  | compact {s s' : Store} (h : Used s Out.idle)
      (hcompact : s.compact = Except.ok s') : Used s' Out.idle
  | beginCompaction {s s' : Store} (h : Used s Out.idle) {job : CompactionJob}
      (hbegin : s.beginCompaction = Except.ok (job, s')) :
      Used s' (Out.merging job)
  | runCompaction {s : Store} {job : CompactionJob}
      (h : Used s (Out.merging job)) {merged : MergedFile} {dir : Dir}
      (hrun : job.run s.dir = Except.ok (merged, dir)) :
      Used { s with dir := dir } (Out.merged merged)
  | finishCompaction {s : Store} {merged : MergedFile}
      (h : Used s (Out.merged merged)) :
      Used (s.finishCompaction merged) Out.idle
  | abandonCompaction {s : Store} {job : CompactionJob}
      (h : Used s (Out.merging job)) : Used s.abandonCompaction Out.idle
  | beginRestore {s s' : Store} (h : Used s Out.idle) {job : RestoreJob}
      (hbegin : s.beginRestore = Except.ok (job, s')) :
      Used s' (Out.restoring job)
  | push {s : Store} {job job' : RestoreJob} (h : Used s (Out.restoring job))
      {key value : Bytes} (hfits : Fits key value)
      (hfresh : key ∉ job.index.map Prod.fst)
      (hpush : job.push key value = Except.ok job') :
      Used s (Out.restoring job')
  | finish {s : Store} {job : RestoreJob} (h : Used s (Out.restoring job)) :
      Used { s with dir := (job.finish s.dir).2 }
        (Out.restored (job.finish s.dir).1)
  | finishRestore {s : Store} {restored : RestoredFile}
      (h : Used s (Out.restored restored)) :
      Used (s.finishRestore restored) Out.idle
  | abandonRestore {s : Store} {job : RestoreJob}
      (h : Used s (Out.restoring job)) :
      Used { s.abandonRestore with dir := job.drop s.dir } Out.idle

theorem Used.history {s : Store} {out : Out} (h : Used s out) :
    History Fits (Life.up s out) := by
  induction h with
  | opened h hopen => exact History.opened h hopen
  | reopened _ hopen ih =>
      exact History.opened (History.stopped ih List.mem_cons_self) hopen
  | shuffled _ horder ih => exact History.shuffled ih horder
  | call _ hplain hputs ih => exact History.call ih hplain hputs
  | compact _ hcompact ih => exact History.compact ih hcompact
  | beginCompaction _ hbegin ih => exact History.beginCompaction ih hbegin
  | runCompaction _ hrun ih => exact History.runCompaction ih hrun
  | finishCompaction _ ih => exact History.finishCompaction ih
  | abandonCompaction _ ih => exact History.abandonCompaction ih
  | beginRestore _ hbegin ih => exact History.beginRestore ih hbegin
  | push _ hfits _ hpush ih => exact History.push ih hfits hpush
  | finish _ ih => exact History.finish ih
  | finishRestore _ ih => exact History.finishRestore ih
  | abandonRestore _ ih => exact History.abandonRestore ih

theorem Used.alive {s : Store} {out : Out} (h : Used s out) : Alive s out :=
  History.sound h.history

/-!
# Opening
-/

theorem Store.liveLen_eq (s : Store) (key : Bytes) :
    s.liveLen key = weight Location.weigh s.keydir key := by
  unfold liveLen weight
  cases s.keydir.lookup key with
  | none => rfl
  | some loc => rfl

theorem Opening.liveLen_eq (o : Opening) (key : Bytes) :
    o.liveLen key = weight Location.weigh o.keydir key := by
  unfold liveLen weight
  cases o.keydir.lookup key with
  | none => rfl
  | some loc => rfl

/-- The counts of an index that is being rebuilt. -/
structure Opening.Counted (o : Opening) : Prop where
  live : o.liveBytes = total Location.weigh o.keydir
  within : o.liveBytes <= o.diskBytes

theorem Opening.Counted.entry {o : Opening} (h : o.Counted) (id : FileId)
    (e : HintEntry) : (indexEntry id o e).Counted := by
  have hlive := h.live
  have hwithin := h.within
  have hweight : o.liveLen e.key <= o.liveBytes := by
    rw [hlive, Opening.liveLen_eq]
    exact weight_le_total e.key
  have hbytes := liveBytes_indexEntry id o e
  have hdisk := diskBytes_indexEntry id o e
  constructor
  · rw [hbytes, keydir_indexEntry]
    split
    · have herase := total_erase (w := Location.weigh) (d := o.keydir) e.key
      rw [← Opening.liveLen_eq] at herase
      omega
    · have hinsert := total_insert (w := Location.weigh) (d := o.keydir) e.key
        { fileId := id, offset := e.offset, len := e.len, tstamp := e.tstamp }
      rw [← Opening.liveLen_eq] at hinsert
      have hlen : Location.weigh e.key { fileId := id, offset := e.offset, len := e.len, tstamp := e.tstamp } = e.len.toNat := rfl
      omega
  · rw [hbytes, hdisk]
    split <;> omega

theorem Opening.Reached.counted {o : Opening} (h : o.Reached) : o.Counted := by
  induction h with
  | new dir => exact ⟨rfl, Nat.le_refl _⟩
  | entry _ id e ih => exact ih.entry id e
  | file _ dir hints ih => exact ⟨ih.live, ih.within⟩

/-- The loop over the files only ever adds an entry or goes on to the next file. -/
theorem Opening.Reached.openLoop {opts : Options} {newest : Option FileId}
    {ids : List FileId} {o o' : Opening} (h : o.Reached)
    (hloop : openLoop opts newest ids o = Except.ok o') : o'.Reached := by
  induction ids generalizing o with
  | nil =>
      cases hloop
      exact h
  | cons id ids ih =>
      rw [Minicask.openLoop] at hloop
      dsimp only at hloop
      split at hloop
      · cases hloop
      · rename_i es dir hread
        have hindexed : forall (es : List HintEntry) (o : Opening), o.Reached ->
            (es.foldl (indexEntry id) o).Reached := by
          intro es
          induction es with
          | nil => exact fun _ ho => ho
          | cons e es ihes => exact fun o ho => ihes _ (ho.entry id e)
        have hnext := hindexed es _ (h.file dir o.activeHints)
        refine ih ?_ hloop
        split
        · exact hnext.file _ es
        · exact hnext

theorem Hint.Describes.sum_len {start : Nat} {es : List HintEntry}
    {rs : List Rec} (h : Hint.Describes start es rs) :
    (es.map (fun e => e.len.toNat)).sum = (Rec.join rs).length := by
  induction h with
  | nil start => rfl
  | @cons start e r es rs _ _ hlen _ _ ih =>
      rw [List.map_cons, List.sum_cons, hlen, r.toNat_length_bytes, ih]
      simp

theorem diskBytes_index (id : FileId) (es : List HintEntry) (o : Opening) :
    (es.foldl (indexEntry id) o).diskBytes =
      o.diskBytes + (es.map (fun e => e.len.toNat)).sum := by
  induction es generalizing o with
  | nil => rfl
  | cons e es ih =>
      rw [List.foldl_cons, ih, diskBytes_indexEntry, List.map_cons,
        List.sum_cons, Nat.add_assoc]

theorem openLoop_diskBytes {opts : Options} {newest : Option FileId}
    {ids : List FileId} (hnodup : ids.Nodup) {kept : Chart}
    {tails : FileId -> Bytes} {o o' : Opening}
    (h : forall id, id ∈ ids -> o.dir.disk.Readable id (kept id) (tails id))
    (hloop : openLoop opts newest ids o = Except.ok o') :
    o'.diskBytes = o.diskBytes +
      (ids.map (fun id => (Rec.join (kept id)).length)).sum := by
  induction ids generalizing o with
  | nil =>
      cases hloop
      rfl
  | cons id ids ih =>
      rw [List.nodup_cons] at hnodup
      rw [openLoop] at hloop
      dsimp only at hloop
      rcases (h id List.mem_cons_self).readEntries opts (newest == some id) with
        ⟨_, _, e, hread⟩ | ⟨_, es, dir, hread, hes, hafter⟩
      · rw [hread] at hloop
        cases hloop
      · rw [hread] at hloop
        dsimp only at hloop
        generalize hnext : (if newest == some id then _ else _ : Opening) =
          next at hloop
        have hdir : next.dir = dir := by
          rw [← hnext]
          split
          · exact (dir_index id es { o with dir := dir }).1
          · exact (dir_index id es { o with dir := dir }).1
        have hbytes : next.diskBytes =
            o.diskBytes + (Rec.join (kept id)).length := by
          rw [← hes.sum_len, ← hnext]
          split
          · exact diskBytes_index id es { o with dir := dir }
          · exact diskBytes_index id es { o with dir := dir }
        have hrest : forall other, other ∈ ids ->
            next.dir.disk.Readable other (kept other) (tails other) := by
          intro other hin
          have hne : other ≠ id := fun heq => hnodup.1 (heq ▸ hin)
          have hsame := hafter.lookup_of_ne hne
          rw [hdir]
          exact (h other (List.mem_cons_of_mem id hin)).congr hsame.1 hsame.2
        rw [ih hnodup.2 hrest hloop, hbytes, List.map_cons, List.sum_cons,
          Nat.add_assoc]

theorem weight_file (disk : Disk) (id : FileId) :
    weight File.weigh disk.data id = (disk.contents id).length := by
  unfold weight Disk.contents
  cases disk.data.lookup id with
  | none => rfl
  | some file => rfl

theorem weight_weighIn (ids : List FileId) (disk : Disk) (id : FileId) :
    weight (File.weighIn ids) disk.data id =
      if id ∈ ids then (disk.contents id).length else 0 := by
  unfold weight Disk.contents
  cases disk.data.lookup id with
  | none => simp
  | some file => rfl

theorem total_create (dir : Dir) (id : FileId) :
    total File.weigh (dir.create id).disk.data =
      total File.weigh dir.disk.data := by
  refine total_congr (fun other => ?_)
  rw [weight_file, weight_file, Disk.contents, Disk.contents,
    Dir.lookup_create]
  split
  · rename_i heq
    rw [heq]
    rfl
  · rfl

/-- The counts are those of a count afresh. -/
structure Store.Counted (s : Store) : Prop where
  live : s.liveBytes = s.liveLength
  disk : s.diskBytes = s.dataLength
  within : s.liveBytes <= s.diskBytes

/-- However a store opens, its counts are right. -/
theorem counted_openWith {dir : Dir} {chart : Chart} (h : dir.SoundAs chart)
    {opts : Options} {s : Store}
    (hopen : Store.openWith dir opts = Except.ok s) : s.Counted := by
  have hdata := (removeLeftovers_spec dir).1
  have hcleared := h.removeLeftovers dir.disk.listDataFiles
  have hnodup := dir.disk.nodup_listDataFiles
  unfold Store.openWith at hopen
  dsimp only at hopen
  generalize removeLeftovers dir dir.disk.listDataFiles = cleared at *
  rcases hcleared.now.split with ⟨kept, tails, hsplit⟩
  have hids : forall id, id ∈ dir.disk.listDataFiles ↔
      id ∈ cleared.disk.data := by
    intro id
    rw [mem_listDataFiles, hdata]
  have hreadable : forall id, id ∈ dir.disk.listDataFiles ->
      cleared.disk.Readable id (kept id) (tails id) :=
    fun id hin => (hsplit id).readable hcleared.now ((hids id).mp hin)
  split at hopen
  · cases hopen
  · rename_i o hloop
    cases hopen
    have hread := openLoop_read hnodup hreadable (Points.empty kept) hloop
    have hbytes := openLoop_diskBytes hnodup hreadable hloop
    have hcounted := ((Opening.Reached.new cleared).openLoop hloop).counted
    refine ⟨hcounted.live, ?_, hcounted.within⟩
    show o.diskBytes = total File.weigh (o.dir.create _).disk.data + 0
    rw [hbytes, total_create, total_eq_sum dir.disk.listDataFiles.toFinset,
      List.sum_toFinset _ hnodup, Nat.zero_add, Nat.add_zero]
    · refine congrArg List.sum (List.map_congr_left ?_)
      intro id hin
      rw [weight_file, (hread.files id hin).1]
    · intro id hin
      exact List.mem_toFinset.mpr
        ((hids id).mpr ((hread.same.mem id).mp hin))

/-!
# While the store is open
-/

/-- What lies in files that are in place but not installed yet. -/
def Out.beside : Out -> Nat
  | Out.merged file => file.bytes
  | Out.restored file => file.bytes
  | _ => 0

/-- The files that a merge replaces are as long as it took them to be, and what is
live elsewhere was written since. -/
structure Aside (s : Store) (oldIds : List FileId) (oldBytes : Nat) : Prop where
  old : total (File.weighIn oldIds) s.dir.disk.data = oldBytes
  fresh : total (Location.weighOut oldIds) s.keydir + oldBytes <= s.diskBytes

/-- What the index of a restore weighs. -/
structure Notes (index : List (Bytes × Location)) (bytes : Nat) : Prop where
  nodup : (index.map Prod.fst).Nodup
  sum : (index.map (fun entry => entry.2.len.toNat)).sum = bytes

def Out.Counted (s : Store) : Out -> Prop
  | Out.idle => True
  | Out.merging job => Aside s job.oldIds job.oldBytes
  | Out.merged file =>
      Aside s file.oldIds file.oldBytes ∧
        (file.moved.map (fun move => move.2.1.len.toNat)).sum = file.bytes ∧
        forall move, move ∈ file.moved -> move.2.2.len = move.2.1.len
  | Out.restoring job =>
      Bare s job.oldIds none ∧ Notes job.index job.offset
  | Out.restored file =>
      Bare s file.oldIds (some file.id) ∧ Notes file.index file.bytes ∧
        (s.dir.disk.contents file.id).length = file.bytes

/-- The counts, while some work may be out. -/
structure Counts (s : Store) (out : Out) : Prop where
  live : s.liveBytes = s.liveLength
  disk : s.diskBytes + out.beside = s.dataLength
  within : s.liveBytes <= s.diskBytes
  out : out.Counted s

/-!
# Appending

A record adds its length to the bytes on disk.  What its key took up before is live no
longer.
-/

theorem dataLength_appended {s s' : Store} {bytes : Bytes}
    (h : LogWriter.Appended s.writer s.dir bytes s'.writer s'.dir) :
    s'.dataLength = s.dataLength + bytes.length := by
  have hdiffer : total File.weigh s'.dir.disk.data +
      weight File.weigh s.dir.disk.data s.writer.fileId =
        total File.weigh s.dir.disk.data +
          weight File.weigh s'.dir.disk.data s.writer.fileId :=
    total_differ s.writer.fileId
      (fun id hne => weight_congr (h.frame.lookup id hne))
  have hlength := congrArg List.length h.contents
  unfold LogWriter.contents at hlength
  rw [h.fileId] at hlength
  simp only [List.length_append] at hlength
  rw [weight_file, weight_file] at hdiffer
  unfold Store.dataLength
  omega

theorem dataLength_sync {s : Store} (hok : s.writer.Ok s.dir) :
    s.sync.dataLength = s.dataLength := by
  have happended : s.sync.dataLength = s.dataLength + ([] : Bytes).length :=
    dataLength_appended (LogWriter.appended_sync hok).1
  exact happended

theorem dataLength_sealInto {s : Store} (hok : s.writer.Ok s.dir)
    (nextId : FileId) : (s.sealInto nextId).dataLength = s.dataLength := by
  have hpending := (LogWriter.appended_sync hok).2
  rw [← dataLength_sync hok]
  show total File.weigh (Dir.create _ nextId).disk.data + 0 =
    total File.weigh s.sync.dir.disk.data + (s.writer.sync s.dir).1.pending.length
  rw [total_create, hpending]
  rfl

theorem dataLength_rollIfNeeded {s : Store} (hok : s.writer.Ok s.dir)
    (incoming : Nat) : (s.rollIfNeeded incoming).dataLength = s.dataLength := by
  unfold Store.rollIfNeeded
  split
  · rfl
  · exact dataLength_sealInto hok _

theorem Store.counts_rollIfNeeded (s : Store) (incoming : Nat) :
    (s.rollIfNeeded incoming).keydir = s.keydir ∧
      (s.rollIfNeeded incoming).diskBytes = s.diskBytes ∧
      (s.rollIfNeeded incoming).liveBytes = s.liveBytes := by
  unfold Store.rollIfNeeded
  split
  · exact ⟨rfl, rfl, rfl⟩
  · exact ⟨rfl, rfl, rfl⟩

theorem Store.Wrote.dataLength {s s' : Store} {r : Rec} (hok : s.Ok)
    (h : s.Wrote r s') : s'.dataLength = s.dataLength + r.bytes.length := by
  rw [dataLength_appended h.advanced.appended,
    dataLength_rollIfNeeded hok.writer]

theorem landed_length {s : Store} (hok : s.Ok) {r : Rec} {bytes : Bytes}
    {reach : Reach} {landed : Nat × UInt32} {writer : LogWriter} {dir : Dir}
    (hencode : encode r.key r.value r.tstamp = Except.ok bytes)
    (happend : (landed, writer, dir) =
      (s.rollIfNeeded bytes.length).writer.append
        (s.rollIfNeeded bytes.length).dir bytes reach) :
    r.bytes = bytes ∧ landed.2.toNat = r.bytes.length := by
  obtain rfl : r.bytes = bytes := by
    rw [encode_rec r] at hencode
    exact Except.ok.inj hencode
  have hlanded := (LogWriter.appended_append
    (Store.rolled hok r.bytes.length).1.writer r.bytes reach).1
  rw [← happend] at hlanded
  refine ⟨rfl, ?_⟩
  rw [congrArg Prod.snd hlanded]
  exact r.toNat_length_bytes

/-- What a put does to the counts. -/
theorem putWith_counts {s s' : Store} (hok : s.Ok) (r : Rec) {value : Bytes}
    (hvalue : r.value = some value) {reach : Reach} {later : UInt64}
    (hput : s.putWith r.key value reach r.tstamp later = Except.ok s') :
    s'.diskBytes = s.diskBytes + r.bytes.length ∧
      s'.liveBytes = s.liveBytes - s.liveLen r.key + r.bytes.length ∧
      exists loc : Location, s'.keydir = s.keydir.insert r.key loc ∧
        loc.fileId = s'.writer.fileId ∧ loc.len.toNat = r.bytes.length := by
  rcases Store.putWith_eq_ok hput with
    ⟨_, bytes, _, landed, writer, dir, hencode, rfl, happend, rfl⟩
  rcases landed_length hok (hvalue ▸ hencode) happend with ⟨rfl, hlen⟩
  rcases s.counts_rollIfNeeded r.bytes.length with ⟨hkeydir, hdisk, hlive⟩
  rw [hlen, hdisk, hlive, Store.liveLen_eq, hkeydir, ← Store.liveLen_eq]
  exact ⟨rfl, rfl, _, rfl, rfl, hlen⟩

theorem deleteWith_counts {s s' : Store} (hok : s.Ok) (r : Rec)
    (hvalue : r.value = none) (hlive : s.containsKey r.key = true)
    {reach : Reach} {later : UInt64} {was : Bool}
    (hdelete : s.deleteWith r.key reach r.tstamp later =
      Except.ok (s', was)) :
    s'.diskBytes = s.diskBytes + r.bytes.length ∧
      s'.liveBytes = s.liveBytes - s.liveLen r.key ∧
      s'.keydir = s.keydir.erase r.key := by
  rcases Store.deleteWith_eq_ok hdelete with
    ⟨_, hwas, ⟨habsent, _⟩ |
      ⟨_, bytes, _, landed, writer, dir, hencode, rfl, happend, rfl⟩⟩
  · rw [hlive, habsent] at hwas
    cases hwas
  · rcases landed_length hok (hvalue ▸ hencode) happend with ⟨rfl, hlen⟩
    rcases s.counts_rollIfNeeded r.bytes.length with ⟨hkeydir, hdisk, hbytes⟩
    rw [hlen, hdisk, hbytes, Store.liveLen_eq, hkeydir, ← Store.liveLen_eq]
    exact ⟨rfl, rfl, rfl⟩

namespace Counts

theorem wrote {s s' : Store} {out : Out} (h : Counts s out)
    (halive : Alive s out) (hwritable : s.restoring = false)
    (hlater : s.Later s') (hlive : s'.liveBytes = s'.liveLength)
    (hdisk : s'.diskBytes + s.dataLength = s'.dataLength + s.diskBytes)
    (hwithin : s'.liveBytes <= s'.diskBytes)
    (hfresh : forall ids, s'.writer.fileId ∉ ids ->
      total (Location.weighOut ids) s'.keydir + s.diskBytes <=
        total (Location.weighOut ids) s.keydir + s'.diskBytes) :
    Counts s' out := by
  have hout := h.out
  have haside : forall slot oldIds oldBytes, s.Reserved slot oldIds ->
      Aside s oldIds oldBytes -> Aside s' oldIds oldBytes := by
    intro slot oldIds oldBytes hslot haside
    have hnew := hfresh oldIds (hslot.later hlater).active_notMem
    refine ⟨?_, ?_⟩
    · rw [← haside.old]
      refine total_congr (fun id => ?_)
      by_cases hid : id ∈ oldIds
      · exact weight_congr (hlater.files id
          (Nat.lt_trans (hslot.old id hid) hslot.below))
      · rw [weight_weighIn, weight_weighIn, if_neg hid, if_neg hid]
    · have := haside.fresh
      omega
  refine ⟨hlive, ?_, hwithin, ?_⟩
  · have := h.disk
    omega
  · cases out with
    | idle => trivial
    | merging job =>
        rcases halive.out with ⟨_, _, hjob, _⟩
        exact haside _ _ job.oldBytes hjob.slot hout
    | merged merged =>
        rcases halive.out with ⟨_, _, hmerged⟩
        exact ⟨haside _ _ merged.oldBytes hmerged.slot hout.1, hout.2⟩
    | restoring job =>
        rw [halive.out.2.1] at hwritable
        cases hwritable
    | restored restored =>
        rw [halive.out.2.1] at hwritable
        cases hwritable

theorem putWith {s s' : Store} {out : Out} (h : Counts s out)
    (halive : Alive s out) {key value : Bytes} (hshort : Fits key value)
    {reach : Reach} {now later : UInt64}
    (hput : s.putWith key value reach now later = Except.ok s') :
    Counts s' out := by
  rcases Store.wrote_of_putWith halive.ok hshort hput with
    ⟨r, rfl, hvalue, rfl, hwritable, hwrote, _⟩
  rcases putWith_counts halive.ok r hvalue hput with
    ⟨hdisk, hlive, loc, hkeydir, hfileId, hlen⟩
  have hdata := hwrote.dataLength halive.ok
  have hweight : s.liveLen r.key <= s.liveBytes := by
    rw [h.live, Store.liveLen_eq]
    exact weight_le_total r.key
  have hwithin := h.within
  refine h.wrote halive hwritable (hwrote.later halive.ok) ?_ (by omega)
    (by omega) ?_
  · have hinsert := total_insert (w := Location.weigh) (d := s.keydir) r.key loc
    have hloc : Location.weigh r.key loc = r.bytes.length := hlen
    rw [← Store.liveLen_eq, ← hkeydir] at hinsert
    have hbefore : s.liveBytes = total Location.weigh s.keydir := h.live
    unfold Store.liveLength
    omega
  · intro ids hnot
    have hinsert := total_insert (w := Location.weighOut ids) (d := s.keydir)
      r.key loc
    rw [← hkeydir] at hinsert
    have hloc : Location.weighOut ids r.key loc = r.bytes.length := by
      rw [← hfileId] at hnot
      exact (if_neg hnot).trans hlen
    omega

theorem deleteWith {s s' : Store} {out : Out} (h : Counts s out)
    (halive : Alive s out) {key : Bytes} {reach : Reach} {now later : UInt64}
    {was : Bool}
    (hdelete : s.deleteWith key reach now later = Except.ok (s', was)) :
    Counts s' out := by
  rcases halive.indexes with ⟨m, hindexes⟩
  rcases Store.wrote_of_deleteWith halive.ok hindexes hdelete with
    hsame | ⟨r, rfl, hvalue, rfl, hwritable, hlive, hwrote, _⟩
  · rw [hsame]
    exact h
  · rcases deleteWith_counts halive.ok r hvalue hlive hdelete with
      ⟨hdisk, hbytes, hkeydir⟩
    have hdata := hwrote.dataLength halive.ok
    have hwithin := h.within
    refine h.wrote halive hwritable (hwrote.later halive.ok) ?_ (by omega)
      (by omega) ?_
    · have herase := total_erase (w := Location.weigh) (d := s.keydir) r.key
      rw [← Store.liveLen_eq, ← hkeydir] at herase
      have hbefore : s.liveBytes = total Location.weigh s.keydir := h.live
      unfold Store.liveLength
      omega
    · intro ids _
      have herase := total_erase (w := Location.weighOut ids) (d := s.keydir)
        r.key
      rw [← hkeydir] at herase
      omega

theorem sync {s : Store} {out : Out} (h : Counts s out)
    (halive : Alive s out) : Counts s.sync out := by
  have hok := halive.ok
  have hdata := dataLength_sync hok.writer
  have hlater := Store.later_sync hok
  have hidle : s.restoring = false -> Counts s.sync out := by
    intro hwritable
    refine h.wrote halive hwritable hlater h.live ?_ h.within
      (fun ids _ => Nat.le_refl _)
    rw [hdata, Nat.add_comm]
    rfl
  have hdisk : s.sync.diskBytes + out.beside = s.sync.dataLength :=
    h.disk.trans hdata.symm
  cases out with
  | idle => exact hidle halive.out.2.1
  | merging job => exact hidle halive.out.1
  | merged merged => exact hidle halive.out.1
  | restoring job =>
      exact ⟨h.live, hdisk, h.within, Bare.sync hok h.out.1, h.out.2⟩
  | restored restored =>
      rcases h.out with ⟨hbare, hnotes, hlength⟩
      refine ⟨h.live, hdisk, h.within, hbare.sync hok, hnotes, ?_⟩
      have hslot := halive.out.2.2.2.1
      have happended := (LogWriter.appended_sync hok.writer).1
      rw [← hlength]
      exact congrArg List.length
        (happended.frame.contents (Nat.ne_of_lt hslot.below))

theorem call {s : Store} {out : Out} (h : Counts s out)
    (halive : Alive s out) {c : Call} (hplain : c.Plain)
    (hputs : c.Puts Fits) : Counts (s.call c).1 out := by
  cases c with
  | put key value now later =>
      rw [Store.call, Store.put]
      cases hput : s.putWith key value s.reach now later with
      | error e => exact h
      | ok s' => exact h.putWith halive hputs hput
  | putDeferred key value now later =>
      rw [Store.call, Store.putDeferred]
      cases hput : s.putWith key value Reach.buffer now later with
      | error e => exact h
      | ok s' => exact h.putWith halive hputs hput
  | delete key now later =>
      rw [Store.call, Store.delete]
      cases hdelete : s.deleteWith key s.reach now later with
      | error e => exact h
      | ok deleted => exact h.deleteWith halive hdelete
  | deleteDeferred key now later =>
      rw [Store.call, Store.deleteDeferred]
      cases hdelete : s.deleteWith key Reach.buffer now later with
      | error e => exact h
      | ok deleted => exact h.deleteWith halive hdelete
  | sync => exact h.sync halive
  | compact => exact absurd hplain id
  | reopen opts => exact absurd hplain id

end Counts

/-!
# Compacting
-/

theorem LogWriter.offset_flush (w : LogWriter) (dir : Dir) :
    (w.flush dir).1.offset = w.offset := by
  unfold LogWriter.flush
  split <;> rfl

theorem LogWriter.offset_append (w : LogWriter) (dir : Dir) (bytes : Bytes)
    (reach : Reach) :
    (w.append dir bytes reach).2.1.offset = w.offset + bytes.length := by
  unfold LogWriter.append
  split
  · split <;> rfl
  · cases reach with
    | buffer =>
        dsimp only
        split
        · rfl
        · exact LogWriter.offset_flush _ _
    | kernel => exact LogWriter.offset_flush _ _
    | disk => exact LogWriter.offset_flush _ _

theorem LogWriter.landed_append (w : LogWriter) (dir : Dir) (bytes : Bytes)
    (reach : Reach) :
    (w.append dir bytes reach).1 =
      (w.offset, UInt32.ofNat bytes.length) := by
  unfold LogWriter.append
  split
  · split <;> rfl
  · cases reach with
    | buffer =>
        dsimp only
        split <;> rfl
    | kernel => rfl
    | disk => rfl

/-- What a merge weighs. -/
structure Merge.Counted (m : Merge) : Prop where
  live : m.bytes = total Location.weigh m.keydir
  offset : m.writer.offset = m.bytes

theorem Merge.Counted.loop {readers : List FileId} {ps : List (Bytes × Location)}
    (hnodup : (ps.map Prod.fst).Nodup) {m mg : Merge} (h : m.Counted)
    (hfresh : forall p, p ∈ ps -> m.keydir.lookup p.1 = none)
    (hloop : mergeLoop readers ps m = Except.ok mg) : mg.Counted := by
  induction ps generalizing m with
  | nil =>
      cases hloop
      exact h
  | cons p ps ih =>
      rw [List.map_cons, List.nodup_cons] at hnodup
      rw [mergeLoop] at hloop
      split at hloop
      · cases hloop
      · rename_i bytes hread
        have hlength := length_readRecord hread
        have hlen : (UInt32.ofNat bytes.length).toNat = bytes.length := by
          rw [hlength]
          simp
        have hlanded := m.writer.landed_append m.dir bytes Reach.buffer
        have hoffset := m.writer.offset_append m.dir bytes Reach.buffer
        simp only [hlanded] at hloop
        refine ih hnodup.2 ⟨?_, ?_⟩ ?_ hloop
        · have hinsert := total_insert (w := Location.weigh) (d := m.keydir) p.1
            { fileId := (m.writer.append m.dir bytes Reach.buffer).2.1.fileId
              offset := m.writer.offset
              len := UInt32.ofNat bytes.length
              tstamp := p.2.tstamp }
          rw [weight_of_none (hfresh p List.mem_cons_self)] at hinsert
          have hlive := h.live
          show m.bytes + (UInt32.ofNat bytes.length).toNat = _
          rw [hlive]
          exact hinsert.symm
        · show (m.writer.append m.dir bytes Reach.buffer).2.1.offset =
            m.bytes + (UInt32.ofNat bytes.length).toNat
          rw [hoffset, h.offset, hlen]
        · intro p' hp'
          have hne : p'.1 ≠ p.1 := by
            intro heq
            exact hnodup.1 (heq ▸ List.mem_map_of_mem hp')
          exact (AList.lookup_insert_ne hne).trans
            (hfresh p' (List.mem_cons_of_mem p hp'))

theorem dataLength_of_single {s : Store} (hok : s.writer.Ok s.dir)
    (h : forall id, id ∈ s.dir.disk.data -> id = s.writer.fileId) :
    s.dataLength = s.writer.offset := by
  unfold Store.dataLength
  rw [total_eq_sum {s.writer.fileId}
    (fun id hid => Finset.mem_singleton.mpr (h id hid)),
    Finset.sum_singleton, weight_file, hok.written, ← hok.offset]

theorem Counts.compact {s s' : Store} (halive : Alive s Out.idle)
    (hcompact : s.compact = Except.ok s') : Counts s' Out.idle := by
  have halive' := halive.compact hcompact
  have hknown := halive'.out.2.2
  have hmax := maxId_readers halive.ok
  have hflushed := Store.advanced_flushed halive.ok
  unfold Store.compact at hcompact
  rw [if_neg (by simp [halive.out.1, halive.out.2.1])] at hcompact
  dsimp only at hcompact
  split at hcompact
  · cases hcompact
  · rename_i mg hloop
    have hstart : Merge.Counted
        { writer := (LogWriter.openFile (s.writer.flush s.dir).2
            (maxId s.readers + 1)).1
          dir := (LogWriter.openFile (s.writer.flush s.dir).2
            (maxId s.readers + 1)).2
          keydir := ∅
          hints := []
          bytes := 0 } := by
      refine ⟨rfl, LogWriter.offset_openFile ?_⟩
      intro hin
      have hle := (hflushed.ok halive.ok).newest _ hin
      rw [hflushed.appended.fileId, hmax] at hle
      exact Nat.not_succ_le_self _ hle
    have hmerged := hstart.loop (nodup_inFileOrder s.keydir)
      (fun p _ => AList.lookup_empty p.1) hloop
    have hs := (Except.ok.inj hcompact).symm
    have hsingle : forall id, id ∈ s'.dir.disk.data ->
        id = s'.writer.fileId := by
      intro id hid
      have hactive := halive'.ok.active
      have hreader := hknown id hid (by simp)
      rw [hs] at hactive hreader ⊢
      rw [List.mem_singleton.mp hreader, List.mem_singleton.mp hactive]
    have hdata := dataLength_of_single halive'.ok.writer hsingle
    refine ⟨?_, ?_, ?_, trivial⟩
    · rw [hs]
      exact hmerged.live
    · rw [hdata, hs]
      show mg.bytes = (mg.writer.sync mg.dir).1.offset
      rw [← hmerged.offset]
      exact (LogWriter.offset_flush _ _).symm
    · rw [hs]

/-!
# Work on the side

A merge or a restore that is out has a file of its own, which is counted when it is
installed.
-/

theorem sealed_counts {s : Store} (halive : Alive s Out.idle)
    (h : Counts s Out.idle) :
    (s.sealInto (s.writer.fileId + 2)).diskBytes =
      (s.sealInto (s.writer.fileId + 2)).dataLength := by
  rw [dataLength_sealInto halive.ok.writer]
  exact h.disk

theorem aside_sealed {s : Store} (halive : Alive s Out.idle)
    (h : Counts s Out.idle) :
    Aside (s.sealInto (s.writer.fileId + 2)) s.readers
      (s.sealInto (s.writer.fileId + 2)).diskBytes := by
  have hdisk := sealed_counts halive h
  have hbare := halive.bare
  rcases halive.indexes with ⟨m, hindexes⟩
  have hok : (s.sealInto (s.writer.fileId + 2)).Ok :=
    Store.ok_sealInto halive.ok (Nat.lt_add_of_pos_right Nat.two_pos)
  have hempty := hok.writer.offset
  rw [hbare.empty] at hempty
  have hbeside : forall id, id ∉ s.readers ->
      ((s.sealInto (s.writer.fileId + 2)).dir.disk.contents id).length = 0 := by
    intro id hnot
    by_cases hin : id ∈ (s.sealInto (s.writer.fileId + 2)).dir.disk.data
    · by_cases hid : id = (s.sealInto (s.writer.fileId + 2)).writer.fileId
      · rw [hid, hok.writer.written]
        omega
      · exact absurd (hbare.old id hin hid (by simp)) hnot
    · rw [Disk.contents, AList.lookup_eq_none.mpr hin]
      rfl
  constructor
  · rw [hdisk]
    have hweights : total (File.weighIn s.readers)
        (s.sealInto (s.writer.fileId + 2)).dir.disk.data =
          total File.weigh
            (s.sealInto (s.writer.fileId + 2)).dir.disk.data := by
      refine total_congr (fun id => ?_)
      rw [weight_weighIn, weight_file]
      by_cases hid : id ∈ s.readers
      · rw [if_pos hid]
      · rw [if_neg hid, hbeside id hid]
    exact hweights
  · have hnone : total (Location.weighOut s.readers) s.keydir <=
        (([] : List (Bytes × Location)).map
          (fun p => Location.weighOut s.readers p.1 p.2)).sum := by
      apply total_le_sum
      intro k loc hlookup hne
      rcases hindexes.held k loc hlookup with ⟨r, _, _, hholds⟩
      exact absurd (if_pos hholds.readable) hne
    have hzero : total (Location.weighOut s.readers) s.keydir = 0 :=
      Nat.le_zero.mp hnone
    show total (Location.weighOut s.readers) s.keydir + _ <= _
    rw [hzero, Nat.zero_add]

theorem Counts.beginCompaction {s s' : Store} (halive : Alive s Out.idle)
    (h : Counts s Out.idle) {job : CompactionJob}
    (hbegin : s.beginCompaction = Except.ok (job, s')) :
    Counts s' (Out.merging job) := by
  have hdisk := sealed_counts halive h
  have haside := aside_sealed halive h
  unfold Store.beginCompaction at hbegin
  rw [if_neg (by simp [halive.out.1, halive.out.2.1])] at hbegin
  cases hbegin
  exact ⟨h.live, hdisk, h.within, haside.old, haside.fresh⟩

/-- A merge that is under way: how much has been copied, and of what. -/
structure Copies.Counted (c : Copies) : Prop where
  file : c.file.length = c.offset
  sum : (c.moved.map (fun move => move.2.1.len.toNat)).sum = c.offset
  same : forall move, move ∈ c.moved -> move.2.2.len = move.2.1.len

theorem Copies.Counted.copyRecord {readers : List FileId} {dir : Dir}
    {mergedId : FileId} {c c' : Copies} (h : c.Counted)
    {entry : Bytes × Location}
    (hcopy : Minicask.copyRecord readers dir mergedId c entry =
      Except.ok c') : c'.Counted := by
  unfold Minicask.copyRecord at hcopy
  dsimp only at hcopy
  rcases Fallible.bind_eq_ok hcopy with ⟨bytes, hread, hcopy⟩
  rcases Fallible.bind_eq_ok hcopy with ⟨_, _, hcopy⟩
  cases hcopy
  refine ⟨?_, ?_, ?_⟩
  · rw [List.length_append, h.file, length_readRecord hread]
  · rw [List.map_append, List.sum_append, h.sum]
    simp
  · intro move hmove
    rcases List.mem_append.mp hmove with hold | hnew
    · exact h.same move hold
    · rw [List.mem_singleton.mp hnew]

theorem Copies.Counted.loop {readers : List FileId} {dir : Dir}
    {mergedId : FileId} {entries : List (Bytes × Location)} {c c' : Copies}
    (h : c.Counted)
    (hloop : entries.foldlM (Minicask.copyRecord readers dir mergedId) c =
      Except.ok c') : c'.Counted := by
  apply Fallible.foldlM_keeps _ h hloop
  intro entry _ c next hc hcopy
  exact hc.copyRecord hcopy

theorem dataLength_placed {s : Store} {slot : FileId} {bytes : Bytes}
    {dir : Dir} (h : s.dir.Placed slot bytes dir)
    (hslot : slot ∉ s.dir.disk.data) :
    Store.dataLength { s with dir := dir } = s.dataLength + bytes.length := by
  have hdiffer : total File.weigh dir.disk.data +
      weight File.weigh s.dir.disk.data slot =
        total File.weigh s.dir.disk.data +
          weight File.weigh dir.disk.data slot :=
    total_differ slot (fun id hne => weight_congr (h.lookup id hne))
  rcases h.placed with ⟨file, hbytes, hlookup⟩
  have hplaced : weight File.weigh dir.disk.data slot = bytes.length := by
    rw [weight_of_lookup hlookup, ← hbytes]
    rfl
  rw [weight_of_none (AList.lookup_eq_none.mpr hslot), hplaced] at hdiffer
  show total File.weigh dir.disk.data + s.writer.pending.length =
    total File.weigh s.dir.disk.data + s.writer.pending.length + bytes.length
  omega

theorem Aside.placed {s : Store} {oldIds : List FileId} {oldBytes : Nat}
    (h : Aside s oldIds oldBytes) {slot : FileId} {bytes : Bytes} {dir : Dir}
    (hplaced : s.dir.Placed slot bytes dir) (hslot : slot ∉ oldIds) :
    Aside { s with dir := dir } oldIds oldBytes := by
  refine ⟨?_, h.fresh⟩
  rw [← h.old]
  refine total_congr (fun id => ?_)
  by_cases hid : id ∈ oldIds
  · exact weight_congr (hplaced.lookup id (fun heq => hslot (heq ▸ hid)))
  · rw [weight_weighIn, weight_weighIn, if_neg hid, if_neg hid]

theorem Counts.runCompaction {s : Store} {job : CompactionJob}
    (halive : Alive s (Out.merging job)) (h : Counts s (Out.merging job))
    {merged : MergedFile} {dir : Dir}
    (hrun : job.run s.dir = Except.ok (merged, dir)) :
    Counts { s with dir := dir } (Out.merged merged) := by
  rcases halive.out with ⟨_, _, hjob, hslot⟩
  unfold CompactionJob.run at hrun
  dsimp only at hrun
  rcases Fallible.bind_eq_ok hrun with ⟨c, hloop, hrun⟩
  cases hrun
  have hcopies : c.Counted := by
    refine Copies.Counted.loop ⟨rfl, rfl, ?_⟩ hloop
    exact fun _ hmove => absurd hmove List.not_mem_nil
  have hrenamed := Dir.placed_renamePart
    (s.dir.writePart job.mergedId []) job.mergedId c.file c.offset c.hints
  have hplaced : s.dir.Placed job.mergedId c.file _ :=
    ⟨hrenamed.placed, hrenamed.lookup, hrenamed.unlinked⟩
  refine ⟨h.live, ?_, h.within, ?_, hcopies.sum, hcopies.same⟩
  · rw [dataLength_placed hplaced hslot, hcopies.file]
    exact congrArg (fun n => n + c.offset) h.disk
  · exact Aside.placed h.out hplaced hjob.slot.notMem

theorem total_repoint {moved : List (Bytes × Location × Location)}
    (hsame : forall move, move ∈ moved -> move.2.2.len = move.2.1.len)
    (keydir : Keydir) :
    total Location.weigh (moved.foldl repoint keydir) =
      total Location.weigh keydir := by
  induction moved generalizing keydir with
  | nil => rfl
  | cons move moved ih =>
      rw [List.foldl_cons,
        ih (fun other hin => hsame other (List.mem_cons_of_mem move hin))]
      unfold repoint
      split
      · rename_i hlookup
        have hinsert := total_insert (w := Location.weigh) (d := keydir)
          move.1 move.2.2
        rw [weight_of_lookup hlookup] at hinsert
        have hlen : Location.weigh move.1 move.2.2 =
            Location.weigh move.1 move.2.1 :=
          congrArg UInt32.toNat (hsame move List.mem_cons_self)
        omega
      · rfl

theorem total_removeFiles (dir : Dir) (ids : List FileId) :
    total File.weigh (removeFiles dir ids).disk.data +
        total (File.weighIn ids) dir.disk.data =
      total File.weigh dir.disk.data := by
  have hleft : total File.weigh (removeFiles dir ids).disk.data =
      total (fun id file => if id ∈ ids then 0 else File.weigh id file)
        dir.disk.data := by
    refine total_congr (fun id => ?_)
    have hlookup := ((removeFiles_spec ids dir).2 id).1
    by_cases hid : id ∈ ids
    · rw [if_pos hid] at hlookup
      rw [weight_of_none hlookup]
      unfold weight
      cases dir.disk.data.lookup id with
      | none => rfl
      | some file => exact (if_pos hid).symm
    · rw [if_neg hid] at hlookup
      rw [weight_congr hlookup]
      unfold weight
      cases dir.disk.data.lookup id with
      | none => rfl
      | some file => exact (if_neg hid).symm
  rw [hleft, ← total_add]
  refine total_congr (fun id => ?_)
  unfold weight
  cases dir.disk.data.lookup id with
  | none => rfl
  | some file =>
      show (if id ∈ ids then 0 else File.weigh id file) +
        (if id ∈ ids then file.bytes.length else 0) = file.bytes.length
      split
      · exact Nat.zero_add _
      · exact Nat.add_zero _

/-- What is live in the files that go has been copied. -/
theorem liveLength_le {s : Store} {merged : MergedFile}
    (hcovered : forall k loc, s.keydir.lookup k = some loc ->
      loc.fileId ∈ merged.oldIds -> exists new, (k, loc, new) ∈ merged.moved) :
    s.liveLength <=
      (merged.moved.map (fun move => move.2.1.len.toNat)).sum +
        total (Location.weighOut merged.oldIds) s.keydir := by
  have hsplit : s.liveLength =
      total (fun key loc => if loc.fileId ∈ merged.oldIds
        then Location.weigh key loc else 0) s.keydir +
      total (Location.weighOut merged.oldIds) s.keydir := by
    rw [← total_add]
    refine total_congr (fun key => ?_)
    unfold weight
    cases s.keydir.lookup key with
    | none => rfl
    | some loc =>
        show loc.len.toNat = (if loc.fileId ∈ merged.oldIds
          then loc.len.toNat else 0) +
            (if loc.fileId ∈ merged.oldIds then 0 else loc.len.toNat)
        split
        · exact (Nat.add_zero _).symm
        · exact (Nat.zero_add _).symm
  have hcopied : total (fun key loc => if loc.fileId ∈ merged.oldIds
      then Location.weigh key loc else 0) s.keydir <=
        ((merged.moved.map (fun move => (move.1, move.2.1))).map
          (fun p => if p.2.fileId ∈ merged.oldIds
            then Location.weigh p.1 p.2 else 0)).sum := by
    apply total_le_sum
    intro key loc hlookup hne
    have hold : loc.fileId ∈ merged.oldIds := by
      by_contra hnot
      exact hne (if_neg hnot)
    rcases hcovered key loc hlookup hold with ⟨new, hmove⟩
    exact List.mem_map.mpr ⟨_, hmove, rfl⟩
  have hweights : ((merged.moved.map (fun move => (move.1, move.2.1))).map
      (fun p => if p.2.fileId ∈ merged.oldIds
        then Location.weigh p.1 p.2 else 0)).sum <=
          (merged.moved.map (fun move => move.2.1.len.toNat)).sum := by
    rw [List.map_map]
    refine List.sum_le_sum (fun move _ => ?_)
    dsimp only [Function.comp]
    split
    · exact Nat.le_refl _
    · exact Nat.zero_le _
  omega

theorem Counts.finishCompaction {s : Store} {merged : MergedFile}
    (halive : Alive s (Out.merged merged))
    (h : Counts s (Out.merged merged)) :
    Counts (s.finishCompaction merged) Out.idle := by
  rcases h.out with ⟨haside, hsum, hsame⟩
  rcases halive.out with ⟨_, _, hmerged⟩
  have hlive : s.liveBytes = total Location.weigh s.keydir := h.live
  have hcopied := liveLength_le hmerged.covered
  have hleft := total_removeFiles s.dir merged.oldIds
  have hdisk : s.diskBytes + merged.bytes =
      total File.weigh s.dir.disk.data + s.writer.pending.length := h.disk
  have hfresh := haside.fresh
  rw [haside.old] at hleft
  refine ⟨?_, ?_, ?_, trivial⟩
  · show s.liveBytes = total Location.weigh (merged.moved.foldl repoint s.keydir)
    rw [total_repoint hsame, hlive]
  · show s.diskBytes - merged.oldBytes + merged.bytes + 0 =
      total File.weigh (removeFiles s.dir merged.oldIds).disk.data +
        s.writer.pending.length
    omega
  · show s.liveBytes <= s.diskBytes - merged.oldBytes + merged.bytes
    rw [hsum] at hcopied
    rw [h.live]
    omega

theorem Counts.abandonCompaction {s : Store} {job : CompactionJob}
    (h : Counts s (Out.merging job)) : Counts s.abandonCompaction Out.idle :=
  ⟨h.live, h.disk, h.within, trivial⟩

/-!
# Replacing everything
-/

theorem Counts.beginRestore {s s' : Store} (halive : Alive s Out.idle)
    (h : Counts s Out.idle) {job : RestoreJob}
    (hbegin : s.beginRestore = Except.ok (job, s')) :
    Counts s' (Out.restoring job) := by
  have hdisk := sealed_counts halive h
  have hbare := halive.bare
  unfold Store.beginRestore at hbegin
  rw [if_neg (by simp [halive.out.1, halive.out.2.1])] at hbegin
  cases hbegin
  exact ⟨h.live, hdisk, h.within, ⟨hbare.empty, hbare.old⟩, List.nodup_nil, rfl⟩

theorem Counts.push {s : Store} {job job' : RestoreJob}
    (h : Counts s (Out.restoring job)) {key value : Bytes}
    (hfits : Fits key value) (hfresh : key ∉ job.index.map Prod.fst)
    (hpush : job.push key value = Except.ok job') :
    Counts s (Out.restoring job') := by
  rcases h.out with ⟨hbare, hnotes⟩
  rcases RestoreJob.push_eq_ok hfits hpush with ⟨_, _, _, _, rfl⟩
  refine ⟨h.live, h.disk, h.within, ⟨hbare.empty, hbare.old⟩, ?_, ?_⟩
  · show ((job.index ++ _).map Prod.fst).Nodup
    rw [List.map_append]
    refine List.Nodup.append hnotes.nodup (List.nodup_singleton _) ?_
    intro k hin hnew
    have heq : k = key := List.mem_singleton.mp hnew
    exact hfresh (heq ▸ hin)
  · show ((job.index ++ _).map _).sum = job.offset + _
    rw [List.map_append, List.sum_append, hnotes.sum]
    simp

theorem Counts.finish {s : Store} {job : RestoreJob}
    (halive : Alive s (Out.restoring job)) (h : Counts s (Out.restoring job)) :
    Counts { s with dir := (job.finish s.dir).2 }
      (Out.restored (job.finish s.dir).1) := by
  rcases h.out with ⟨hbare, hnotes⟩
  rcases halive.out with ⟨_, _, _, hslot, hout, rs, hof, _, _⟩
  have hplaced : s.dir.Placed job.id job.file (job.finish s.dir).2 :=
    Dir.placed_renamePart s.dir job.id job.file job.offset job.hints
  refine ⟨h.live, ?_, h.within, ⟨hbare.empty, ?_⟩, hnotes, ?_⟩
  · rw [dataLength_placed hplaced hout, ← hof.offset]
    exact congrArg (fun n => n + job.offset) h.disk
  · intro id hin hne hbeside
    have hother : id ≠ job.id := fun heq => hbeside (congrArg some heq.symm)
    have hlookup := hplaced.lookup id hother
    refine hbare.old id ?_ hne (by simp)
    rw [← AList.lookup_isSome] at hin ⊢
    rw [← hlookup]
    exact hin
  · rcases hplaced.placed with ⟨file, hbytes, hlookup⟩
    show ((job.finish s.dir).2.disk.contents job.id).length = job.offset
    rw [Disk.contents, hlookup, hof.offset, ← hbytes]
    rfl

theorem total_insertAll {index : List (Bytes × Location)}
    (hnodup : (index.map Prod.fst).Nodup) {keydir : Keydir}
    (hfresh : forall entry, entry ∈ index -> keydir.lookup entry.1 = none) :
    total Location.weigh (insertAll keydir index) =
      total Location.weigh keydir +
        (index.map (fun entry => entry.2.len.toNat)).sum := by
  induction index generalizing keydir with
  | nil => rfl
  | cons entry index ih =>
      rw [List.map_cons, List.nodup_cons] at hnodup
      have hinsert := total_insert (w := Location.weigh) (d := keydir) entry.1
        entry.2
      rw [weight_of_none (hfresh entry List.mem_cons_self), Nat.add_zero]
        at hinsert
      have hrest : forall other, other ∈ index ->
          (keydir.insert entry.1 entry.2).lookup other.1 = none := by
        intro other hin
        have hne : other.1 ≠ entry.1 := by
          intro heq
          exact hnodup.1 (heq ▸ List.mem_map_of_mem hin)
        exact (AList.lookup_insert_ne hne).trans
          (hfresh other (List.mem_cons_of_mem entry hin))
      have htail := ih hnodup.2 hrest
      rw [List.map_cons, List.sum_cons]
      show total Location.weigh
        (insertAll (keydir.insert entry.1 entry.2) index) = _
      rw [htail, hinsert, Location.weigh]
      omega

theorem Counts.finishRestore {s : Store} {restored : RestoredFile}
    (halive : Alive s (Out.restored restored))
    (h : Counts s (Out.restored restored)) :
    Counts (s.finishRestore restored) Out.idle := by
  rcases h.out with ⟨hbare, hnotes, hlength⟩
  rcases halive.out with ⟨_, _, _, hslot, hlinked, _⟩
  have hwriter := halive.ok.writer
  have hlive : (s.finishRestore restored).liveLength = restored.bytes := by
    show total Location.weigh (insertAll ∅ restored.index) = _
    rw [total_insertAll hnotes.nodup (fun entry _ => AList.lookup_empty entry.1),
      hnotes.sum]
    exact Nat.zero_add _
  have hremoved := (removeFiles_spec restored.oldIds s.dir).2
  have hcover : forall id,
      id ∈ (removeFiles s.dir restored.oldIds).disk.data ->
        id ∈ ({restored.id, s.writer.fileId} : Finset FileId) := by
    intro id hin
    have hlookup := (hremoved id).1
    rw [← AList.lookup_isSome, hlookup] at hin
    split at hin
    · cases hin
    · rename_i hnot
      rw [AList.lookup_isSome] at hin
      rw [Finset.mem_insert, Finset.mem_singleton]
      by_contra hneither
      rw [not_or] at hneither
      refine hnot (hbare.old id hin hneither.2 ?_)
      intro heq
      exact hneither.1 (Option.some.inj heq).symm
  have hkept : forall id, id ∉ restored.oldIds ->
      weight File.weigh (removeFiles s.dir restored.oldIds).disk.data id =
        (s.dir.disk.contents id).length := by
    intro id hnot
    have hlookup := (hremoved id).1
    rw [if_neg hnot] at hlookup
    rw [weight_congr hlookup, weight_file]
  have hdata : (s.finishRestore restored).dataLength =
      restored.bytes + s.writer.offset := by
    show total File.weigh (removeFiles s.dir restored.oldIds).disk.data +
      s.writer.pending.length = _
    rw [total_eq_sum _ hcover,
      Finset.sum_pair (Nat.ne_of_lt hslot.below), hkept _ hslot.notMem,
      hkept _ hslot.active_notMem, hlength, hwriter.written]
    have hoffset := hwriter.offset
    omega
  refine ⟨hlive.symm, ?_, Nat.le_add_right _ _, trivial⟩
  rw [hdata]
  rfl

theorem Counts.abandonRestore {s : Store} {job : RestoreJob}
    (h : Counts s (Out.restoring job)) :
    Counts { s.abandonRestore with dir := job.drop s.dir } Out.idle :=
  ⟨h.live, h.disk, h.within, trivial⟩

/-!
# Every run
-/

theorem Store.Counted.counts {s : Store} (h : s.Counted) :
    Counts s Out.idle :=
  ⟨h.live, h.disk, h.within, trivial⟩

theorem Counts.opened {disk : Disk} (h : disk.Sound) {opts : Options}
    {s : Store}
    (hopen : Store.openWith { disk := disk } opts = Except.ok s) :
    Counts s Out.idle := by
  rcases h with ⟨chart, hchart⟩
  exact (counted_openWith hchart.dir hopen).counts

theorem Counts.shuffled {s : Store} {out : Out} (h : Counts s out)
    (order : List FileId) : Counts { s with readers := order } out := by
  refine ⟨h.live, h.disk, h.within, ?_⟩
  have hout := h.out
  cases out with
  | idle => trivial
  | merging job => exact ⟨hout.old, hout.fresh⟩
  | merged merged => exact ⟨⟨hout.1.old, hout.1.fresh⟩, hout.2⟩
  | restoring job => exact ⟨⟨hout.1.empty, hout.1.old⟩, hout.2⟩
  | restored restored => exact ⟨⟨hout.1.empty, hout.1.old⟩, hout.2⟩

/-- The counts are right in every state of every run. -/
theorem Used.counts {s : Store} {out : Out} (h : Used s out) :
    Counts s out := by
  induction h with
  | opened h hopen =>
      have hsound : Disk.Sound _ := History.sound h
      exact Counts.opened hsound hopen
  | reopened h hopen _ =>
      have hstopped := h.history.stopped List.mem_cons_self
      have hsound : Disk.Sound _ := History.sound hstopped
      exact Counts.opened hsound hopen
  | shuffled _ _ ih => exact ih.shuffled _
  | call h hplain hputs ih => exact ih.call h.alive hplain hputs
  | compact h hcompact _ => exact Counts.compact h.alive hcompact
  | beginCompaction h hbegin ih => exact ih.beginCompaction h.alive hbegin
  | runCompaction h hrun ih => exact ih.runCompaction h.alive hrun
  | finishCompaction h ih => exact ih.finishCompaction h.alive
  | abandonCompaction _ ih => exact ih.abandonCompaction
  | beginRestore h hbegin ih => exact ih.beginRestore h.alive hbegin
  | push _ hfits hfresh hpush ih => exact ih.push hfits hfresh hpush
  | finish h ih => exact ih.finish h.alive
  | finishRestore h ih => exact ih.finishRestore h.alive
  | abandonRestore _ ih => exact ih.abandonRestore

theorem Counts.liveLen_le {s : Store} {out : Out} (h : Counts s out)
    (key : Bytes) : s.liveLen key <= s.liveBytes := by
  rw [h.live, Store.liveLen_eq]
  exact weight_le_total key

theorem Opening.Counted.liveLen_le {o : Opening} (h : o.Counted)
    (key : Bytes) : o.liveLen key <= o.liveBytes := by
  rw [h.live, Opening.liveLen_eq]
  exact weight_le_total key

theorem Counts.oldBytes_le {s : Store} {merged : MergedFile}
    (h : Counts s (Out.merged merged)) : merged.oldBytes <= s.diskBytes :=
  Nat.le_trans (Nat.le_add_left _ _) h.out.1.fresh

theorem Alive.len {s : Store} {out : Out} (h : Alive s out) {key : Bytes}
    {loc : Location} (hlookup : s.keydir.lookup key = some loc) :
    exists r : Rec, r.key = key ∧ s.Holds loc r ∧
      loc.len.toNat = r.bytes.length := by
  rcases h.indexes with ⟨m, hindexes⟩
  rcases hindexes.held key loc hlookup with ⟨r, hkey, _, hholds⟩
  refine ⟨r, hkey, hholds, ?_⟩
  rw [hholds.len, r.toNat_length_bytes]

/-- The live bytes are what the indexed records take up, the bytes on disk are
what the files hold, and nothing that is subtracted is more than there is. -/
theorem space_is_exact :
    (forall (s : Store) (out : Out), Used s out ->
      (forall key, s.liveLen key <= s.liveBytes) ∧
        (forall merged, out = Out.merged merged ->
          merged.oldBytes <= s.diskBytes) ∧
        (forall key loc, s.keydir.lookup key = some loc ->
          exists r : Rec, r.key = key ∧ s.Holds loc r ∧
            loc.len.toNat = r.bytes.length) ∧
        (out = Out.idle ->
          s.liveBytes = s.liveLength ∧ s.diskBytes = s.dataLength ∧
            s.liveBytes <= s.diskBytes)) ∧
      forall o : Opening, o.Reached ->
        forall key, o.liveLen key <= o.liveBytes := by
  constructor
  · intro s out h
    have hcounts := h.counts
    refine ⟨hcounts.liveLen_le, ?_, fun _ _ => h.alive.len, ?_⟩
    · rintro merged rfl
      exact hcounts.oldBytes_le
    · rintro rfl
      exact ⟨hcounts.live, hcounts.disk, hcounts.within⟩
  · intro o h
    exact h.counted.liveLen_le

/-- A key is put again while a merge that copies it is out. -/
theorem space_is_exact_merge :
    exists (s : Store) (merged : MergedFile), Used s (Out.merged merged) ∧
      merged.oldBytes <= s.diskBytes ∧
      (s.finishCompaction merged).liveLength = 24 ∧
      (s.finishCompaction merged).diskBytes =
        (s.finishCompaction merged).dataLength := by
  have hput := (Used.opened History.new (openWith_nothing {})).call
    (c := Call.put [97] [1] 5 6) trivial
    (show Fits [97] [1] by unfold Fits; decide)
  have hmerging := (hput.beginCompaction rfl).call
    (c := Call.put [97] [2, 3] 7 8) trivial
    (show Fits [97] [2, 3] by unfold Fits; decide)
  rcases hmerging.alive.out.2.2.1.run with ⟨merged, dir, _, hrun, _⟩
  have hmerged := hmerging.runCompaction hrun
  have hfinished := hmerged.finishCompaction
  have hspace := (space_is_exact.1 _ _ hfinished).2.2.2 rfl
  refine ⟨_, merged, hmerged,
    (space_is_exact.1 _ _ hmerged).2.1 merged rfl, ?_, hspace.2.1⟩
  rw [← hspace.1]
  rfl

/-- A restore that is given a key twice counts both of its records as live. -/
theorem restore_counts_repeated_key :
    exists (job once twice : RestoreJob) (s : Store),
      Store.openWith {} {} = Except.ok (newStore {}) ∧
        (newStore {}).beginRestore = Except.ok (job, s) ∧
        job.push [7] [1] = Except.ok once ∧
        once.push [7] [2] = Except.ok twice ∧
        (Store.finishRestore { s with dir := (twice.finish s.dir).2 }
          (twice.finish s.dir).1).liveBytes = 46 ∧
        (Store.finishRestore { s with dir := (twice.finish s.dir).2 }
          (twice.finish s.dir).1).liveLength = 23 := by
  refine ⟨_, _, _, _, openWith_nothing {}, rfl, rfl, rfl, ?_, ?_⟩
  · decide +kernel
  · decide +kernel

end Minicask
