import Minicask.Store.BackedHistories

/-!
# Stopped at any point of a restore

Whatever state the files are in while records are appended and files are placed and
removed, every file but the newest is whole records, all of them synced.  So a
process that is killed there leaves files that open.
-/

namespace Minicask

open Replay

/-- Every file but the newest is whole records, and all of it is synced. -/
def Disk.Sealed (disk : Disk) : Prop :=
  forall id other, id ∈ disk.data -> other ∈ disk.data -> id < other ->
    (exists rs, disk.contents id = Rec.join rs) ∧
      disk.synced id = (disk.contents id).length

/-- Files that can be opened, beside some applied index. -/
structure Disk.Ready (applied : Option Bytes) (disk : Disk) : Prop where
  sealed : disk.Sealed
  appliedIndex : disk.appliedIndex = applied

/-- What a kill leaves of the files: a write may have got only part of the way, and
a hint may not have been written yet.  Files that were never put in place are not
looked at. -/
structure Disk.Killed (disk disk' : Disk) : Prop where
  kept : forall id, exists n, disk.synced id <= n ∧
    disk'.contents id = (disk.contents id).take n
  linked : forall id, id ∈ disk'.data ↔ id ∈ disk.data
  synced : forall id, disk'.synced id = disk.synced id
  hints : forall id bytes, disk'.hints.lookup id = some bytes ->
    disk.hints.lookup id = some bytes
  appliedIndex : disk'.appliedIndex = disk.appliedIndex

namespace Disk.Killed

theorem sound {disk disk' : Disk} (h : disk.Killed disk')
    (hsound : disk.Sound) : disk'.Sound :=
  hsound.taken h.kept (fun id => Or.inl (h.synced id)) h.hints

theorem whole {disk disk' : Disk} (h : disk.Killed disk') {id : FileId}
    (hsynced : disk.synced id = (disk.contents id).length) :
    disk'.contents id = disk.contents id := by
  rcases h.kept id with ⟨n, hle, htake⟩
  rw [htake, List.take_of_length_le]
  rw [← hsynced]
  exact hle

theorem sealed {disk disk' : Disk} (h : disk.Killed disk')
    (hsealed : disk.Sealed) : disk'.Sealed := by
  intro id other hid hother hless
  rcases hsealed id other ((h.linked id).mp hid) ((h.linked other).mp hother)
    hless with ⟨hrs, hsynced⟩
  rw [h.whole hsynced, h.synced]
  exact ⟨hrs, hsynced⟩

theorem openable {disk disk' : Disk} {chart : Chart} (h : disk.Killed disk')
    (hopen : Openable disk chart [])
    (hall : forall id, id ∈ disk.data ->
      disk.synced id = (disk.contents id).length) :
    Openable disk' chart [] ∧ disk'.listDataFiles = disk.listDataFiles := by
  have hlist := listDataFiles_congr h.linked
  refine ⟨⟨?_, ?_, Or.inl rfl, ?_, ?_, ?_⟩, hlist⟩
  · intro id hnot
    exact hopen.absent id (fun hin => hnot ((h.linked id).mpr hin))
  · intro id hid
    have hold := (h.linked id).mp hid
    rw [h.whole (hall id hold), hlist]
    exact hopen.files id hold
  · intro id hid hne
    have hold := (h.linked id).mp hid
    rw [h.whole (hall id hold), h.synced]
    exact hall id hold
  · intro id hlast htail
    rw [hlist] at hlast
    rw [h.synced]
    exact hopen.synced id hlast htail
  · intro id bytes hid hbytes
    exact (hopen.hints id bytes ((h.linked id).mp hid)
      (h.hints id bytes hbytes)).mono (List.prefix_refl _)
      (Nat.le_of_eq (h.synced id).symm)

end Disk.Killed

/-!
# Opening what is left
-/

theorem torn_eq_nil {kept rs : List Rec} {tail : Bytes} (htorn : Torn tail)
    (h : Rec.join kept ++ tail = Rec.join rs) : tail = [] := by
  have hturns : kept.length < kept.length + rs.length + 1 := by omega
  have hturns' : rs.length < kept.length + rs.length + 1 := by omega
  rcases scanLoop_join htorn kept 0 hturns with ⟨es, torn, hscan, _, _, hsome⟩
  rcases scanLoop_join (Or.inl rfl) rs 0 hturns' with
    ⟨es', torn', hscan', _, hnone, _⟩
  rw [List.append_nil, ← h, hscan] at hscan'
  have hsame : torn = torn' := congrArg Prod.snd hscan'
  by_contra hne
  rcases hsome hne with ⟨detail, hdetail⟩
  rw [hsame, hnone rfl] at hdetail
  cases hdetail

/-- The loop gets through files of which only the newest may end in part of a
record. -/
theorem openLoop_succeeds {opts : Options} {newest : Option FileId}
    {ids : List FileId} (hnodup : ids.Nodup) {kept : Chart}
    {tails : FileId -> Bytes} {o : Opening}
    (h : forall id, id ∈ ids -> o.dir.disk.Readable id (kept id) (tails id))
    (htails : forall id, id ∈ ids -> tails id = [] ∨ newest = some id) :
    exists o', openLoop opts newest ids o = Except.ok o' := by
  induction ids generalizing o with
  | nil => exact ⟨o, rfl⟩
  | cons id ids ih =>
      rw [List.nodup_cons] at hnodup
      rw [openLoop]
      dsimp only
      rcases (h id List.mem_cons_self).readEntries opts (newest == some id) with
        ⟨hsome, hold, _⟩ | ⟨_, es, dir, hread, _, hafter⟩
      · rcases htails id List.mem_cons_self with hnil | hnewest
        · exact absurd hnil hsome
        · rw [hnewest, beq_self_eq_true] at hold
          cases hold
      · rw [hread]
        dsimp only
        refine ih hnodup.2 ?_
          (fun other hin => htails other (List.mem_cons_of_mem id hin))
        intro other hin
        have hne : other ≠ id := fun heq => hnodup.1 (heq ▸ hin)
        have hsame := hafter.lookup_of_ne hne
        refine (h other (List.mem_cons_of_mem id hin)).congr ?_ ?_
        · rw [← hsame.1]
          split
          · rw [(dir_index id es { o with dir := dir }).1]
          · rw [(dir_index id es { o with dir := dir }).1]
        · rw [← hsame.2]
          split
          · rw [(dir_index id es { o with dir := dir }).1]
          · rw [(dir_index id es { o with dir := dir }).1]

/-- What a kill leaves opens, to a store whose index is what its files replay
to. -/
theorem openWith_of_sealed {disk : Disk} (hsound : disk.Sound)
    (hsealed : disk.Sealed) (opts : Options) :
    exists s, Store.openWith { disk := disk } opts = Except.ok s ∧
      Alive s Out.idle ∧ Replayed s ∧
      s.dir.disk.appliedIndex = disk.appliedIndex := by
  have hopens : exists s, Store.openWith { disk := disk } opts =
      Except.ok s := by
    rcases hsound with ⟨chart, hchart⟩
    rcases removeLeftovers_spec { disk := disk } with ⟨hdata, _, _, _⟩
    have hcleared := hchart.dir.removeLeftovers disk.listDataFiles
    rcases hcleared.now.split with ⟨kept, tails, hsplit⟩
    have hcontents : forall id, (removeLeftovers { disk := disk }
        disk.listDataFiles).disk.contents id = disk.contents id := by
      intro id
      rw [Disk.contents, Disk.contents, hdata]
    have hids : forall id, id ∈ disk.listDataFiles ->
        id ∈ (removeLeftovers { disk := disk }
          disk.listDataFiles).disk.data := by
      intro id hin
      rw [hdata]
      exact mem_listDataFiles.mp hin
    have htails : forall id, id ∈ disk.listDataFiles ->
        tails id = [] ∨ disk.listDataFiles.getLast? = some id := by
      intro id hin
      cases hlast : disk.listDataFiles.getLast? with
      | none =>
          rw [List.getLast?_eq_none_iff.mp hlast] at hin
          cases hin
      | some newest =>
          rcases le_of_getLast hlast with ⟨hnewest, hle⟩
          rcases Nat.lt_or_eq_of_le (hle id (mem_listDataFiles.mp hin)) with
            hless | heq
          · left
            rcases (hsealed id newest (mem_listDataFiles.mp hin) hnewest
              hless).1 with ⟨rs, hrs⟩
            have hjoin : Rec.join (kept id) ++ tails id = Rec.join rs := by
              rw [← (hsplit id).contents, hcontents, hrs]
            exact torn_eq_nil (hsplit id).torn hjoin
          · exact Or.inr (congrArg some heq.symm)
    have hloop : exists o, openLoop opts disk.listDataFiles.getLast?
        disk.listDataFiles
        { dir := removeLeftovers { disk := disk } disk.listDataFiles } =
          Except.ok o :=
      openLoop_succeeds disk.nodup_listDataFiles
        (fun id hin => (hsplit id).readable hcleared.now (hids id hin)) htails
    rcases hloop with ⟨o, hloop⟩
    unfold Store.openWith
    dsimp only
    rw [hloop]
    exact ⟨_, rfl⟩
  rcases hopens with ⟨s, hopen⟩
  refine ⟨s, hopen, hsound.opened hopen, hsound.replayed hopen, ?_⟩
  rcases hsound with ⟨chart, hchart⟩
  rcases (openWith_sound hchart.dir opts).2 s hopen with ⟨kept, hopened⟩
  exact hopened.appliedIndex

/-!
# What each step leaves
-/

namespace Disk.Ready

theorem congr {applied : Option Bytes} {disk disk' : Disk}
    (h : disk.Ready applied) (hdata : disk'.data = disk.data)
    (happlied : disk'.appliedIndex = disk.appliedIndex) :
    disk'.Ready applied := by
  refine ⟨?_, happlied.trans h.appliedIndex⟩
  intro id other hid hother hless
  rw [hdata] at hid hother
  rw [Disk.contents, Disk.synced, hdata]
  exact h.sealed id other hid hother hless

theorem modify {applied : Option Bytes} {dir : Dir}
    (h : dir.disk.Ready applied) {newest : FileId}
    (hnewest : forall id, id ∈ dir.disk.data -> id <= newest)
    (change : File -> File) : (dir.modify newest change).disk.Ready applied := by
  have hsame := Dir.modify_sameFiles dir newest change
  refine ⟨?_, hsame.appliedIndex.trans h.appliedIndex⟩
  intro id other hid hother hless
  have hold := (hsame.mem other).mp hother
  have hne : id ≠ newest :=
    Nat.ne_of_lt (Nat.lt_of_lt_of_le hless (hnewest other hold))
  rw [Disk.contents, Disk.synced, Dir.lookup_modify, if_neg hne]
  exact h.sealed id other ((hsame.mem id).mp hid) hold hless

theorem renamePart {applied : Option Bytes} {dir : Dir}
    (h : dir.disk.Ready applied) {slot newest : FileId}
    (hnewest : newest ∈ dir.disk.data) (hslot : slot < newest)
    {rs : List Rec} (hpart : dir.disk.parts.lookup slot = some (Rec.join rs)) :
    (dir.renamePart slot).disk.Ready applied := by
  have hlookup : (dir.renamePart slot).disk.data =
      dir.disk.data.insert slot
        (File.syncData (File.writeAll {} (Rec.join rs))) := by
    unfold Dir.renamePart
    rw [hpart]
    rfl
  have happlied : (dir.renamePart slot).disk.appliedIndex =
      dir.disk.appliedIndex := by
    unfold Dir.renamePart
    split <;> rfl
  refine ⟨?_, happlied.trans h.appliedIndex⟩
  intro id other hid hother hless
  rw [hlookup, AList.mem_insert] at hid hother
  rw [Disk.contents, Disk.synced, hlookup]
  by_cases hself : id = slot
  · rw [hself, AList.lookup_insert]
    exact ⟨⟨rs, rfl⟩, rfl⟩
  · rw [AList.lookup_insert_ne hself]
    have hold := hid.resolve_left hself
    rcases hother with heq | hother
    · rw [heq] at hless
      exact h.sealed id newest hold hnewest (Nat.lt_trans hless hslot)
    · exact h.sealed id other hold hother hless

theorem removeData {applied : Option Bytes} {dir : Dir}
    (h : dir.disk.Ready applied) (gone : FileId) :
    (dir.removeData gone).disk.Ready applied := by
  have hmem : forall id, id ∈ (dir.removeData gone).disk.data ->
      id ≠ gone ∧ id ∈ dir.disk.data := by
    intro id hid
    rw [← AList.lookup_isSome, Dir.lookup_removeData] at hid
    split at hid
    · cases hid
    · rename_i hne
      exact ⟨hne, AList.lookup_isSome.mp hid⟩
  have happlied : (dir.removeData gone).disk.appliedIndex =
      dir.disk.appliedIndex := by
    unfold Dir.removeData
    split <;> rfl
  refine ⟨?_, happlied.trans h.appliedIndex⟩
  intro id other hid hother hless
  rw [Disk.contents, Disk.synced, Dir.lookup_removeData,
    if_neg (hmem id hid).1]
  exact h.sealed id other (hmem id hid).2 (hmem other hother).2 hless

end Disk.Ready

/-- Files that were ready in every state so far, and a newest among them. -/
structure Dir.Guarded (applied : Option Bytes) (newest : FileId) (dir : Dir) :
    Prop where
  through : dir.Through (Disk.Ready applied)
  newest : forall id, id ∈ dir.disk.data -> id <= newest

namespace Dir.Guarded

theorem modify {applied : Option Bytes} {newest : FileId} {dir : Dir}
    (h : dir.Guarded applied newest) (change : File -> File) :
    (dir.modify newest change).Guarded applied newest := by
  constructor
  · exact h.through.step (Dir.moves_modify dir newest change)
      (h.through.1.modify h.newest change)
  · intro id hid
    exact h.newest id ((Dir.modify_sameFiles dir newest change).mem id |>.mp hid)

theorem flush {applied : Option Bytes} {w : LogWriter} {dir : Dir}
    (h : dir.Guarded applied w.fileId) :
    (w.flush dir).2.Guarded applied w.fileId := by
  unfold LogWriter.flush
  split
  · exact h
  · exact h.modify _

theorem fileId_flush (w : LogWriter) (dir : Dir) :
    (w.flush dir).1.fileId = w.fileId := by
  unfold LogWriter.flush
  split <;> rfl

theorem sync {applied : Option Bytes} {w : LogWriter} {dir : Dir}
    (h : dir.Guarded applied w.fileId) :
    (w.sync dir).2.Guarded applied w.fileId := by
  show ((w.flush dir).2.syncData (w.flush dir).1.fileId).Guarded applied w.fileId
  rw [fileId_flush]
  exact h.flush.modify _

theorem append {applied : Option Bytes} {w : LogWriter} {dir : Dir}
    (h : dir.Guarded applied w.fileId) (bytes : Bytes) (reach : Reach) :
    (w.append dir bytes reach).2.2.Guarded applied w.fileId := by
  unfold LogWriter.append
  split
  · split
    · exact (h.modify _).modify _
    · exact h.modify _
  · cases reach with
    | buffer =>
        dsimp only
        split
        · exact h
        · exact flush (w := { w with
            pending := w.pending ++ bytes
            offset := w.offset + bytes.length }) h
    | kernel =>
        exact flush (w := { w with
          pending := w.pending ++ bytes
          offset := w.offset + bytes.length }) h
    | disk =>
        exact sync (w := { w with
          pending := w.pending ++ bytes
          offset := w.offset + bytes.length }) h

end Dir.Guarded

/-!
# What a store does
-/

theorem Alive.synced {s : Store} {out : Out} (h : Alive s out) {id : FileId}
    (hid : id ∈ s.sync.dir.disk.data) :
    (exists rs, s.sync.dir.disk.contents id = Rec.join rs) ∧
      s.sync.dir.disk.synced id = (s.sync.dir.disk.contents id).length := by
  have hok := h.ok
  have hsynced := h.sync
  rcases hsynced.charted with ⟨chart, hcharted⟩
  rcases LogWriter.appended_sync hok.writer with ⟨happended, hpending⟩
  have hactive : s.sync.writer.fileId = s.writer.fileId := happended.fileId
  by_cases heq : id = s.sync.writer.fileId
  · have hcontents : s.sync.dir.disk.contents s.sync.writer.fileId =
        Rec.join (chart s.sync.writer.fileId) := by
      have hall : s.sync.writer.contents s.sync.dir =
          Rec.join (chart s.sync.writer.fileId) := hcharted.contents
      have hnone : s.sync.writer.pending = [] := hpending
      rw [LogWriter.contents, hnone, List.append_nil] at hall
      exact hall
    have hlength := hcharted.join_length hsynced.ok.allRead
    rw [heq]
    refine ⟨⟨_, hcontents⟩, ?_⟩
    rw [hcontents]
    refine Eq.trans ?_ hlength.symm
    have hoffset : s.sync.writer.offset = s.writer.offset + 0 :=
      happended.offset hok.writer
    show s.sync.dir.disk.synced s.sync.writer.fileId = s.sync.writer.offset
    rw [hoffset, hactive]
    exact LogWriter.synced_sync hok.writer
  · rcases hcharted.sealed id hid heq with ⟨hcontents, hall⟩
    exact ⟨⟨_, hcontents⟩, hall.trans (congrArg List.length hcontents).symm⟩

theorem Disk.Ready.create {applied : Option Bytes} {dir : Dir}
    (happlied : dir.disk.appliedIndex = applied)
    (hall : forall id, id ∈ dir.disk.data ->
      (exists rs, dir.disk.contents id = Rec.join rs) ∧
        dir.disk.synced id = (dir.disk.contents id).length) (new : FileId) :
    (dir.create new).disk.Ready applied := by
  constructor
  · intro id other hid _ _
    rw [← AList.lookup_isSome, Dir.lookup_create] at hid
    rw [Disk.contents, Disk.synced, Dir.lookup_create]
    by_cases heq : id = new
    · rw [if_pos heq]
      by_cases hin : new ∈ dir.disk.data
      · have hfile := hall new hin
        rw [Disk.contents, Disk.synced] at hfile
        exact hfile
      · rw [AList.lookup_eq_none.mpr hin]
        exact ⟨⟨[], rfl⟩, rfl⟩
    · rw [if_neg heq] at hid ⊢
      exact hall id (AList.lookup_isSome.mp hid)
  · rw [← happlied]
    unfold Dir.create
    split <;> rfl

namespace Alive

theorem guarded {s : Store} {out : Out} (h : Alive s out)
    {applied : Option Bytes} (hready : s.dir.Through (Disk.Ready applied)) :
    s.dir.Guarded applied s.writer.fileId :=
  ⟨hready, h.ok.newest⟩

theorem ready_sync {s : Store} {out : Out} (h : Alive s out)
    {applied : Option Bytes} (hready : s.dir.Through (Disk.Ready applied)) :
    s.sync.dir.Through (Disk.Ready applied) :=
  (h.guarded hready).sync.through

theorem guarded_sealInto {s : Store} {out : Out} (h : Alive s out)
    {applied : Option Bytes} (hready : s.dir.Through (Disk.Ready applied))
    {next : FileId} (hnext : s.writer.fileId < next) :
    (s.sealInto next).dir.Guarded applied next := by
  have hsynced := (h.guarded hready).sync
  have hhinted : (Hint.write s.sync.dir s.sync.writer.fileId
      s.sync.writer.offset s.activeHints).Through (Disk.Ready applied) :=
    hsynced.through.step (Or.inr rfl) (hsynced.through.1.congr rfl rfl)
  have hready' : (Dir.create (Hint.write s.sync.dir s.sync.writer.fileId
      s.sync.writer.offset s.activeHints) next).disk.Ready applied :=
    Disk.Ready.create hhinted.1.appliedIndex (fun id hid => h.synced hid) next
  constructor
  · exact hhinted.step (Dir.moves_create _ next) hready'
  · intro id hid
    rcases (Store.mem_sealInto h.ok next id).mp hid with heq | hold
    · exact Nat.le_of_eq heq
    · exact Nat.le_of_lt (Nat.lt_of_le_of_lt (h.ok.newest id hold) hnext)

theorem guarded_rollIfNeeded {s : Store} {out : Out} (h : Alive s out)
    {applied : Option Bytes} (hready : s.dir.Through (Disk.Ready applied))
    (incoming : Nat) :
    (s.rollIfNeeded incoming).dir.Guarded applied
      (s.rollIfNeeded incoming).writer.fileId := by
  rcases s.rollIfNeeded_cases incoming with hsame | hsealed
  · rw [hsame]
    exact h.guarded hready
  · rw [hsealed]
    exact h.guarded_sealInto hready (Nat.lt_succ_self _)

theorem ready_putWith {s s' : Store} {out : Out} (h : Alive s out)
    {applied : Option Bytes} (hready : s.dir.Through (Disk.Ready applied))
    {key value : Bytes} {reach : Reach} {now later : UInt64}
    (hput : s.putWith key value reach now later = Except.ok s') :
    s'.dir.Through (Disk.Ready applied) := by
  rcases Store.dir_putWith hput with ⟨bytes, _, hdir⟩
  rw [hdir]
  exact ((h.guarded_rollIfNeeded hready bytes.length).append bytes
    reach).through

theorem ready_deleteWith {s s' : Store} {out : Out} (h : Alive s out)
    {applied : Option Bytes} (hready : s.dir.Through (Disk.Ready applied))
    {key : Bytes} {reach : Reach} {now later : UInt64} {was : Bool}
    (hdelete : s.deleteWith key reach now later = Except.ok (s', was)) :
    s'.dir.Through (Disk.Ready applied) := by
  rcases Store.dir_deleteWith hdelete with hsame | ⟨bytes, _, hdir⟩
  · rw [hsame]
    exact hready
  · rw [hdir]
    exact ((h.guarded_rollIfNeeded hready bytes.length).append bytes
      reach).through

theorem ready_beginRestore {s s' : Store} (h : Alive s Out.idle)
    {applied : Option Bytes} (hready : s.dir.Through (Disk.Ready applied))
    {job : RestoreJob} (hbegin : s.beginRestore = Except.ok (job, s')) :
    s'.dir.Through (Disk.Ready applied) := by
  have hsealed := (h.guarded_sealInto hready
    (Nat.lt_trans (Nat.lt_succ_self _) (Nat.lt_succ_self _))).through
  unfold Store.beginRestore at hbegin
  rw [if_neg (by simp [h.out.1, h.out.2.1])] at hbegin
  cases hbegin
  exact hsealed.step (Or.inr rfl) (hsealed.1.congr rfl rfl)

theorem ready_finish {s : Store} {job : RestoreJob}
    (h : Alive s (Out.restoring job)) {applied : Option Bytes}
    (hready : s.dir.Through (Disk.Ready applied)) :
    (job.finish s.dir).2.Through (Disk.Ready applied) := by
  rcases h.out with ⟨_, _, _, hslot, _, rs, hof, _, _⟩
  have hwritten : (s.dir.writePart job.id job.file).Through
      (Disk.Ready applied) :=
    hready.step (Or.inr rfl) (hready.1.congr rfl rfl)
  have hpart : (s.dir.writePart job.id job.file).disk.parts.lookup job.id =
      some (Rec.join rs) := by
    rw [hof.file]
    exact AList.lookup_insert _
  have hmoves : (s.dir.writePart job.id job.file).Moves
      ((s.dir.writePart job.id job.file).renamePart job.id) := by
    unfold Dir.renamePart
    rw [hpart]
    exact Or.inr rfl
  have hrenamed := hwritten.step hmoves
    (hwritten.1.renamePart h.ok.writer.linked hslot.below hpart)
  exact hrenamed.step (Or.inr rfl) (hrenamed.1.congr rfl rfl)

end Alive

theorem ready_removeFiles {applied : Option Bytes}
    (ids : List FileId) {dir : Dir}
    (h : dir.Through (Disk.Ready applied)) :
    (removeFiles dir ids).Through (Disk.Ready applied) := by
  induction ids generalizing dir with
  | nil => exact h
  | cons id ids ih =>
      have happlied : (dir.removeHint id).disk.appliedIndex =
          dir.disk.appliedIndex := by
        unfold Dir.removeHint
        split <;> rfl
      have hunhinted := h.step (Dir.moves_removeHint dir id)
        (h.1.congr (Dir.data_removeHint dir id) happlied)
      exact ih (hunhinted.step (Dir.moves_removeData _ id)
        (hunhinted.1.removeData id))

end Minicask
