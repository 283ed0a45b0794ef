import Minicask.Store.SoundHints

/-!
# Opening on sound files

Whatever files are sound, opening keeps them so at every step, whether it succeeds
or not.  When it does succeed, every file is whole records, all of them synced but
perhaps some of the newest file's.
-/

namespace Minicask

open Replay

/-!
# The whole records of each file
-/

/-- The records that a file holds whole, and what is left of the next. -/
structure Disk.SplitAt (disk : Disk) (chart : Chart) (id : FileId)
    (kept : List Rec) (tail : Bytes) : Prop where
  contents : disk.contents id = Rec.join kept ++ tail
  torn : Torn tail
  starts : kept <+: chart id
  all : forall rs, rs <+: chart id ->
    (Rec.join rs).length <= (disk.contents id).length -> rs <+: kept

theorem Disk.SoundAs.split {disk : Disk} {chart : Chart}
    (h : disk.SoundAs chart) :
    exists (kept : Chart) (tails : FileId -> Bytes),
      forall id, disk.SplitAt chart id (kept id) (tails id) := by
  have hsplit : forall id, exists kept tail,
      disk.SplitAt chart id kept tail := by
    intro id
    rcases join_cut (chart id) (disk.contents id).length with
      ⟨kept, tail, htake, hkept, htorn, hall⟩
    refine ⟨kept, tail, ?_, htorn, hkept, hall⟩
    rw [← htake]
    exact List.prefix_iff_eq_take.mp (h.files id)
  choose kept tails hkept using hsplit
  exact ⟨kept, tails, hkept⟩

namespace Disk.SplitAt

theorem congr {disk disk' : Disk} {chart : Chart} {id : FileId}
    {kept : List Rec} {tail : Bytes} (h : disk.SplitAt chart id kept tail)
    (hcontents : disk'.contents id = disk.contents id) :
    disk'.SplitAt chart id kept tail := by
  refine ⟨?_, h.torn, h.starts, ?_⟩
  · rw [hcontents]
    exact h.contents
  · rw [hcontents]
    exact h.all

theorem hintOk {disk : Disk} {chart : Chart} {id : FileId} {kept : List Rec}
    {tail : Bytes} (h : disk.SplitAt chart id kept tail) {bytes : Bytes}
    (hint : HintOk disk id (chart id) bytes) : HintOk disk id kept bytes := by
  rcases hint with ⟨hinted, es, hprefix, heq, hdescribes, hle⟩
  exact ⟨hinted, es, h.all hinted hprefix
    (Nat.le_trans hle (disk.synced_le id)), heq, hdescribes, hle⟩

theorem readable {disk : Disk} {chart : Chart} (hsound : disk.SoundAs chart)
    {id : FileId} {kept : List Rec} {tail : Bytes}
    (h : disk.SplitAt chart id kept tail) (hid : id ∈ disk.data) :
    disk.Readable id kept tail where
  linked := hid
  contents := h.contents
  torn := h.torn
  hint bytes hlookup := Or.inr (h.hintOk (hsound.hints id bytes hlookup))

end Disk.SplitAt

/-- Some hints are gone, or cannot be read any more. -/
structure Disk.Spoiled (disk disk' : Disk) : Prop where
  data : disk'.data = disk.data
  hints : forall id bytes, disk'.hints.lookup id = some bytes ->
    disk.hints.lookup id = some bytes ∨ Hint.Unreadable bytes

theorem Disk.Sound.allReadable {disk disk' : Disk} (h : disk.Sound)
    (hspoiled : disk.Spoiled disk') : disk'.AllReadable := by
  rcases h with ⟨chart, hsound⟩
  rcases hsound.split with ⟨kept, tails, hsplit⟩
  refine ⟨kept, tails, ?_⟩
  intro id hid
  have hlookup : disk'.data.lookup id = disk.data.lookup id := by
    rw [hspoiled.data]
  refine ⟨hid, ?_, (hsplit id).torn, ?_⟩
  · rw [Disk.contents, hlookup]
    exact (hsplit id).contents
  · intro bytes hbytes
    rcases hspoiled.hints id bytes hbytes with hsame | hunreadable
    · right
      have hok := (hsplit id).hintOk (hsound.hints id bytes hsame)
      rw [HintOk, Disk.synced, hlookup]
      exact hok
    · exact Or.inl hunreadable

/-!
# Reading the files
-/

theorem Dir.AfterRead.sameFiles {dir dir' : Dir} {id : FileId}
    {rs : List Rec} {es : List HintEntry} {isNewest : Bool}
    (h : dir.AfterRead id rs es isNewest dir') (hid : id ∈ dir.disk.data) :
    dir.SameFiles dir' := by
  cases h with
  | same hwhole hsynced => exact Dir.SameFiles.refl dir
  | cut hstarts =>
      exact (Dir.modify_sameFiles dir id _).trans
        (Dir.modify_sameFiles _ id _)
  | hinted hwhole => exact dir.hinted_sameFiles hid _ _

theorem Dir.SoundAs.afterRead {dir dir' : Dir} {chart : Chart}
    (h : dir.SoundAs chart) {id : FileId} {kept : List Rec} {tail : Bytes}
    (hsplit : dir.disk.SplitAt chart id kept tail) {es : List HintEntry}
    (hes : Hint.Describes 0 es kept) {isNewest : Bool}
    (hafter : dir.AfterRead id kept es isNewest dir') :
    dir'.SoundAs chart := by
  cases hafter with
  | same hwhole hsynced => exact h
  | cut hstarts =>
      have hcut := h.step (Dir.moves_modify dir id _)
        (h.now.setLen hsplit.starts hstarts (by
          intro hinted hprefix hle
          exact (join_mono (hsplit.all hinted hprefix
            (Nat.le_trans hle (dir.disk.synced_le id)))).length_le))
      exact hcut.step (Dir.moves_modify _ id _) (hcut.now.syncData id)
  | hinted hwhole =>
      have hsynced := h.step (Dir.moves_modify dir id File.syncData)
        (h.now.syncData id)
      refine hsynced.step (Or.inr rfl)
        (hsynced.now.writeHint hsplit.starts hes ?_)
      show _ <= (dir.syncData id).disk.synced id
      rw [Dir.synced_syncData, hwhole]

theorem Dir.SoundAs.removeLeftovers {dir : Dir} {chart : Chart}
    (h : dir.SoundAs chart) (ids : List FileId) :
    (removeLeftovers dir ids).SoundAs chart := by
  have hparts : forall (parts : List FileId) (dir : Dir),
      dir.SoundAs chart -> (parts.foldl Dir.removePart dir).SoundAs chart := by
    intro parts
    induction parts with
    | nil => exact fun _ hsound => hsound
    | cons id parts ih => exact fun dir hsound => ih _ (hsound.removePart id)
  have hhints : forall (hints : List FileId) (dir : Dir),
      dir.SoundAs chart -> (hints.foldl Dir.removeHint dir).SoundAs chart := by
    intro hints
    induction hints with
    | nil => exact fun _ hsound => hsound
    | cons id hints ih =>
        exact fun dir hsound => ih _ (hsound.step
          (Dir.moves_removeHint dir id) (hsound.now.removeHint id))
  exact hhints _ _ (hparts _ dir h)

/-- The directory that the loop over the files leaves, also when one of them is
refused. -/
def openLoopDir (opts : Options) (newest : Option FileId) :
    List FileId -> Dir -> Dir
  | [], dir => dir
  | id :: rest, dir =>
      match readEntries dir opts id (newest == some id) with
      | Except.error _ => dir
      | Except.ok (_, dir) => openLoopDir opts newest rest dir

theorem openLoopDir_of_ok {opts : Options} {newest : Option FileId}
    {ids : List FileId} {o o' : Opening}
    (h : openLoop opts newest ids o = Except.ok o') :
    openLoopDir opts newest ids o.dir = o'.dir := by
  induction ids generalizing o with
  | nil =>
      cases h
      rfl
  | cons id ids ih =>
      rw [openLoop] at h
      rw [openLoopDir]
      dsimp only at h
      cases hread : readEntries o.dir opts id (newest == some id) with
      | error e =>
          rw [hread] at h
          cases h
      | ok read =>
          rw [hread] at h
          dsimp only at h ⊢
          rw [index_withDir id read.1 o read.2] at h
          have hnext := ih h
          by_cases hnew : (newest == some id) = true
          · rw [if_pos hnew] at hnext
            exact hnext
          · rw [if_neg hnew] at hnext
            exact hnext

theorem openLoopDir_sound {opts : Options} {newest : Option FileId}
    {ids : List FileId} (hnodup : ids.Nodup) {chart kept : Chart}
    {tails : FileId -> Bytes} {dir : Dir} (h : dir.SoundAs chart)
    (hsplit : forall id, id ∈ ids ->
      dir.disk.SplitAt chart id (kept id) (tails id))
    (hids : forall id, id ∈ ids -> id ∈ dir.disk.data) :
    (openLoopDir opts newest ids dir).SoundAs chart := by
  induction ids generalizing dir with
  | nil => exact h
  | cons id ids ih =>
      rw [List.nodup_cons] at hnodup
      have hid := hsplit id List.mem_cons_self
      have hreadable := hid.readable h.now (hids id List.mem_cons_self)
      rw [openLoopDir]
      rcases hreadable.readEntries opts (newest == some id) with
        ⟨_, _, e, hread⟩ | ⟨_, es, dir', hread, hes, hafter⟩
      · rw [hread]
        exact h
      · rw [hread]
        have hsame := hafter.sameFiles (hids id List.mem_cons_self)
        apply ih hnodup.2 (h.afterRead hid hes hafter)
        · intro other hin
          have hne : other ≠ id := fun heq => hnodup.1 (heq ▸ hin)
          apply (hsplit other (List.mem_cons_of_mem id hin)).congr
          rw [Disk.contents, Disk.contents, (hafter.lookup_of_ne hne).1]
        · intro other hin
          exact (hsame.mem other).mpr
            (hids other (List.mem_cons_of_mem id hin))

/-- What the loop has made of the files it has read. -/
structure Opening.Read (o o' : Opening) (newest : Option FileId)
    (ids : List FileId) (kept : Chart) (m : Contents) : Prop where
  files : forall id, id ∈ ids ->
    o'.dir.disk.contents id = Rec.join (kept id) ∧
      (newest ≠ some id ->
        o'.dir.disk.synced id = (Rec.join (kept id)).length)
  others : forall id, id ∉ ids ->
    o'.dir.disk.data.lookup id = o.dir.disk.data.lookup id
  same : o.dir.SameFiles o'.dir
  points : Points kept o'.keydir
    (replay m ((ids.flatMap kept).map Rec.write))
  active : forall id, newest = some id -> id ∈ ids ->
    Hint.Describes 0 o'.activeHints (kept id)
  idle : (forall id, id ∈ ids -> newest ≠ some id) ->
    o'.activeHints = o.activeHints

theorem openLoop_read {opts : Options} {newest : Option FileId}
    {ids : List FileId} (hnodup : ids.Nodup) {kept : Chart}
    {tails : FileId -> Bytes} {o o' : Opening} {m : Contents}
    (h : forall id, id ∈ ids -> o.dir.disk.Readable id (kept id) (tails id))
    (hpoints : Points kept o.keydir m)
    (hloop : openLoop opts newest ids o = Except.ok o') :
    Opening.Read o o' newest ids kept m := by
  induction ids generalizing o m with
  | nil =>
      cases hloop
      exact ⟨fun _ hin => absurd hin List.not_mem_nil, fun _ _ => rfl,
        Dir.SameFiles.refl _, hpoints,
        fun _ _ hin => absurd hin List.not_mem_nil, fun _ => rfl⟩
  | cons id ids ih =>
      rw [List.nodup_cons] at hnodup
      have hid := h id List.mem_cons_self
      have hother : forall other, other ∈ ids -> other ≠ id := by
        intro other hin heq
        rw [heq] at hin
        exact hnodup.1 hin
      rw [openLoop] at hloop
      dsimp only at hloop
      rcases hid.readEntries opts (newest == some id) with
        ⟨_, _, e, hread⟩ | ⟨_, es, dir, hread, hes, hafter⟩
      · rw [hread] at hloop
        cases hloop
      · rw [hread] at hloop
        dsimp only at hloop
        have hpoints' : Points kept
            (es.foldl (indexEntry id) { o with dir := dir }).keydir
            (replay m ((kept id).map Rec.write)) :=
          Points.index hes (List.nil_append _).symm rfl hpoints
        rw [index_withDir id es o dir] at hloop hpoints'
        generalize hnext : (if newest == some id then _ else _ : Opening) =
          next at hloop
        have hdir : next.dir = dir := by
          rw [← hnext]
          split <;> rfl
        have hkeydir : next.keydir =
            (es.foldl (indexEntry id) o).keydir := by
          rw [← hnext]
          split <;> rfl
        have hactive : next.activeHints =
            if newest = some id then es else o.activeHints := by
          rw [← hnext]
          by_cases heq : newest = some id
          · rw [if_pos (beq_iff_eq.mpr heq), if_pos heq]
          · rw [if_neg (by simpa using heq), if_neg heq]
            exact (dir_index id es o).2
        have hrest : forall other, other ∈ ids ->
            next.dir.disk.Readable other (kept other) (tails other) := by
          intro other hin
          have hsame := hafter.lookup_of_ne (hother other hin)
          rw [hdir]
          exact (h other (List.mem_cons_of_mem id hin)).congr hsame.1 hsame.2
        have hread' := ih hnodup.2 hrest (hkeydir ▸ hpoints') hloop
        have hsame := hafter.sameFiles hid.linked
        have hfile := hafter.lookup hid.linked
        have hunread := hread'.others id hnodup.1
        rw [hdir] at hunread
        refine ⟨?_, ?_, ?_, ?_, ?_, ?_⟩
        · intro other hin
          rcases List.mem_cons.mp hin with heq | hin'
          · rw [heq]
            constructor
            · rw [Disk.contents, hunread]
              cases hlookup : dir.disk.data.lookup id with
              | none =>
                  rw [hlookup] at hfile
                  cases hfile.1
              | some file =>
                  rw [hlookup] at hfile
                  exact Option.some.inj hfile.1
            · intro hne
              rw [Disk.synced, hunread]
              exact hfile.2 (beq_eq_false_iff_ne.mpr hne)
          · exact hread'.files other hin'
        · intro other hout
          rw [List.mem_cons, not_or] at hout
          rw [hread'.others other hout.2, hdir]
          exact (hafter.lookup_of_ne hout.1).1
        · exact hsame.trans (hdir ▸ hread'.same)
        · rw [List.flatMap_cons, List.map_append, replay_append]
          exact hread'.points
        · intro other hsome hin
          by_cases hrest' : other ∈ ids
          · exact hread'.active other hsome hrest'
          · have heq : other = id :=
              (List.mem_cons.mp hin).resolve_right hrest'
            subst heq
            rw [hread'.idle, hactive, if_pos hsome]
            · exact hes
            · intro id' hid' heq'
              rw [hsome, Option.some.injEq] at heq'
              rw [heq'] at hrest'
              exact hrest' hid'
        · intro hnone
          rw [hread'.idle (fun other hin =>
              hnone other (List.mem_cons_of_mem id hin)), hactive,
            if_neg (hnone id List.mem_cons_self)]

/-- No record that was synced is lost by reading the files. -/
theorem openLoop_marks {opts : Options} {newest : Option FileId}
    {ids : List FileId} (hnodup : ids.Nodup) {kept : Chart}
    {tails : FileId -> Bytes} {o o' : Opening}
    (h : forall id, id ∈ ids -> o.dir.disk.Readable id (kept id) (tails id))
    (hloop : openLoop opts newest ids o = Except.ok o') {id : FileId}
    (hle : id ∈ ids -> o.dir.disk.synced id <= (Rec.join (kept id)).length) :
    o.dir.disk.synced id <= o'.dir.disk.synced id := by
  induction ids generalizing o with
  | nil =>
      cases hloop
      exact Nat.le_refl _
  | cons first ids ih =>
      rw [List.nodup_cons] at hnodup
      have hfirst := h first List.mem_cons_self
      rw [openLoop] at hloop
      dsimp only at hloop
      rcases hfirst.readEntries opts (newest == some first) with
        ⟨_, _, e, hread⟩ | ⟨_, es, dir, hread, _, hafter⟩
      · rw [hread] at hloop
        cases hloop
      · rw [hread] at hloop
        dsimp only at hloop
        rw [index_withDir first es o dir] at hloop
        generalize hnext : (if newest == some first then _ else _ : Opening) =
          next at hloop
        have hdir : next.dir = dir := by
          rw [← hnext]
          split <;> rfl
        have hrest : forall other, other ∈ ids ->
            next.dir.disk.Readable other (kept other) (tails other) := by
          intro other hin
          have hne : other ≠ first := fun heq => hnodup.1 (heq ▸ hin)
          have hsame := hafter.lookup_of_ne hne
          rw [hdir]
          exact (h other (List.mem_cons_of_mem first hin)).congr hsame.1
            hsame.2
        by_cases heq : id = first
        · subst heq
          have hkept := hafter.marks hfirst.linked (hle List.mem_cons_self)
          rw [← hdir] at hkept
          exact Nat.le_trans hkept (ih hnodup.2 hrest hloop
            (fun hin => absurd hin hnodup.1))
        · have hsame : next.dir.disk.synced id = o.dir.disk.synced id := by
            rw [hdir, Disk.synced, Disk.synced, (hafter.lookup_of_ne heq).1]
          rw [← hsame]
          refine ih hnodup.2 hrest hloop ?_
          intro hin
          rw [hsame]
          exact hle (List.mem_cons_of_mem first hin)

/-!
# The whole opening
-/

theorem Opening.Read.openable {o o' : Opening} {newest : Option FileId}
    {ids : List FileId} {kept chart : Chart} {m : Contents}
    {tails : FileId -> Bytes} (h : Opening.Read o o' newest ids kept m)
    (hsplit : forall id, o.dir.disk.SplitAt chart id (kept id) (tails id))
    (hids : forall id, id ∈ ids ↔ id ∈ o.dir.disk.data)
    (hsound : o'.dir.disk.SoundAs chart)
    (hnewest : o.dir.disk.listDataFiles.getLast? = newest) :
    Openable o'.dir.disk kept [] := by
  have hlist := listDataFiles_congr h.same.mem
  have hread : forall id, id ∈ o'.dir.disk.data -> id ∈ ids :=
    fun id hid => (hids id).mpr ((h.same.mem id).mp hid)
  have hwithin : forall id rs, id ∈ ids -> rs <+: chart id ->
      (Rec.join rs).length <= o'.dir.disk.synced id -> rs <+: kept id := by
    intro id rs hin hrs hle
    refine prefix_of_join_le hrs (hsplit id).starts
      (Nat.le_trans hle (Nat.le_trans (o'.dir.disk.synced_le id) ?_))
    rw [(h.files id hin).1]
  refine ⟨?_, ?_, Or.inl rfl, ?_, ?_, ?_⟩
  · intro id hnot
    have habsent : id ∉ o.dir.disk.data :=
      fun hin => hnot ((h.same.mem id).mpr hin)
    have hcontents := (hsplit id).contents
    rw [Disk.contents, AList.lookup_eq_none.mpr habsent] at hcontents
    have hnil : Rec.join (kept id) = [] :=
      (List.append_eq_nil_iff.mp hcontents.symm).1
    have hlength := length_le_join (kept id)
    rw [hnil] at hlength
    exact List.length_eq_zero_iff.mp (Nat.le_zero.mp hlength)
  · intro id hid
    rw [ite_self, List.append_nil]
    exact (h.files id (hread id hid)).1
  · intro id hid hne
    rw [hlist, hnewest] at hne
    rw [(h.files id (hread id hid)).1]
    exact (h.files id (hread id hid)).2 hne
  · intro id hlast _
    have hin : id ∈ ids := by
      apply hread
      rw [hlist] at hlast
      rw [h.same.mem]
      exact (le_of_getLast hlast).1
    rcases hsound.marks id with ⟨rs, hrs, hsynced⟩ | hall
    · exact ⟨rs, hwithin id rs hin hrs (Nat.le_of_eq hsynced.symm), hsynced⟩
    · rw [(h.files id hin).1] at hall
      exact ⟨kept id, List.prefix_refl _, hall⟩
  · intro id bytes hid hbytes
    rcases hsound.hints id bytes hbytes with
      ⟨hinted, es, hprefix, heq, hdescribes, hle⟩
    exact ⟨hinted, es, hwithin id hinted (hread id hid) hprefix hle, heq,
      hdescribes, hle⟩

/-- The directory that opening leaves, whether or not it succeeds. -/
def Store.openDir (dir : Dir) (opts : Options) : Dir :=
  match Store.openWith dir opts with
  | Except.ok s => s.dir
  | Except.error _ =>
      openLoopDir opts dir.disk.listDataFiles.getLast? dir.disk.listDataFiles
        (removeLeftovers dir dir.disk.listDataFiles)

/-- A store that opened on the whole records of each file.  No record that was
synced is lost. -/
structure Opened.From (dir : Dir) (chart kept : Chart) (s : Store) : Prop where
  opened : Opened dir kept s
  starts : forall id, kept id <+: chart id
  all : forall id rs, rs <+: chart id ->
    (Rec.join rs).length <= (dir.disk.contents id).length -> rs <+: kept id
  active : s.writer.fileId = dir.disk.listDataFiles.getLast?.getD 1
  marks : forall id, dir.disk.synced id <= (Rec.join (kept id)).length ->
    dir.disk.synced id <= s.dir.disk.synced id

/-- Opening keeps the files sound, and what opens is a store on whole records. -/
theorem openWith_from {dir : Dir} {chart : Chart} (h : dir.SoundAs chart)
    (opts : Options) :
    (Store.openDir dir opts).SoundAs chart ∧
      forall s, Store.openWith dir opts = Except.ok s ->
        exists kept, Opened.From dir chart kept s := by
  rcases removeLeftovers_spec dir with ⟨hdata, happlied, hkept, hhints⟩
  have hcleared := h.removeLeftovers dir.disk.listDataFiles
  have hlist : (removeLeftovers dir dir.disk.listDataFiles).disk.listDataFiles =
      dir.disk.listDataFiles := by
    rw [Disk.listDataFiles, hdata]
    rfl
  have hnodup := dir.disk.nodup_listDataFiles
  unfold Store.openDir Store.openWith
  dsimp only
  generalize removeLeftovers dir dir.disk.listDataFiles = cleared at *
  rcases hcleared.now.split with ⟨kept, tails, hsplit⟩
  have hids : forall id, id ∈ dir.disk.listDataFiles ↔
      id ∈ cleared.disk.data := by
    intro id
    rw [mem_listDataFiles, hdata]
  have hloopDir : (openLoopDir opts dir.disk.listDataFiles.getLast?
      dir.disk.listDataFiles cleared).SoundAs chart :=
    openLoopDir_sound hnodup hcleared (fun id _ => hsplit id)
      (fun id hin => (hids id).mp hin)
  cases hloop : openLoop opts dir.disk.listDataFiles.getLast?
      dir.disk.listDataFiles { dir := cleared } with
  | error e => exact ⟨hloopDir, fun s hopen => by cases hopen⟩
  | ok o =>
      have hdir := openLoopDir_of_ok hloop
      rw [show _ = o.dir from hdir] at hloopDir
      have hread := openLoop_read hnodup (fun id hin =>
        (hsplit id).readable hcleared.now ((hids id).mp hin))
        (Points.empty kept) hloop
      have hopenable := hread.openable hsplit hids hloopDir.now
        (by rw [← hlist])
      refine ⟨hloopDir.step (Dir.moves_create o.dir _)
        (hloopDir.now.create _), ?_⟩
      intro s hopen
      cases hopen
      have hlast : forall id, id ∈ cleared.disk.data ->
          id <= dir.disk.listDataFiles.getLast?.getD 1 ∧
          cleared.disk.listDataFiles.getLast? =
            some (dir.disk.listDataFiles.getLast?.getD 1) := by
        intro id hid
        rw [hlist]
        cases hnewest : dir.disk.listDataFiles.getLast? with
        | none =>
            rw [List.getLast?_eq_none_iff] at hnewest
            rw [← hids, hnewest] at hid
            cases hid
        | some newest =>
            rw [hdata] at hid
            exact ⟨(le_of_getLast hnewest).2 id hid, rfl⟩
      have habsent : forall id, id ∉ cleared.disk.data -> kept id = [] :=
        fun id hnot => hopenable.absent id
          (fun hin => hnot ((hread.same.mem id).mp hin))
      have hrecorded := flatMap_listDataFiles habsent
        (fun id hid => (hlast id hid).1)
      rw [hlist] at hrecorded
      have hpoints := hread.points
      rw [hrecorded] at hpoints
      have hactive : Hint.Describes 0 o.activeHints
          (kept (dir.disk.listDataFiles.getLast?.getD 1)) := by
        cases hnewest : dir.disk.listDataFiles.getLast? with
        | none =>
            have hempty := List.getLast?_eq_none_iff.mp hnewest
            rw [hread.idle (fun id hin => by rw [hempty] at hin; cases hin),
              habsent]
            · exact Hint.Describes.nil 0
            · rw [← hids, hempty]
              exact List.not_mem_nil
        | some newest =>
            exact hread.active newest hnewest
              (mem_listDataFiles.mpr (le_of_getLast hnewest).1)
      have hopened := opened_of_points opts hopenable hread.same
        (fun id hid => by rw [hdata]; exact hhints id hid) hlast hpoints hactive
      rw [hlist] at hopened
      have hsame : forall id, cleared.disk.contents id = dir.disk.contents id ∧
          cleared.disk.synced id = dir.disk.synced id := by
        intro id
        rw [Disk.contents, Disk.synced, hdata]
        exact ⟨rfl, rfl⟩
      refine ⟨kept, { hopened with
        appliedIndex := hopened.appliedIndex.trans happlied },
        fun id => (hsplit id).starts, ?_, rfl, ?_⟩
      · intro id rs hrs hle
        rw [← (hsame id).1] at hle
        exact (hsplit id).all rs hrs hle
      · intro id hle
        rw [← (hsame id).2] at hle ⊢
        refine Nat.le_trans (openLoop_marks hnodup (fun id hin =>
          (hsplit id).readable hcleared.now ((hids id).mp hin)) hloop
          (fun _ => hle)) (Nat.le_of_eq ?_)
        show _ = (o.dir.create _).disk.synced id
        rw [Disk.synced, Disk.synced, Dir.lookup_create]
        split
        · next heq => rw [heq]; rfl
        · rfl

theorem openWith_sound {dir : Dir} {chart : Chart} (h : dir.SoundAs chart)
    (opts : Options) :
    (Store.openDir dir opts).SoundAs chart ∧
      forall s, Store.openWith dir opts = Except.ok s ->
        exists kept, Opened dir kept s := by
  rcases openWith_from h opts with ⟨hdir, hfrom⟩
  refine ⟨hdir, ?_⟩
  intro s hopen
  rcases hfrom s hopen with ⟨kept, hkept⟩
  exact ⟨kept, hkept.opened⟩

end Minicask
