import Minicask.Store.BackgroundRuns

/-!
# Killed processes

A process that is killed leaves what the kernel has.  How much of that was synced
makes no difference to the store that opens on it, so the files may be taken for
synced.
-/

namespace Minicask

open Replay

/-- Two disks that differ at most in how much of each data file is synced, and in
merges that were never renamed. -/
structure Disk.Alike (disk disk' : Disk) : Prop where
  files : forall id, (disk'.data.lookup id).map File.bytes =
    (disk.data.lookup id).map File.bytes
  hints : forall id, disk'.hints.lookup id = disk.hints.lookup id
  unlinked : disk'.unlinked = disk.unlinked

namespace Disk.Alike

theorem contents {disk disk' : Disk} (h : disk.Alike disk') (id : FileId) :
    disk'.contents id = disk.contents id := by
  have hfile := h.files id
  unfold Disk.contents
  cases hlookup : disk.data.lookup id with
  | none =>
      rw [hlookup, Option.map_none, Option.map_eq_none_iff] at hfile
      rw [hfile]
  | some file =>
      rw [hlookup, Option.map_some, Option.map_eq_some_iff] at hfile
      rcases hfile with ⟨file', hlookup', hbytes⟩
      rw [hlookup']
      exact hbytes

theorem mem_iff {disk disk' : Disk} (h : disk.Alike disk') (id : FileId) :
    id ∈ disk'.data ↔ id ∈ disk.data := by
  have hfile := congrArg Option.isSome (h.files id)
  rw [Option.isSome_map, Option.isSome_map] at hfile
  rw [← AList.lookup_isSome, ← AList.lookup_isSome, hfile]

theorem handle {disk disk' : Disk} (h : disk.Alike disk') (id : FileId) :
    disk'.handle id = disk.handle id := by
  by_cases hin : id ∈ disk.data
  · rw [Store.handle_of_mem hin, Store.handle_of_mem ((h.mem_iff id).mpr hin),
      h.contents id]
  · have hnot : id ∉ disk'.data := fun hin' => hin ((h.mem_iff id).mp hin')
    rw [Disk.handle, Disk.handle, AList.lookup_eq_none.mpr hin,
      AList.lookup_eq_none.mpr hnot, h.unlinked]

theorem listDataFiles {disk disk' : Disk} (h : disk.Alike disk') :
    disk'.listDataFiles = disk.listDataFiles :=
  listDataFiles_congr h.mem_iff

/-!
# Alike all the way through an opening
-/

theorem modify {dir dir' : Dir} (h : dir.disk.Alike dir'.disk) (id : FileId)
    {change : File -> File}
    (hchange : forall file file' : File, file.bytes = file'.bytes ->
      (change file).bytes = (change file').bytes) :
    (dir.modify id change).disk.Alike (dir'.modify id change).disk where
  files other := by
    rw [Dir.lookup_modify, Dir.lookup_modify]
    by_cases heq : other = id
    · rw [if_pos heq, if_pos heq]
      have hfile := h.files id
      cases hlookup : dir.disk.data.lookup id with
      | none =>
          rw [hlookup, Option.map_none, Option.map_eq_none_iff] at hfile
          rw [hfile]
      | some file =>
          rw [hlookup, Option.map_some, Option.map_eq_some_iff] at hfile
          rcases hfile with ⟨file', hlookup', hbytes⟩
          rw [hlookup', Option.map_some, Option.map_some, Option.map_some,
            Option.map_some, hchange file' file hbytes]
    · rw [if_neg heq, if_neg heq]
      exact h.files other
  hints other := by
    rw [Dir.hints_modify, Dir.hints_modify]
    exact h.hints other
  unlinked := by
    have hsame : forall d : Dir, (d.modify id change).disk.unlinked =
        d.disk.unlinked := by
      intro d
      unfold Dir.modify
      split <;> rfl
    rw [hsame, hsame]
    exact h.unlinked

theorem syncData {dir dir' : Dir} (h : dir.disk.Alike dir'.disk)
    (id : FileId) :
    (dir.syncData id).disk.Alike (dir'.syncData id).disk :=
  h.modify id (fun _ _ hbytes => hbytes)

theorem setLen {dir dir' : Dir} (h : dir.disk.Alike dir'.disk) (id : FileId)
    (len : Nat) : (dir.setLen id len).disk.Alike (dir'.setLen id len).disk :=
  h.modify id (fun _ _ hbytes => congrArg (List.take len) hbytes)

theorem writeHint {dir dir' : Dir} (h : dir.disk.Alike dir'.disk)
    (id : FileId) (bytes : Bytes) :
    (dir.writeHint id bytes).disk.Alike (dir'.writeHint id bytes).disk where
  files := h.files
  hints other := by
    rw [Dir.hints_writeHint, Dir.hints_writeHint]
    by_cases heq : other = id
    · rw [heq, AList.lookup_insert, AList.lookup_insert]
    · rw [AList.lookup_insert_ne heq, AList.lookup_insert_ne heq]
      exact h.hints other
  unlinked := h.unlinked

theorem create {dir dir' : Dir} (h : dir.disk.Alike dir'.disk) (id : FileId) :
    (dir.create id).disk.Alike (dir'.create id).disk where
  files other := by
    rw [Dir.lookup_create, Dir.lookup_create]
    by_cases heq : other = id
    · rw [if_pos heq, if_pos heq, Option.map_some, Option.map_some]
      exact congrArg some (h.contents id)
    · rw [if_neg heq, if_neg heq]
      exact h.files other
  hints other := by
    rw [Dir.hints_create, Dir.hints_create]
    exact h.hints other
  unlinked := by
    have hsame : forall d : Dir, (d.create id).disk.unlinked =
        d.disk.unlinked := by
      intro d
      unfold Dir.create
      split <;> rfl
    rw [hsame, hsame]
    exact h.unlinked

theorem load {disk disk' : Disk} (h : disk.Alike disk') (id : FileId)
    (fileLen : Nat) : Hint.load disk' id fileLen = Hint.load disk id fileLen := by
  rw [Hint.load, Hint.load, h.hints id]

theorem readEntries {dir dir' : Dir} (h : dir.disk.Alike dir'.disk)
    {opts : Options} {id : FileId} {isNewest : Bool} {es : List HintEntry}
    {read : Dir}
    (hread : readEntries dir opts id isNewest = Except.ok (es, read)) :
    exists read', Minicask.readEntries dir' opts id isNewest =
        Except.ok (es, read') ∧ read.disk.Alike read'.disk := by
  unfold Minicask.readEntries at hread ⊢
  unfold Scanner.openAt at hread ⊢
  dsimp only at hread ⊢
  rw [h.contents id, h.load]
  generalize (if opts.verifyOnOpen then ([], 0)
    else (Hint.load dir.disk id (dir.disk.contents id).length).getD ([], 0)) =
      start at hread ⊢
  split at hread
  · rename_i hless
    rw [if_pos hless]
    split at hread
    · split at hread
      · cases hread
      · rename_i hnewest
        cases hread
        rw [if_neg hnewest]
        exact ⟨_, rfl, (h.setLen id _).syncData id⟩
    · split at hread
      · rename_i hnewest
        cases hread
        rw [if_pos hnewest]
        exact ⟨_, rfl, h⟩
      · rename_i hnewest
        cases hread
        rw [if_neg hnewest]
        exact ⟨_, rfl, (h.syncData id).writeHint id _⟩
  · rename_i hless
    rw [if_neg hless]
    cases hread
    exact ⟨_, rfl, h⟩

end Disk.Alike

theorem index_withDir (id : FileId) (es : List HintEntry) (o : Opening)
    (dir : Dir) :
    es.foldl (indexEntry id) { o with dir := dir } =
      { es.foldl (indexEntry id) o with dir := dir } := by
  induction es generalizing o with
  | nil => rfl
  | cons e es ih =>
      rw [List.foldl_cons, List.foldl_cons, ← ih]
      congr 1
      unfold indexEntry
      by_cases htombstone : e.tombstone = true
      · rw [if_pos htombstone, if_pos htombstone]
      · rw [if_neg htombstone, if_neg htombstone]

theorem removeLeftovers_eq (dir : Dir) (ids : List FileId) :
    (removeLeftovers dir ids).disk.data = dir.disk.data ∧
      (removeLeftovers dir ids).disk.unlinked = dir.disk.unlinked ∧
      forall id, (removeLeftovers dir ids).disk.hints.lookup id =
        if id ∈ ids then dir.disk.hints.lookup id else none := by
  have hparts : forall (l : List FileId) (d : Dir),
      (l.foldl Dir.removePart d).disk.unlinked = d.disk.unlinked := by
    intro l
    induction l with
    | nil => exact fun _ => rfl
    | cons id l ih => exact fun d => ih (d.removePart id)
  have hhints : forall (l : List FileId) (d : Dir),
      (l.foldl Dir.removeHint d).disk.unlinked = d.disk.unlinked := by
    intro l
    induction l with
    | nil => exact fun _ => rfl
    | cons id l ih =>
        intro d
        refine (ih (d.removeHint id)).trans ?_
        unfold Dir.removeHint
        split <;> rfl
  unfold removeLeftovers
  dsimp only
  rcases foldl_removePart dir.disk.parts.keys dir with ⟨hdata, hsame, _⟩
  have hunlinked := hparts dir.disk.parts.keys dir
  generalize dir.disk.parts.keys.foldl Dir.removePart dir = cleared at *
  rcases foldl_removeHint (cleared.disk.hints.keys.filter
    (fun id => !ids.contains id)) cleared with ⟨hdata', _, hlookup⟩
  refine ⟨hdata'.trans hdata, (hhints _ cleared).trans hunlinked, ?_⟩
  intro id
  rw [hlookup id, hsame]
  by_cases hid : id ∈ ids
  · rw [if_pos hid, if_neg (by simp [hid])]
  · rw [if_neg hid]
    by_cases hin : id ∈ dir.disk.hints
    · rw [if_pos (by simp [hid, AList.mem_keys.mp hin])]
    · rw [AList.lookup_eq_none.mpr hin, ite_self]

namespace Disk.Alike

theorem openLoop {opts : Options} {newest : Option FileId}
    {ids : List FileId} {o opened : Opening} {dir : Dir}
    (h : o.dir.disk.Alike dir.disk)
    (hloop : openLoop opts newest ids o = Except.ok opened) :
    exists dir', Minicask.openLoop opts newest ids { o with dir := dir } =
        Except.ok { opened with dir := dir' } ∧
      opened.dir.disk.Alike dir'.disk := by
  induction ids generalizing o dir with
  | nil =>
      cases hloop
      exact ⟨dir, rfl, h⟩
  | cons id ids ih =>
      rw [Minicask.openLoop] at hloop ⊢
      cases hread : Minicask.readEntries o.dir opts id (newest == some id) with
      | error e =>
          rw [hread] at hloop
          cases hloop
      | ok read =>
          rw [hread] at hloop
          rcases h.readEntries hread with ⟨read', hread', halike⟩
          rw [hread']
          dsimp only at hloop ⊢
          rw [index_withDir] at hloop ⊢
          by_cases hnewest : (newest == some id) = true
          · rw [if_pos hnewest] at hloop ⊢
            exact ih halike hloop
          · rw [if_neg hnewest] at hloop ⊢
            exact ih (o := { read.1.foldl (indexEntry id) o with
              dir := read.2 }) halike hloop

theorem removeLeftovers {dir dir' : Dir} (h : dir.disk.Alike dir'.disk)
    (ids : List FileId) :
    (removeLeftovers dir ids).disk.Alike
      (Minicask.removeLeftovers dir' ids).disk := by
  rcases removeLeftovers_eq dir ids with ⟨hdata, hunlinked, hhints⟩
  rcases removeLeftovers_eq dir' ids with ⟨hdata', hunlinked', hhints'⟩
  constructor
  · rw [hdata, hdata']
    exact h.files
  · intro id
    rw [hhints, hhints', h.hints id]
  · rw [hunlinked, hunlinked']
    exact h.unlinked

/-- A store opens on both or on neither, and reads the same. -/
theorem openWith {dir dir' : Dir} (h : dir.disk.Alike dir'.disk)
    {opts : Options} {s : Store}
    (hopen : Store.openWith dir opts = Except.ok s) :
    exists s', Store.openWith dir' opts = Except.ok s' ∧ s.AnswersAs s' := by
  unfold Store.openWith at hopen ⊢
  dsimp only at hopen ⊢
  rw [h.listDataFiles]
  cases hloop : Minicask.openLoop opts dir.disk.listDataFiles.getLast?
      dir.disk.listDataFiles
      { dir := Minicask.removeLeftovers dir dir.disk.listDataFiles } with
  | error e =>
      rw [hloop] at hopen
      cases hopen
  | ok o =>
      rw [hloop] at hopen
      rcases openLoop (h.removeLeftovers dir.disk.listDataFiles) hloop with
        ⟨dir'', hloop', halike⟩
      rw [hloop']
      cases hopen
      have hcreated := halike.create (dir.disk.listDataFiles.getLast?.getD 1)
      refine ⟨_, rfl, ?_, fun _ => Iff.rfl⟩
      intro k
      have hlength := congrArg List.length
        (hcreated.contents (dir.disk.listDataFiles.getLast?.getD 1))
      unfold Store.get readValue readRecord Dir.readAt LogWriter.openFile
      dsimp only
      simp only [hcreated.handle, hlength]

end Disk.Alike

end Minicask
