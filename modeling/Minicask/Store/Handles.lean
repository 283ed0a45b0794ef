import Minicask.Store.Index

/-!
# What stays readable

Nothing in a file is ever overwritten, and a file that goes stays readable
through the handles that were open on it.  So whatever a handle could read it can
read in every later state, whether or not the store still points there.
-/

namespace Minicask

theorem handle_congr {disk disk' : Disk} {id : FileId}
    (hlookup : disk'.data.lookup id = disk.data.lookup id)
    (hunlinked : disk'.unlinked id = disk.unlinked id) :
    disk'.handle id = disk.handle id := by
  rw [Disk.handle, Disk.handle, hlookup, hunlinked]

/-- A handle outlives its file. -/
theorem handle_removeData (dir : Dir) (removed id : FileId) :
    (dir.removeData removed).disk.handle id = dir.disk.handle id := by
  by_cases heq : id = removed
  · subst heq
    rw [Disk.handle, Dir.lookup_removeData, if_pos rfl]
    unfold Dir.removeData
    cases hlookup : dir.disk.data.lookup id with
    | none => simp [Disk.handle, hlookup]
    | some file => simp [Disk.handle, hlookup, Dir.move]
  · apply handle_congr
    · rw [Dir.lookup_removeData, if_neg heq]
    · unfold Dir.removeData
      split
      · simp [Dir.move, heq]
      · rfl

theorem handle_removeFiles (dir : Dir) (ids : List FileId) (id : FileId) :
    (removeFiles dir ids).disk.handle id = dir.disk.handle id := by
  induction ids generalizing dir with
  | nil => rfl
  | cons head ids ih =>
      refine (ih _).trans ((handle_removeData _ head id).trans ?_)
      apply handle_congr
      · rw [Dir.data_removeHint]
      · unfold Dir.removeHint
        split <;> rfl

namespace Store

/-- Every handle still reads all it did. -/
structure Kept (s s' : Store) : Prop where
  newer : s.writer.fileId <= s'.writer.fileId
  handles : forall id, id <= s.writer.fileId ->
    s.dir.disk.handle id <+: s'.dir.disk.handle id

theorem Kept.refl (s : Store) : s.Kept s :=
  ⟨Nat.le_refl _, fun _ _ => List.prefix_refl _⟩

theorem Kept.trans {s s' s'' : Store} (h : s.Kept s') (h' : s'.Kept s'') :
    s.Kept s'' where
  newer := Nat.le_trans h.newer h'.newer
  handles id hid :=
    (h.handles id hid).trans (h'.handles id (Nat.le_trans hid h.newer))

/-- A later state of a store on which no job has finished in between. -/
structure Later (s s' : Store) : Prop extends Kept s s' where
  files : forall id, id < s.writer.fileId ->
    s'.dir.disk.data.lookup id = s.dir.disk.data.lookup id
  readers : forall id, id <= s.writer.fileId ->
    (id ∈ s'.readers ↔ id ∈ s.readers)
  keydir : forall k loc, s'.keydir.lookup k = some loc ->
    s.keydir.lookup k = some loc ∨ s.writer.fileId <= loc.fileId
  compacting : s'.compacting = s.compacting
  restoring : s'.restoring = s.restoring

theorem Later.refl (s : Store) : s.Later s where
  toKept := Kept.refl s
  files _ _ := rfl
  readers _ _ := Iff.rfl
  keydir _ _ h := Or.inl h
  compacting := rfl
  restoring := rfl

theorem Later.trans {s s' s'' : Store} (h : s.Later s') (h' : s'.Later s'') :
    s.Later s'' where
  toKept := h.toKept.trans h'.toKept
  files id hid :=
    (h'.files id (Nat.lt_of_lt_of_le hid h.newer)).trans (h.files id hid)
  readers id hid :=
    (h'.readers id (Nat.le_trans hid h.newer)).trans (h.readers id hid)
  keydir k loc hlookup := by
    rcases h'.keydir k loc hlookup with hold | hnew
    · exact h.keydir k loc hold
    · exact Or.inr (Nat.le_trans h.newer hnew)
  compacting := h'.compacting.trans h.compacting
  restoring := h'.restoring.trans h.restoring

theorem Advanced.kept {s s' : Store} {bytes : Bytes} (hok : s.Ok)
    (h : s.Advanced bytes s') : s.Kept s' where
  newer := Nat.le_of_eq h.appended.fileId.symm
  handles id _ := by
    by_cases heq : id = s.writer.fileId
    · rw [heq, handle_of_mem hok.writer.linked,
        handle_of_mem (h.appended.frame.linked hok.writer.linked)]
      exact h.appended.kept hok.writer
    · rewrite [handle_congr (h.appended.frame.lookup id heq)
        (congrFun h.appended.frame.unlinked id)]
      exact List.prefix_refl _

theorem Advanced.later {s s' : Store} {bytes : Bytes} (hok : s.Ok)
    (h : s.Advanced bytes s')
    (hkeydir : forall k loc, s'.keydir.lookup k = some loc ->
      s.keydir.lookup k = some loc ∨ loc.fileId = s'.writer.fileId)
    (hcompacting : s'.compacting = s.compacting)
    (hrestoring : s'.restoring = s.restoring) : s.Later s' where
  toKept := h.kept hok
  files id hid := h.appended.frame.lookup id (Nat.ne_of_lt hid)
  readers id _ := by rw [h.readers]
  keydir k loc hlookup := by
    rcases hkeydir k loc hlookup with hold | hnew
    · exact Or.inl hold
    · exact Or.inr (by rw [hnew, h.appended.fileId])
  compacting := hcompacting
  restoring := hrestoring

theorem later_sync {s : Store} (hok : s.Ok) : s.Later s.sync :=
  (advanced_sync hok).later hok (fun _ _ h => Or.inl h) rfl rfl

theorem later_sealInto {s : Store} (hok : s.Ok) {nextId : FileId}
    (hnext : s.writer.fileId < nextId) : s.Later (s.sealInto nextId) := by
  have hsync := later_sync hok
  refine ⟨⟨Nat.le_of_lt hnext, ?_⟩, ?_, ?_, fun _ _ h => Or.inl h, rfl, rfl⟩
  · intro id hle
    have hne : id ≠ nextId := Nat.ne_of_lt (Nat.lt_of_le_of_lt hle hnext)
    have hsame : (s.sealInto nextId).dir.disk.handle id =
        s.sync.dir.disk.handle id := by
      apply handle_congr
      · rw [lookup_sealInto, if_neg hne]
      · show ((Hint.write s.sync.dir s.sync.writer.fileId s.sync.writer.offset
          s.activeHints).create nextId).disk.unlinked id = _
        unfold Dir.create
        split <;> rfl
    rw [hsame]
    exact hsync.handles id hle
  · intro id hlt
    rw [lookup_sealInto, if_neg (Nat.ne_of_lt (Nat.lt_trans hlt hnext))]
    exact hsync.files id hlt
  · intro id hle
    have hne : id ≠ nextId := Nat.ne_of_lt (Nat.lt_of_le_of_lt hle hnext)
    show id ∈ s.readers.insert nextId ↔ _
    rw [List.mem_insert_iff]
    simp [hne]

theorem later_rollIfNeeded {s : Store} (hok : s.Ok) (incoming : Nat) :
    s.Later (s.rollIfNeeded incoming) := by
  unfold rollIfNeeded
  split
  · exact Later.refl s
  · exact later_sealInto hok (Nat.lt_succ_self _)

theorem Wrote.later {s s' : Store} {r : Rec} (hok : s.Ok)
    (h : s.Wrote r s') : s.Later s' := by
  rcases rolled hok r.bytes.length with
    ⟨hrolled, _, hkeydir, hrestoring, hcompacting⟩
  refine (later_rollIfNeeded hok r.bytes.length).trans
    (h.advanced.later hrolled ?_ (h.compacting.trans hcompacting.symm)
      (h.restoring.trans hrestoring.symm))
  intro k loc hlookup
  rw [hkeydir]
  exact h.keydir k loc hlookup

end Store

end Minicask
