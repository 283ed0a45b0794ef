import Mathlib.Data.List.AList
import Mathlib.Data.List.Sort
import Minicask.Record

/-!
# The store's directory

The files a store keeps: data files, merges still being written, hints, and the
applied index beside them.  A directory also remembers every state its files have
been through, since those are what a crash can leave behind.

A file that is unlinked stays readable through handles that were open on it.  No
id is used twice while a handle is open, so a handle is named by its file's id.
-/

namespace Minicask

/-- A file's bytes, and how many of them a power cut is sure to leave. -/
structure File where
  bytes : Bytes := []
  synced : Nat := 0
  synced_le : synced <= bytes.length := by simp
deriving DecidableEq

namespace File

abbrev empty : File := {}

/-- Every writer appends. -/
def writeAll (file : File) (bytes : Bytes) : File where
  bytes := file.bytes ++ bytes
  synced := file.synced
  synced_le := by
    rw [List.length_append]
    exact Nat.le_add_right_of_le file.synced_le

def syncData (file : File) : File where
  bytes := file.bytes
  synced := file.bytes.length
  synced_le := Nat.le_refl _

def setLen (file : File) (len : Nat) : File where
  bytes := file.bytes.take len
  synced := min file.synced len
  synced_le := by
    have := file.synced_le
    rw [List.length_take]
    omega

end File

structure Disk where
  data : AList (fun _ : FileId => File) := ∅
  parts : AList (fun _ : FileId => Bytes) := ∅
  hints : AList (fun _ : FileId => Bytes) := ∅
  appliedIndex : Option Bytes := none
  /-- What the files that are gone held. -/
  unlinked : FileId -> Bytes := fun _ => []

structure Dir where
  disk : Disk := {}
  past : List Disk := []

/-- Oldest first. -/
def sortedIds (ids : List FileId) : List FileId :=
  ids.insertionSort (· <= ·)

namespace Disk

def contents (disk : Disk) (id : FileId) : Bytes :=
  ((disk.data.lookup id).getD {}).bytes

/-- How much of a data file is sure to survive. -/
def synced (disk : Disk) (id : FileId) : Nat :=
  ((disk.data.lookup id).getD {}).synced

/-- What a handle that was open on a data file reads. -/
def handle (disk : Disk) (id : FileId) : Bytes :=
  match disk.data.lookup id with
  | some file => file.bytes
  | none => disk.unlinked id

def listDataFiles (disk : Disk) : List FileId :=
  sortedIds disk.data.keys

end Disk

namespace Dir

def move (dir : Dir) (disk : Disk) : Dir where
  disk := disk
  past := dir.disk :: dir.past

def modify (dir : Dir) (id : FileId) (change : File -> File) : Dir :=
  match dir.disk.data.lookup id with
  | some file =>
      dir.move { dir.disk with data := dir.disk.data.insert id (change file) }
  | none => dir

def create (dir : Dir) (id : FileId) : Dir :=
  if id ∈ dir.disk.data then dir
  else dir.move { dir.disk with data := dir.disk.data.insert id {} }

def writeAll (dir : Dir) (id : FileId) (bytes : Bytes) : Dir :=
  dir.modify id (fun file => file.writeAll bytes)

def syncData (dir : Dir) (id : FileId) : Dir :=
  dir.modify id File.syncData

def setLen (dir : Dir) (id : FileId) (len : Nat) : Dir :=
  dir.modify id (fun file => file.setLen len)

/-- A read that has to find all it asks for. -/
def readAt (dir : Dir) (id : FileId) (offset : Nat) (len : UInt32) :
    Except Error Bytes :=
  let bytes := dir.disk.handle id
  if offset + len.toNat <= bytes.length then
    Except.ok (slice bytes offset (offset + len.toNat))
  else Except.error (Error.io "failed to fill whole buffer")

def removeData (dir : Dir) (id : FileId) : Dir :=
  match dir.disk.data.lookup id with
  | some file =>
      dir.move { dir.disk with
        data := dir.disk.data.erase id
        unlinked := Function.update dir.disk.unlinked id file.bytes }
  | none => dir

/-- Written beside the target and renamed over it, so all there is to see is the
old hint or the new one. -/
def writeHint (dir : Dir) (id : FileId) (bytes : Bytes) : Dir :=
  dir.move { dir.disk with hints := dir.disk.hints.insert id bytes }

def removeHint (dir : Dir) (id : FileId) : Dir :=
  if id ∈ dir.disk.hints then
    dir.move { dir.disk with hints := dir.disk.hints.erase id }
  else dir

/-- A part file appears, or is written. -/
def writePart (dir : Dir) (id : FileId) (bytes : Bytes) : Dir :=
  dir.move { dir.disk with parts := dir.disk.parts.insert id bytes }

def removePart (dir : Dir) (id : FileId) : Dir :=
  dir.move { dir.disk with parts := dir.disk.parts.erase id }

/-- A synced part file takes its place among the data files. -/
def renamePart (dir : Dir) (id : FileId) : Dir :=
  match dir.disk.parts.lookup id with
  | some bytes =>
      dir.move { dir.disk with
        parts := dir.disk.parts.erase id
        data := dir.disk.data.insert id
          (File.syncData (File.writeAll {} bytes)) }
  | none => dir

def writeAppliedIndex (dir : Dir) (bytes : Bytes) : Dir :=
  dir.move { dir.disk with appliedIndex := some bytes }

/-!
# What each step leaves
-/

theorem lookup_modify (dir : Dir) (id : FileId) (change : File -> File)
    (other : FileId) :
    (dir.modify id change).disk.data.lookup other =
      if other = id then (dir.disk.data.lookup id).map change
      else dir.disk.data.lookup other := by
  unfold modify
  cases hlookup : dir.disk.data.lookup id with
  | none =>
      by_cases h : other = id
      · subst h
        simp [hlookup]
      · simp [h]
  | some file =>
      by_cases h : other = id
      · subst h
        simp [move]
      · simp [move, h, AList.lookup_insert_ne h]

theorem lookup_create (dir : Dir) (id other : FileId) :
    (dir.create id).disk.data.lookup other =
      if other = id then some ((dir.disk.data.lookup id).getD {})
      else dir.disk.data.lookup other := by
  unfold create
  by_cases hmem : id ∈ dir.disk.data
  · rw [if_pos hmem]
    rcases Option.isSome_iff_exists.mp (AList.lookup_isSome.mpr hmem) with
      ⟨file, hfile⟩
    by_cases h : other = id
    · subst h
      simp [hfile]
    · simp [h]
  · rw [if_neg hmem]
    have hnone := AList.lookup_eq_none.mpr hmem
    by_cases h : other = id
    · subst h
      simp [move, hnone]
    · simp [move, h, AList.lookup_insert_ne h]

theorem lookup_removeData (dir : Dir) (id other : FileId) :
    (dir.removeData id).disk.data.lookup other =
      if other = id then none else dir.disk.data.lookup other := by
  unfold removeData
  cases hlookup : dir.disk.data.lookup id with
  | none =>
      by_cases h : other = id
      · subst h
        simp [hlookup]
      · simp [h]
  | some file =>
      by_cases h : other = id
      · subst h
        simp [move]
      · simp [move, h, AList.lookup_erase_ne h]

@[simp] theorem hints_modify (dir : Dir) (id : FileId) (change : File -> File) :
    (dir.modify id change).disk.hints = dir.disk.hints := by
  unfold modify
  split <;> rfl

@[simp] theorem hints_create (dir : Dir) (id : FileId) :
    (dir.create id).disk.hints = dir.disk.hints := by
  unfold create
  split <;> rfl

@[simp] theorem hints_removeData (dir : Dir) (id : FileId) :
    (dir.removeData id).disk.hints = dir.disk.hints := by
  unfold removeData
  split <;> rfl

@[simp] theorem data_writeHint (dir : Dir) (id : FileId) (bytes : Bytes) :
    (dir.writeHint id bytes).disk.data = dir.disk.data := rfl

@[simp] theorem hints_writeHint (dir : Dir) (id : FileId) (bytes : Bytes) :
    (dir.writeHint id bytes).disk.hints = dir.disk.hints.insert id bytes := rfl

@[simp] theorem data_removeHint (dir : Dir) (id : FileId) :
    (dir.removeHint id).disk.data = dir.disk.data := by
  unfold removeHint
  split <;> rfl

theorem lookup_removeHint (dir : Dir) (id other : FileId) :
    (dir.removeHint id).disk.hints.lookup other =
      if other = id then none else dir.disk.hints.lookup other := by
  unfold removeHint
  by_cases hmem : id ∈ dir.disk.hints
  · rw [if_pos hmem]
    by_cases h : other = id
    · subst h
      simp [move]
    · simp [move, h, AList.lookup_erase_ne h]
  · rw [if_neg hmem]
    by_cases h : other = id
    · subst h
      simp [AList.lookup_eq_none.mpr hmem]
    · simp [h]

end Dir

/-!
# Every state a directory went through
-/

/-- A property of the files that held all along, and does now. -/
def Dir.Through (P : Disk -> Prop) (dir : Dir) : Prop :=
  P dir.disk ∧ forall disk, disk ∈ dir.past -> P disk

end Minicask
