import Minicask.Raft.EntryLogs
import Minicask.Raft.FrameSizes

/-!
# Budgeted batches

A batch is a run of the log from a given index.  It goes on for as long as there is
room in the budget, which counts an entry as the bytes it takes in a message.
-/

namespace Minicask
namespace Raft

class Storage (σ : Type) where
  snapshotMeta : σ -> SnapshotMeta
  lastIndex : σ -> Nat
  entry : σ -> Nat -> Option Entry

instance : Storage MemStorage where
  snapshotMeta := MemStorage.snapshotMeta
  lastIndex := MemStorage.lastIndex
  entry := MemStorage.entry

instance : Storage DiskStorage where
  snapshotMeta := DiskStorage.snapshotMeta
  lastIndex := DiskStorage.lastIndex
  entry := DiskStorage.entry

namespace StorageExt

variable {σ : Type} [Storage σ] (s : σ)

def firstIndex : Nat :=
  (Storage.snapshotMeta s).index + 1

/-- The loop of `entriesWithin`, over the indices still to visit. -/
def entriesWithinLoop (maxBytes : Nat) :
    List Nat -> List Entry -> Nat -> List Entry
  | [], out, _ => out
  | i :: rest, out, total =>
      match Storage.entry s i with
      | none => out
      | some e =>
          if !out.isEmpty && total + e.encodedLen > maxBytes then out
          else entriesWithinLoop maxBytes rest (out ++ [e]) (total + e.encodedLen)

def entriesWithin (index maxBytes : Nat) : List Entry :=
  entriesWithinLoop s maxBytes
    (MemStorage.indices (max index (firstIndex s)) (Storage.lastIndex s)) [] 0

/-- A storage holds the entries after its snapshot up to its last index, each at its
own. -/
structure Gapless : Prop where
  held : forall i, (Storage.entry s i).isSome ↔
    firstIndex s <= i ∧ i <= Storage.lastIndex s
  index : forall i e, Storage.entry s i = some e -> e.index = i

end StorageExt

/-!
# Both storages
-/

theorem MemStorage.entriesWithin_eq_ext (s : MemStorage) (index maxBytes : Nat) :
    s.entriesWithin index maxBytes =
      StorageExt.entriesWithin s index maxBytes := by
  have hloop : forall (range : List Nat) (out : List Entry) (total : Nat),
      s.entriesWithinLoop maxBytes range out total =
        StorageExt.entriesWithinLoop s maxBytes range out total := by
    intro range
    induction range with
    | nil =>
        intro out total
        rfl
    | cons i range ih =>
        intro out total
        unfold MemStorage.entriesWithinLoop StorageExt.entriesWithinLoop
        simp only [ih]
        rfl
  exact hloop _ [] 0

theorem Follows.index_of_entry {log : EntryLog}
    (h : Follows log.base.index log.entries) {i : Nat} {e : Entry}
    (he : log.entry i = some e) : e.index = i := by
  rw [h.entry] at he
  split at he
  · have hindex := h.index he
    omega
  · cases he

theorem MemStorage.gapless {s : MemStorage}
    (h : Follows s.log.base.index s.log.entries) : StorageExt.Gapless s where
  held := h.entry_isSome
  index := fun _ _ he => h.index_of_entry he

theorem DiskStorage.gapless {s : DiskStorage}
    (h : Follows s.log.base.index s.log.entries) : StorageExt.Gapless s where
  held := h.entry_isSome
  index := fun _ _ he => h.index_of_entry he

/-!
# What the loop takes
-/

namespace StorageExt

def size (batch : List Entry) : Nat :=
  (batch.map Entry.encodedLen).sum

theorem size_append (batch more : List Entry) :
    size (batch ++ more) = size batch + size more := by
  simp [size]

theorem size_singleton (e : Entry) : size [e] = e.encodedLen := by
  simp [size]

variable {σ : Type} [Storage σ] {s : σ}

/-- Where the loop is, what it has is within the budget or a single entry, and it
stops short of its range only where nothing is held or the next entry has no room. -/
theorem entriesWithinLoop_spec (maxBytes : Nat) :
    forall (count first : Nat) (out : List Entry),
      (out.length <= 1 ∨ size out <= maxBytes) ->
      exists more, entriesWithinLoop s maxBytes (List.range' first count) out
          (size out) = out ++ more ∧
        (forall k e, more[k]? = some e ->
          Storage.entry s (first + k) = some e) ∧
        ((out ++ more).length <= 1 ∨ size (out ++ more) <= maxBytes) ∧
        (more.length < count ->
          forall e, Storage.entry s (first + more.length) = some e ->
            out ++ more ≠ [] ∧
              maxBytes < size (out ++ more) + e.encodedLen) := by
  intro count
  induction count with
  | zero =>
      intro first out hout
      refine ⟨[], ?_, ?_, ?_, ?_⟩
      · rw [List.append_nil]
        rfl
      · intro k e hk
        cases hk
      · rwa [List.append_nil]
      · intro hlt
        exact absurd hlt (Nat.not_lt_zero _)
  | succ count ih =>
      intro first out hout
      rw [List.range'_succ]
      unfold entriesWithinLoop
      cases hentry : Storage.entry s first with
      | none =>
          refine ⟨[], (List.append_nil out).symm, ?_, ?_, ?_⟩
          · intro k e hk
            cases hk
          · rwa [List.append_nil]
          · intro _ e he
            rw [List.length_nil, Nat.add_zero, hentry] at he
            cases he
      | some e =>
          dsimp only
          split
          · next hfull =>
              simp only [Bool.and_eq_true, Bool.not_eq_true', List.isEmpty_eq_false_iff,
                decide_eq_true_iff] at hfull
              refine ⟨[], (List.append_nil out).symm, ?_, ?_, ?_⟩
              · intro k e' hk
                cases hk
              · rwa [List.append_nil]
              · intro _ e' he'
                rw [List.length_nil, Nat.add_zero, hentry] at he'
                cases he'
                rw [List.append_nil]
                exact hfull
          · next hroom =>
              simp only [Bool.and_eq_true, Bool.not_eq_true', List.isEmpty_eq_false_iff,
                decide_eq_true_iff, not_and, Nat.not_lt] at hroom
              have hsize : size out + e.encodedLen = size (out ++ [e]) := by
                rw [size_append, size_singleton]
              have hnext : (out ++ [e]).length <= 1 ∨ size (out ++ [e]) <= maxBytes := by
                cases out with
                | nil => exact Or.inl (Nat.le_refl 1)
                | cons first rest =>
                    rw [← hsize]
                    exact Or.inr (hroom (List.cons_ne_nil first rest))
              rw [hsize]
              rcases ih (first + 1) (out ++ [e]) hnext with
                ⟨more, hmore, hheld, hbudget, hstop⟩
              have happend : out ++ [e] ++ more = out ++ e :: more := by
                rw [List.append_assoc]
                rfl
              rw [happend] at hmore hbudget hstop
              refine ⟨e :: more, hmore, ?_, hbudget, ?_⟩
              · intro k e' hk
                cases k with
                | zero =>
                    cases hk
                    exact hentry
                | succ k =>
                    have hlater := hheld k e' hk
                    rwa [Nat.add_right_comm] at hlater
              · intro hlt e' he'
                rw [List.length_cons, Nat.add_comm more.length 1,
                  ← Nat.add_assoc] at he'
                exact hstop (Nat.lt_of_succ_lt_succ hlt) e' he'

/-- A run of the log from an index on, as long as a budget allows. -/
structure Fills (s : σ) (index maxBytes : Nat) (batch : List Entry) : Prop where
  consecutive : forall k e, batch[k]? = some e ->
    e.index = max index (firstIndex s) + k ∧ Storage.entry s e.index = some e
  empty_iff : batch = [] ↔
    forall i, max index (firstIndex s) <= i -> Storage.entry s i = none
  budget : batch.length = 1 ∨ size batch <= maxBytes
  maximal : forall e,
    Storage.entry s (max index (firstIndex s) + batch.length) = some e ->
      maxBytes < size batch + e.encodedLen

theorem fills_entriesWithin (h : Gapless s) (index maxBytes : Nat) :
    Fills s index maxBytes (entriesWithin s index maxBytes) := by
  rcases entriesWithinLoop_spec (s := s) maxBytes
      (Storage.lastIndex s + 1 - max index (firstIndex s))
      (max index (firstIndex s)) [] (Or.inl (Nat.zero_le 1)) with
    ⟨batch, hbatch, hheld, hbudget, hstop⟩
  have heq : entriesWithin s index maxBytes = batch := hbatch
  rw [List.nil_append] at hbudget
  have hlast : forall i e, Storage.entry s i = some e -> i <= Storage.lastIndex s := by
    intro i e he
    exact ((h.held i).mp (by rw [he]; rfl)).2
  rw [heq]
  refine ⟨?_, ?_, ?_, ?_⟩
  · intro k e hk
    have hentry := hheld k e hk
    have hindex := h.index _ e hentry
    rw [hindex]
    exact ⟨rfl, hentry⟩
  · constructor
    · intro hempty i hi
      by_contra hsome
      have hin := (h.held i).mp (Option.isSome_iff_ne_none.mpr hsome)
      have hfirst : (Storage.entry s (max index (firstIndex s))).isSome :=
        (h.held _).mpr ⟨Nat.le_max_right _ _, by omega⟩
      rcases Option.isSome_iff_exists.mp hfirst with ⟨e, he⟩
      rw [hempty] at hstop
      exact (hstop (by rw [List.length_nil]; omega) e he).1 rfl
    · intro hnone
      cases batch with
      | nil => rfl
      | cons e rest =>
          have hentry := hheld 0 e rfl
          rw [hnone _ (Nat.le_add_right _ 0)] at hentry
          cases hentry
  · rcases hbudget with hone | hle
    · cases batch with
      | nil => exact Or.inr (Nat.zero_le maxBytes)
      | cons e rest => exact Or.inl (Nat.le_antisymm hone (Nat.succ_pos _))
    · exact Or.inr hle
  · intro e he
    have hin := hlast _ e he
    exact (hstop (by omega) e he).2

/-- An entry has a place of its own in a message, between the others. -/
theorem encode_appendEntries_cons
    (term prevLogIndex prevLogTerm leaderCommit seq : Nat)
    (before after : List Entry) (e : Entry) :
    Wire.encode (Message.appendEntries term prevLogIndex prevLogTerm
        (before ++ e :: after) leaderCommit seq) =
      [Wire.appendEntriesTag] ++
            Wire.putU64 [term, prevLogIndex, prevLogTerm, leaderCommit, seq,
              before.length + (after.length + 1)] ++
          before.flatMap Wire.putEntry ++
        Wire.putEntry e ++ after.flatMap Wire.putEntry := by
  unfold Wire.encode
  simp only [List.flatMap_append, List.flatMap_cons, List.length_append,
    List.length_cons, List.append_assoc]

/-- A batch fills its budget, and the budget counts each entry as the bytes that it
takes up between the others of a message. -/
theorem entries_within_maximal (h : Gapless s) (index maxBytes : Nat) :
    Fills s index maxBytes (entriesWithin s index maxBytes) ∧
      forall term prevLogIndex prevLogTerm leaderCommit seq before after,
        exists front back, forall e : Entry,
          Wire.encode (Message.appendEntries term prevLogIndex prevLogTerm
              (before ++ e :: after) leaderCommit seq) =
            front ++ Wire.putEntry e ++ back ∧
            (Wire.putEntry e).length = e.encodedLen := by
  refine ⟨fills_entriesWithin h index maxBytes, ?_⟩
  intro term prevLogIndex prevLogTerm leaderCommit seq before after
  exact ⟨_, _, fun e => ⟨encode_appendEntries_cons term prevLogIndex prevLogTerm
    leaderCommit seq before after e, length_putEntry e⟩⟩

def batchStorage : MemStorage where
  log :=
    { base := { index := 2, term := 1 }
      entries :=
        [{ term := 1, index := 3, command := Command.data [7] },
          { term := 1, index := 4, command := Command.noop },
          { term := 2, index := 5, command := Command.config [] }] }

/-- The batch starts after the snapshot, and the third entry has no room. -/
theorem entries_within_maximal_clamped :
    entriesWithin batchStorage 1 60 = batchStorage.log.entries.take 2 ∧
      Fills batchStorage 1 60 (entriesWithin batchStorage 1 60) := by
  have hfollows : Follows 2 batchStorage.log.entries := ⟨rfl, rfl, rfl, trivial⟩
  exact ⟨by decide, (entries_within_maximal (MemStorage.gapless hfollows) 1 60).1⟩

end StorageExt

/-!
# Storages in use
-/

/-- In every run of calls, both storages hold a log without gaps. -/
theorem gapless_run (stamp : Entry -> UInt64) (calls : List StorageCall)
    (hallows : ({} : MemClient).AllowsAll calls) :
    exists s c, DiskStorage.openDir {} stamp = Except.ok s ∧
      DiskClient.run { storage := s } calls = Except.ok c ∧
      StorageExt.Gapless c.storage ∧
      StorageExt.Gapless (({} : MemClient).run calls).storage := by
  rcases storages_denote stamp calls hallows with
    ⟨s, c, l, hopen, hrun, hdisk, hmem⟩
  exact ⟨s, c, hopen, hrun, DiskStorage.gapless hdisk.follows,
    MemStorage.gapless hmem.follows⟩

theorem MemStorage.fills_entriesWithin {s : MemStorage}
    (h : Follows s.log.base.index s.log.entries) (index maxBytes : Nat) :
    StorageExt.Fills s index maxBytes (s.entriesWithin index maxBytes) := by
  rw [s.entriesWithin_eq_ext]
  exact StorageExt.fills_entriesWithin (MemStorage.gapless h) index maxBytes

end Raft
end Minicask
