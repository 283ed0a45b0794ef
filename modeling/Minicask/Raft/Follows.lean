import Minicask.Raft.Log

/-!
# Logs without gaps

A log is asked by index and kept by position.  Where each entry has the index after
the one before it, the two are a subtraction apart.
-/

namespace Minicask
namespace Raft

/-- Each entry has the index after the one before it. -/
def Follows : Nat -> List Entry -> Prop
  | _, [] => True
  | prev, entry :: rest => entry.index = prev + 1 ∧ Follows entry.index rest

namespace Follows

theorem append {prev : Nat} {entries others : List Entry}
    (h : Follows prev entries) (h' : Follows (prev + entries.length) others) :
    Follows prev (entries ++ others) := by
  induction entries generalizing prev with
  | nil => exact h'
  | cons entry entries ih =>
      refine ⟨h.1, ih h.2 ?_⟩
      rw [h.1, Nat.add_assoc, Nat.add_comm 1]
      exact h'

theorem take {prev : Nat} {entries : List Entry} (h : Follows prev entries)
    (keep : Nat) : Follows prev (entries.take keep) := by
  induction keep generalizing prev entries with
  | zero =>
      rw [List.take_zero]
      trivial
  | succ keep ih =>
      cases entries with
      | nil => exact h
      | cons entry entries => exact ⟨h.1, ih h.2⟩

theorem drop {prev : Nat} {entries : List Entry} (h : Follows prev entries)
    {skip : Nat} (hskip : skip <= entries.length) :
    Follows (prev + skip) (entries.drop skip) := by
  induction skip generalizing prev entries with
  | zero => exact h
  | succ skip ih =>
      cases entries with
      | nil => exact absurd hskip (Nat.not_succ_le_zero skip)
      | cons entry entries =>
          have hrest := ih h.2 (Nat.le_of_succ_le_succ hskip)
          rw [h.1, Nat.add_assoc, Nat.add_comm 1] at hrest
          exact hrest

theorem lastIndex {log : EntryLog} (h : Follows log.base.index log.entries) :
    log.lastIndex = log.base.index + log.entries.length := by
  rcases log with ⟨base, entries⟩
  dsimp only at h ⊢
  rcases List.eq_nil_or_concat' entries with rfl | ⟨front, last, rfl⟩
  · rfl
  · have hlast : Follows (base.index + front.length)
        ((front ++ [last]).drop front.length) :=
      h.drop (by simp)
    rw [List.drop_left] at hlast
    unfold EntryLog.lastIndex
    dsimp only
    rw [List.getLast?_concat]
    show last.index = _
    rw [hlast.1, List.length_append]
    rfl

theorem of_index {prev : Nat} {entries : List Entry}
    (h : forall k e, entries[k]? = some e -> e.index = prev + 1 + k) :
    Follows prev entries := by
  induction entries generalizing prev with
  | nil => trivial
  | cons entry entries ih =>
      have hfirst : entry.index = prev + 1 := h 0 entry rfl
      refine ⟨hfirst, ih ?_⟩
      intro k e hk
      have hnext := h (k + 1) e hk
      omega

theorem index {prev : Nat} {entries : List Entry} (h : Follows prev entries)
    {k : Nat} {e : Entry} (hk : entries[k]? = some e) : e.index = prev + 1 + k := by
  induction entries generalizing prev k with
  | nil => cases hk
  | cons entry entries ih =>
      cases k with
      | zero =>
          obtain rfl := Option.some.inj hk
          exact h.1
      | succ k =>
          have hnext := ih h.2 hk
          rw [h.1] at hnext
          omega

section Log

variable {log : EntryLog} (h : Follows log.base.index log.entries)

include h

theorem entry (i : Nat) :
    log.entry i =
      if log.base.index < i then log.entries[i - log.base.index - 1]? else none := by
  unfold EntryLog.entry EntryLog.position
  rw [h.lastIndex]
  by_cases hi : log.base.index < i
  · rw [if_pos hi]
    by_cases hlen : i <= log.base.index + log.entries.length
    · rw [if_neg (by omega)]
      rfl
    · rw [if_pos (by omega), List.getElem?_eq_none (by omega)]
      rfl
  · rw [if_neg hi, if_pos (by omega)]
    rfl

theorem termAt_le {i t : Nat} (ht : log.termAt i = some t) :
    log.base.index <= i ∧ i <= log.base.index + log.entries.length := by
  unfold EntryLog.termAt at ht
  split at ht
  · omega
  · rw [h.entry] at ht
    split at ht
    · obtain ⟨e, he, _⟩ := Option.map_eq_some_iff.mp ht
      have hlt := (List.getElem?_eq_some_iff.mp he).1
      omega
    · cases ht

theorem termAt_eq {i : Nat} (hi : log.base.index < i) :
    log.termAt i =
      (log.entries[i - log.base.index - 1]?).map Entry.term := by
  unfold EntryLog.termAt
  rw [if_neg (by omega), h.entry, if_pos hi]

end Log

theorem pushed {log : EntryLog} (h : Follows log.base.index log.entries)
    {entries : List Entry} (hentries : Follows log.lastIndex entries) :
    Follows (entries.foldl EntryLog.push log).base.index
      (entries.foldl EntryLog.push log).entries := by
  rw [h.lastIndex] at hentries
  rw [foldl_push]
  exact h.append hentries

theorem lastIndex_append {s : MemStorage}
    (h : Follows s.log.base.index s.log.entries) {entries : List Entry}
    (hentries : Follows s.lastIndex entries) :
    (s.append entries).lastIndex = s.lastIndex + entries.length := by
  have hlast : s.lastIndex = s.log.base.index + s.log.entries.length := h.lastIndex
  refine (h.pushed hentries).lastIndex.trans ?_
  rw [foldl_push, List.length_append, hlast, Nat.add_assoc]

end Follows

namespace EntryLog

theorem entry_eq_some {log : EntryLog} {i : Nat} {e : Entry}
    (h : log.entry i = some e) :
    log.base.index < i ∧ log.entries[i - log.base.index - 1]? = some e := by
  unfold entry position at h
  split at h
  · cases h
  · next hrange =>
      rw [not_or] at hrange
      exact ⟨Nat.lt_of_not_le hrange.1, h⟩

theorem compact_snd {log : EntryLog} {about : SnapshotMeta}
    (h : log.base.index < about.index) :
    (log.compact about).2 =
      { base := about
        entries :=
          if (log.entry about.index).map Entry.term = some about.term then
            log.entries.drop (about.index - log.base.index)
          else [] } := by
  unfold compact
  rw [if_neg (Nat.not_le.mpr h)]
  unfold termAt
  rw [if_neg (Nat.ne_of_gt h)]

theorem follows_compact {log : EntryLog} {about : SnapshotMeta}
    (h : log.base.index < about.index)
    (hfollows : Follows log.base.index log.entries) :
    Follows about.index (log.compact about).2.entries := by
  rw [compact_snd h]
  dsimp only
  split
  · next hterm =>
      have hheld : about.index <= log.lastIndex := by
        by_contra hpast
        have hnone : log.entry about.index = none := by
          unfold entry position
          rw [if_pos (Or.inr (Nat.lt_of_not_le hpast))]
          rfl
        rw [hnone] at hterm
        cases hterm
      rw [hfollows.lastIndex] at hheld
      have hdrop : Follows (log.base.index + (about.index - log.base.index))
          (log.entries.drop (about.index - log.base.index)) :=
        hfollows.drop (by omega)
      rwa [Nat.add_sub_cancel' (Nat.le_of_lt h)] at hdrop
  · trivial

end EntryLog

namespace MemStorage

theorem installSnapshot_mem {s : MemStorage} {sink : MemSnapshot}
    (hnewer : s.log.base.index < sink.about.index) :
    s.installSnapshot sink =
      { s with
        log := (s.log.compact sink.about).2
        snapshot := sink.data
        snapshotMembers := sink.members } := by
  unfold installSnapshot EntryLog.compact
  rw [if_neg (Nat.not_le.mpr hnewer)]

theorem installSnapshot_stale {s : MemStorage} {sink : MemSnapshot}
    (hstale : sink.about.index <= s.log.base.index) :
    s.installSnapshot sink = s := by
  unfold installSnapshot EntryLog.compact
  rw [if_pos hstale]

/-- Installed or not, the snapshot is at least as new afterwards. -/
theorem base_installSnapshot (s : MemStorage) (sink : MemSnapshot) :
    sink.about.index <= (s.installSnapshot sink).log.base.index := by
  rcases Nat.lt_or_ge s.log.base.index sink.about.index with hnewer | hstale
  · rw [installSnapshot_mem hnewer]
    dsimp only
    rw [EntryLog.compact_snd hnewer]
  · rw [installSnapshot_stale hstale]
    exact hstale

theorem follows_installSnapshot {s : MemStorage} (sink : MemSnapshot)
    (h : Follows s.log.base.index s.log.entries) :
    Follows (s.installSnapshot sink).log.base.index
      (s.installSnapshot sink).log.entries := by
  rcases Nat.lt_or_ge s.log.base.index sink.about.index with hnewer | hstale
  · have hcompact := EntryLog.follows_compact hnewer h
    rw [installSnapshot_mem hnewer]
    dsimp only
    rwa [EntryLog.compact_snd hnewer] at hcompact ⊢
  · rw [installSnapshot_stale hstale]
    exact h

/-- A budgeted batch is a run of the log, with at least one entry where there is
one. -/
theorem entriesWithinLoop_follows {s : MemStorage}
    (h : Follows s.log.base.index s.log.entries) (maxBytes : Nat) :
    forall (count first : Nat) (out : List Entry) (total : Nat),
      s.log.base.index < first -> first + count <= s.lastIndex + 1 ->
      exists k, entriesWithinLoop s maxBytes (List.range' first count) out total =
          out ++ (s.log.entries.drop (first - s.log.base.index - 1)).take k ∧
        (out = [] -> 0 < count -> 0 < k) := by
  intro count
  induction count with
  | zero =>
      intro first out total _ _
      refine ⟨0, ?_, fun _ hcount => absurd hcount (Nat.lt_irrefl 0)⟩
      rw [List.take_zero, List.append_nil]
      rfl
  | succ count ih =>
      intro first out total hfirst hcount
      have hlast : s.lastIndex = s.log.base.index + s.log.entries.length :=
        h.lastIndex
      have hlt : first - s.log.base.index - 1 < s.log.entries.length := by
        omega
      have hentry : s.entry first =
          some (s.log.entries.get ⟨first - s.log.base.index - 1, hlt⟩) := by
        show s.log.entry first = _
        rw [h.entry, if_pos hfirst]
        exact List.getElem?_eq_getElem hlt
      rw [List.range'_succ]
      unfold entriesWithinLoop
      rw [hentry]
      dsimp only
      split
      · next hfull =>
          refine ⟨0, ?_, ?_⟩
          · rw [List.take_zero, List.append_nil]
          · intro hempty
            rw [hempty] at hfull
            exact absurd hfull (by simp)
      · obtain ⟨k, hk, _⟩ := ih (first + 1)
          (out ++ [s.log.entries.get ⟨first - s.log.base.index - 1, hlt⟩])
          (total + _) (by omega) (by omega)
        refine ⟨k + 1, ?_, fun _ _ => Nat.succ_pos k⟩
        have hnext : first + 1 - s.log.base.index - 1 =
            first - s.log.base.index - 1 + 1 := by
          omega
        rw [hk, hnext, List.drop_eq_getElem_cons hlt, List.take_succ_cons,
          List.append_assoc]
        rfl

theorem entriesWithin_follows {s : MemStorage}
    (h : Follows s.log.base.index s.log.entries) {index : Nat}
    (hindex : s.log.base.index < index) (maxBytes : Nat) :
    exists k, s.entriesWithin index maxBytes =
        (s.log.entries.drop (index - s.log.base.index - 1)).take k ∧
      (index <= s.lastIndex -> 0 < k) := by
  have hlast : s.lastIndex = s.log.base.index + s.log.entries.length :=
    h.lastIndex
  have hmax : max index s.firstIndex = index := by
    unfold firstIndex snapshotMeta
    omega
  unfold entriesWithin indices
  rw [hmax]
  rcases Nat.lt_or_ge s.lastIndex index with hpast | hheld
  · refine ⟨0, ?_, fun hle => absurd hle (Nat.not_le.mpr hpast)⟩
    rw [show s.lastIndex + 1 - index = 0 by omega, List.take_zero]
    rfl
  · obtain ⟨k, hk, hpos⟩ := entriesWithinLoop_follows h maxBytes
      (s.lastIndex + 1 - index) index [] 0 hindex (by omega)
    exact ⟨k, hk, fun _ => hpos rfl (by omega)⟩

end MemStorage

end Raft
end Minicask
