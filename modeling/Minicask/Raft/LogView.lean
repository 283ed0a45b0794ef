import Minicask.Consensus.Protocol
import Minicask.Raft.Follows

/-!
# A compacted log as a window on a whole one

A node forgets the entries its snapshot covers, but not what the snapshot stands
for.  `Shows l log` says that the log kept after a snapshot is what is left of
the whole log `l`, and every query of the storage is then a query of `l`.
-/

namespace Minicask
namespace Raft

/-- Entries carry their own position, counted from one. -/
def Indexed (l : List Entry) : Prop :=
  forall i e, l[i]? = some e -> e.index = i + 1

/-- The term at a position of a whole log, zero before it and past its end. -/
def wholeTerm (l : List Entry) : Nat -> Nat
  | 0 => 0
  | i + 1 => (l[i]?.map Entry.term).getD 0

structure Shows (l : List Entry) (log : EntryLog) : Prop where
  indexed : Indexed l
  baseLe : log.base.index <= l.length
  baseTerm : log.base.term = wholeTerm l log.base.index
  entries : log.entries = l.drop log.base.index

theorem Indexed.take {l : List Entry} (h : Indexed l) (k : Nat) :
    Indexed (l.take k) := by
  intro i e hi
  have hlt : i < k := by
    by_contra hge
    rw [List.getElem?_take_eq_none (Nat.le_of_not_lt hge)] at hi
    cases hi
  rw [List.getElem?_take_of_lt hlt] at hi
  exact h i e hi

theorem Indexed.append {l : List Entry} (h : Indexed l) {e : Entry}
    (he : e.index = l.length + 1) : Indexed (l ++ [e]) := by
  intro i d hi
  rcases Nat.lt_or_ge i l.length with hlt | hge
  · rw [List.getElem?_append_left hlt] at hi
    exact h i d hi
  · have hlen := (List.getElem?_eq_some_iff.mp hi).1
    simp only [List.length_append, List.length_singleton] at hlen
    rw [List.getElem?_append_right hge] at hi
    rw [List.mem_singleton.mp (List.mem_of_getElem? hi), he]
    omega

namespace Shows

variable {l : List Entry} {log : EntryLog}

theorem lastIndex (h : Shows l log) : log.lastIndex = l.length := by
  unfold EntryLog.lastIndex
  rw [h.entries, List.getLast?_drop]
  rcases Nat.lt_or_ge log.base.index l.length with hlt | hge
  · rw [if_neg (by omega)]
    have hlast : l[l.length - 1]? = some (l[l.length - 1]) :=
      List.getElem?_eq_getElem (by omega)
    rw [List.getLast?_eq_getElem?, hlast]
    have := h.indexed _ _ hlast
    simp only
    omega
  · rw [if_pos hge]
    have := h.baseLe
    simp only
    omega

theorem entry (h : Shows l log) (i : Nat) :
    log.entry i = if log.base.index < i then l[i - 1]? else none := by
  unfold EntryLog.entry EntryLog.position
  rw [h.lastIndex]
  by_cases hi : log.base.index < i
  · rw [if_pos hi]
    by_cases hlen : i <= l.length
    · rw [if_neg (by omega), Option.bind_some, h.entries, List.getElem?_drop]
      congr 1
      omega
    · rw [if_pos (by omega), List.getElem?_eq_none (by omega)]
      rfl
  · rw [if_neg hi, if_pos (by omega)]
    rfl

theorem entry_eq_some (h : Shows l log) {i : Nat} {e : Entry}
    (he : log.entry i = some e) :
    log.base.index < i ∧ l[i - 1]? = some e ∧ e.index = i := by
  rw [h.entry] at he
  split at he
  · next hi =>
      have hidx := h.indexed _ e he
      exact ⟨hi, he, by omega⟩
  · cases he

theorem termAt (h : Shows l log) (i : Nat) :
    log.termAt i =
      if log.base.index <= i ∧ i <= l.length then some (wholeTerm l i)
      else none := by
  unfold EntryLog.termAt
  by_cases hbase : i = log.base.index
  · have := h.baseLe
    rw [if_pos hbase, if_pos (by omega), hbase, h.baseTerm]
  · rw [if_neg hbase, h.entry]
    cases i with
    | zero =>
        rw [if_neg (by omega), if_neg (by omega)]
        rfl
    | succ i =>
        by_cases hin : log.base.index <= i + 1 ∧ i + 1 <= l.length
        · rw [if_pos hin, if_pos (by omega)]
          simp [wholeTerm, List.getElem?_eq_getElem (show i < l.length by omega)]
        · rw [if_neg hin]
          split
          · simp [List.getElem?_eq_none (show l.length <= i by omega)]
          · rfl

theorem termAt_eq_some (h : Shows l log) {i t : Nat}
    (ht : log.termAt i = some t) :
    log.base.index <= i ∧ i <= l.length ∧ t = wholeTerm l i := by
  rw [h.termAt] at ht
  split at ht
  · next hin => exact ⟨hin.1, hin.2, (Option.some.inj ht).symm⟩
  · cases ht

theorem termAt_eq_none (h : Shows l log) {i : Nat}
    (ht : log.termAt i = none) : i < log.base.index ∨ l.length < i := by
  rw [h.termAt] at ht
  split at ht
  · cases ht
  · omega

theorem push (h : Shows l log) {e : Entry} (he : e.index = l.length + 1) :
    Shows (l ++ [e]) (log.push e) where
  indexed := h.indexed.append he
  baseLe := by
    have := h.baseLe
    simp only [EntryLog.push, List.length_append, List.length_singleton]
    omega
  baseTerm := by
    have hle := h.baseLe
    simp only [EntryLog.push]
    rw [h.baseTerm]
    cases hb : log.base.index with
    | zero => rfl
    | succ i =>
        simp only [wholeTerm]
        rw [List.getElem?_append_left (by omega)]
  entries := by
    simp only [EntryLog.push, h.entries]
    rw [List.drop_append_of_le_length h.baseLe]

theorem append (h : Shows l log) (es : List Entry)
    (hes : Indexed (l ++ es)) : Shows (l ++ es) (es.foldl EntryLog.push log) := by
  induction es generalizing l log with
  | nil =>
      rw [List.append_nil]
      exact h
  | cons e rest ih =>
      have he : e.index = l.length + 1 := by
        apply hes
        rw [List.getElem?_append_right (le_refl _), Nat.sub_self]
        rfl
      have hsplit : l ++ e :: rest = (l ++ [e]) ++ rest := by simp
      rw [hsplit] at hes ⊢
      exact ih (h.push he) hes

theorem wholeTerm_take {k i : Nat} (hik : i <= k) :
    wholeTerm (l.take k) i = wholeTerm l i := by
  cases i with
  | zero => rfl
  | succ i =>
      simp only [wholeTerm]
      rw [List.getElem?_take_of_lt hik]

theorem truncateFrom (h : Shows l log) {index : Nat}
    (hindex : log.base.index < index) (hlen : index <= l.length + 1) :
    Shows (l.take (index - 1)) (log.truncateFrom index) where
  indexed := h.indexed.take _
  baseLe := by
    have := h.baseLe
    simp only [EntryLog.truncateFrom, List.length_take]
    omega
  baseTerm := by
    simp only [EntryLog.truncateFrom]
    rw [wholeTerm_take (by omega)]
    exact h.baseTerm
  entries := by
    have := h.baseLe
    simp only [EntryLog.truncateFrom, h.entries, List.length_drop]
    rw [if_neg (by omega), List.drop_take]
    congr 1
    omega

/-- A snapshot whose last entry the log holds moves the window forward. -/
theorem compact_of_held (h : Shows l log) {about : SnapshotMeta}
    (hnew : log.base.index < about.index) (hlen : about.index <= l.length)
    (hterm : about.term = wholeTerm l about.index) :
    (log.compact about).1 = true ∧ Shows l (log.compact about).2 := by
  have hheld : log.termAt about.index = some about.term := by
    rw [h.termAt, if_pos (by omega), hterm]
  unfold EntryLog.compact
  rw [if_neg (by omega)]
  simp only [hheld, if_true]
  refine ⟨trivial, h.indexed, hlen, hterm, ?_⟩
  simp only [h.entries, List.drop_drop]
  congr 1
  omega

/-- A snapshot whose last entry the log lacks replaces it. -/
theorem compact_of_lacking (h : Shows l log) {r : List Entry}
    {about : SnapshotMeta} (hr : Indexed r)
    (hnew : log.base.index < about.index)
    (hlen : about.index <= r.length)
    (hterm : about.term = wholeTerm r about.index)
    (hlacks : ¬ (about.index <= l.length ∧
      wholeTerm l about.index = about.term)) :
    (log.compact about).1 = true ∧
      Shows (r.take about.index) (log.compact about).2 := by
  have hmissing : log.termAt about.index ≠ some about.term := by
    intro heq
    rcases h.termAt_eq_some heq with ⟨_, hle, ht⟩
    exact hlacks ⟨hle, ht.symm⟩
  unfold EntryLog.compact
  rw [if_neg (by omega)]
  simp only [hmissing, if_false]
  refine ⟨trivial, hr.take _, ?_, ?_, ?_⟩
  · simp only [List.length_take]
    omega
  · simp only
    rw [wholeTerm_take (le_refl _)]
    exact hterm
  · simp only
    rw [List.drop_take, Nat.sub_self, List.take_zero]

end Shows

/-!
# Storage queries
-/

namespace MemStorage

variable {l : List Entry} {s : MemStorage}

theorem lastTerm_of_shows (h : Shows l s.log) :
    s.lastTerm = wholeTerm l l.length := by
  unfold lastTerm lastIndex termAt
  have := h.baseLe
  rw [h.lastIndex, h.termAt, if_pos (by omega)]
  rfl

theorem isUpToDate_iff (h : Shows l s.log) (lastIndex lastTerm : Nat) :
    s.isUpToDate lastIndex lastTerm = true <->
      wholeTerm l l.length < lastTerm ∨
        (wholeTerm l l.length = lastTerm ∧ l.length <= lastIndex) := by
  unfold isUpToDate MemStorage.lastIndex
  rw [lastTerm_of_shows h, h.lastIndex]
  simp only [Bool.or_eq_true, Bool.and_eq_true, decide_eq_true_eq, beq_iff_eq,
    ge_iff_le, gt_iff_lt]
  rw [@eq_comm _ lastTerm]

theorem mem_indices {first last i : Nat} :
    i ∈ indices first last <-> first <= i ∧ i <= last := by
  unfold indices
  rw [List.mem_range'_1]
  omega

theorem lastIndexOfTerm_le {term i : Nat}
    (h : s.lastIndexOfTerm term = some i) : i <= s.lastIndex := by
  have hmem := List.mem_of_find?_eq_some h
  rw [List.mem_reverse, mem_indices] at hmem
  exact hmem.2

theorem firstIndexOfTerm_le {term i : Nat} (hfirst : s.firstIndex <= i)
    (hlast : i <= s.lastIndex) (hterm : s.termAt i = some term) :
    s.firstIndexOfTerm term <= i := by
  unfold firstIndexOfTerm
  cases hfind : (indices s.firstIndex s.lastIndex).find?
      (fun j => s.termAt j == some term) with
  | none =>
      rw [List.find?_eq_none] at hfind
      exact absurd hterm (by simpa using hfind i (mem_indices.mpr ⟨hfirst, hlast⟩))
  | some j =>
      simp only [Option.getD_some]
      by_contra hlt
      rcases List.find?_eq_some_iff_append.mp hfind with ⟨_, before, after, happ, hnone⟩
      -- Everything before the hit fails the test, and `i` comes before it.
      have hi : i ∈ before := by
        have hmem : i ∈ indices s.firstIndex s.lastIndex :=
          mem_indices.mpr ⟨hfirst, hlast⟩
        have hsorted : (indices s.firstIndex s.lastIndex).Pairwise (· < ·) := by
          unfold indices
          exact List.pairwise_lt_range'
        rw [happ] at hmem hsorted
        rcases List.mem_append.mp hmem with hbefore | hrest
        · exact hbefore
        · rcases List.mem_cons.mp hrest with heq | hafter
          · omega
          · have := (List.pairwise_cons.mp
              (List.pairwise_append.mp hsorted).2.1).1 i hafter
            omega
      have := hnone i hi
      simp [hterm] at this

theorem follows_of_shows (h : Shows l s.log) :
    Follows s.log.base.index s.log.entries := by
  apply Follows.of_index
  intro k e hk
  rw [h.entries, List.getElem?_drop] at hk
  rw [h.indexed _ e hk]
  omega

/-- A budgeted batch is a run of the whole log from the index asked for. -/
theorem entriesWithin_eq (h : Shows l s.log) {index : Nat} (maxBytes : Nat)
    (hindex : s.log.base.index < index) :
    exists k, s.entriesWithin index maxBytes = (l.drop (index - 1)).take k := by
  obtain ⟨k, hk, _⟩ := entriesWithin_follows (follows_of_shows h) hindex maxBytes
  refine ⟨k, ?_⟩
  rw [hk, h.entries, List.drop_drop]
  congr 2
  omega

end MemStorage

end Raft
end Minicask
