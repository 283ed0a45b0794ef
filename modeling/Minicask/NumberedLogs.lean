import Mathlib.Data.Finset.Sort
import Mathlib.Order.Interval.Finset.Nat

/-!
# Logs by number

A log whose items are asked for by number: what stands for everything up to a base,
and a finite map from later numbers to items.  Nothing is said of how it is kept.
-/

namespace Minicask

structure NumberedLog (μ α : Type) where
  base : Nat
  /-- What is left of everything up to the base. -/
  mark : μ
  held : Nat -> Option α
  keys : Finset Nat
  mem_keys : forall i, i ∈ keys ↔ (held i).isSome
  later : forall i, i ∈ keys -> base < i

namespace NumberedLog

variable {μ α : Type}

def empty (base : Nat) (mark : μ) : NumberedLog μ α where
  base := base
  mark := mark
  held := fun _ => none
  keys := ∅
  mem_keys := by simp
  later := by simp

/-!
# What is asked of a log
-/

def last (l : NumberedLog μ α) : Nat :=
  (insert l.base l.keys).max' (Finset.insert_nonempty l.base l.keys)

theorem base_le_last (l : NumberedLog μ α) : l.base <= l.last :=
  Finset.le_max' _ _ (Finset.mem_insert_self l.base l.keys)

/-- How many items are held before this one. -/
def place (l : NumberedLog μ α) (i : Nat) : Option Nat :=
  if i ∈ l.keys then some (l.keys.filter (· < i)).card else none

def markAt (markOf : α -> μ) (l : NumberedLog μ α) (i : Nat) : Option μ :=
  if i = l.base then some l.mark else (l.held i).map markOf

def onwards (l : NumberedLog μ α) (i : Nat) : List α :=
  (l.keys.filter (i <= ·)).sort.filterMap l.held

/-!
# What is done to a log
-/

def push (l : NumberedLog μ α) (item : Nat -> α) : NumberedLog μ α where
  base := l.base
  mark := l.mark
  held := Function.update l.held (l.last + 1) (some (item (l.last + 1)))
  keys := insert (l.last + 1) l.keys
  mem_keys := by
    intro i
    rw [Finset.mem_insert, l.mem_keys]
    by_cases hi : i = l.last + 1
    · simp [hi]
    · simp [hi]
  later := by
    intro i hi
    rcases Finset.mem_insert.mp hi with hnew | hold
    · have hle := l.base_le_last
      omega
    · exact l.later i hold

def truncate (l : NumberedLog μ α) (stop : Nat) : NumberedLog μ α where
  base := l.base
  mark := l.mark
  held := fun i => if i < stop then l.held i else none
  keys := l.keys.filter (· < stop)
  mem_keys := by
    intro i
    rw [Finset.mem_filter, l.mem_keys]
    split
    · next hlt => simp [hlt]
    · next hge => simp [hge]
  later := fun i hi => l.later i (Finset.mem_filter.mp hi).1

/-- A later base.  The items after it stay if the log has its mark there, and none
stays otherwise. -/
def compact [DecidableEq μ] (markOf : α -> μ) (l : NumberedLog μ α) (base : Nat)
    (mark : μ) : NumberedLog μ α :=
  if base <= l.base then l
  else
    { base := base
      mark := mark
      held := fun i =>
        if base < i ∧ l.markAt markOf base = some mark then l.held i else none
      keys := l.keys.filter
        (fun i => base < i ∧ l.markAt markOf base = some mark)
      mem_keys := by
        intro i
        rw [Finset.mem_filter, l.mem_keys]
        split
        · next hkept => simp [hkept]
        · next hgone => simp [hgone]
      later := fun i hi => (Finset.mem_filter.mp hi).2.1 }

/-!
# Logs without gaps
-/

section Unbroken

variable {l : NumberedLog μ α} {stop : Nat}
  (hkeys : l.keys = Finset.Ioc l.base stop) (hstop : l.base <= stop)

include hkeys

theorem place_eq (i : Nat) :
    l.place i =
      if l.base < i ∧ i <= stop then some (i - l.base - 1) else none := by
  unfold place
  rw [hkeys]
  simp only [Finset.mem_Ioc]
  split
  · next hin =>
      have hbefore : (Finset.Ioc l.base stop).filter (· < i) =
          Finset.Ioo l.base i := by
        ext k
        simp only [Finset.mem_filter, Finset.mem_Ioc, Finset.mem_Ioo]
        omega
      rw [hbefore, Nat.card_Ioo]
  · rfl

theorem onwards_eq (i : Nat) :
    l.onwards i =
      (List.range' (max i (l.base + 1))
        (stop + 1 - max i (l.base + 1))).filterMap l.held := by
  unfold onwards
  congr 1
  have hnodup : (List.range' (max i (l.base + 1))
      (stop + 1 - max i (l.base + 1))).Nodup := List.nodup_range'
  have hset : l.keys.filter (i <= ·) =
      (List.range' (max i (l.base + 1))
        (stop + 1 - max i (l.base + 1))).toFinset := by
    ext k
    rw [hkeys, List.mem_toFinset, List.mem_range'_1]
    simp only [Finset.mem_filter, Finset.mem_Ioc]
    omega
  rw [hset]
  apply (List.toFinset_sort (· <= ·) hnodup).mpr
  exact List.pairwise_le_range'

include hstop

theorem last_eq : l.last = stop := by
  unfold last
  apply Nat.le_antisymm
  · apply Finset.max'_le
    intro k hk
    rw [hkeys] at hk
    rcases Finset.mem_insert.mp hk with hbase | hlater
    · rw [hbase]
      exact hstop
    · exact (Finset.mem_Ioc.mp hlater).2
  · apply Finset.le_max'
    rw [hkeys, Finset.mem_insert, Finset.mem_Ioc]
    omega

end Unbroken

end NumberedLog
end Minicask
