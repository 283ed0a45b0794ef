import Mathlib.Data.List.Count
import Mathlib.Data.List.Sort

/-!
# Places in a ranking

A list is ranked from the top.  What stands at a place is reached by as many members
as it takes to get there, and nothing higher is.
-/

namespace Minicask
namespace Rankings

universe u

variable {α : Type u} [LinearOrder α]

/-- What stands at a place of a sorted list is reached by all before it. -/
theorem reached_of_le {s : List α} (hsorted : s.Pairwise (· >= ·)) {place : Nat}
    (hplace : place < s.length) {a : α} (h : a <= s[place]) :
    place + 1 <= s.countP (a <= ·) := by
  have hall : forall b, b ∈ s.take (place + 1) -> decide (a <= b) = true := by
    intro b hb
    rcases List.mem_take_iff_getElem.mp hb with ⟨i, hi, rfl⟩
    apply decide_eq_true
    have hupto : i <= place :=
      Nat.le_of_lt_succ (Nat.lt_of_lt_of_le hi (Nat.min_le_left _ _))
    rcases Nat.lt_or_eq_of_le hupto with hbefore | rfl
    · exact h.trans
        (List.pairwise_iff_getElem.mp hsorted i place _ hplace hbefore)
    · exact h
  calc place + 1 = (s.take (place + 1)).length :=
        (List.length_take_of_le hplace).symm
    _ = (s.take (place + 1)).countP (a <= ·) :=
        (List.countP_eq_length.mpr hall).symm
    _ <= s.countP (a <= ·) := (List.take_sublist _ _).countP_le

theorem reached_of_lt {s : List α} (hsorted : s.Pairwise (· >= ·)) {place : Nat}
    (hplace : place < s.length) {a : α} (h : s[place] < a) :
    s.countP (a <= ·) <= place := by
  have hnone : (s.drop place).countP (a <= ·) = 0 := by
    apply List.countP_eq_zero.mpr
    intro b hb hreaches
    rcases List.mem_drop_iff_getElem.mp hb with ⟨i, hi, rfl⟩
    have hbelow : s[place + i] <= s[place] := by
      cases i with
      | zero => exact le_refl _
      | succ i =>
          exact List.pairwise_iff_getElem.mp hsorted place (place + (i + 1))
            hplace _ (Nat.lt_add_of_pos_right (Nat.succ_pos i))
    exact absurd (of_decide_eq_true hreaches)
      (not_le_of_gt (lt_of_le_of_lt hbelow h))
  calc s.countP (a <= ·)
      = (s.take place ++ s.drop place).countP (a <= ·) := by
        rw [List.take_append_drop]
    _ = (s.take place).countP (a <= ·) := by
        rw [List.countP_append, hnone, Nat.add_zero]
    _ <= (s.take place).length := List.countP_le_length
    _ <= place := List.length_take_le place s

/-- The ranking rule: what is at or below a place is what more members than the
place has before it reach. -/
theorem le_ranked_iff {l : List α} {place : Nat} {ranked : α}
    (h : (l.insertionSort (· >= ·))[place]? = some ranked) (a : α) :
    a <= ranked ↔ place + 1 <= l.countP (a <= ·) := by
  have hsorted := List.pairwise_insertionSort (· >= ·) l
  rw [← (List.perm_insertionSort (· >= ·) l).countP_eq]
  rcases List.getElem?_eq_some_iff.mp h with ⟨hplace, rfl⟩
  constructor
  · exact reached_of_le hsorted hplace
  · intro hreached
    by_contra hnot
    have hfew := reached_of_lt hsorted hplace (lt_of_not_ge hnot)
    exact absurd hreached (Nat.not_le_of_lt (Nat.lt_succ_of_le hfew))

end Rankings
end Minicask
