import Mathlib.Data.Nat.Find
import Minicask.Replay

/-!
# Logs that keep pace

Writes are made on a map, and each of them adds at most one write to a log.  Any start
of the log is then what some of the writes made, and the more of the log there is, the
more of the writes it has.
-/

namespace Minicask
namespace Replay

universe u v

variable {Key : Type u} {Value : Type v} [DecidableEq Key]

/-- After `n` of the writes on `base` the log had `marks n` writes. -/
structure Paced (base : Key -> Option Value) (writes log : List (Write Key Value))
    (marks : Nat -> Nat) : Prop where
  all : marks writes.length = log.length
  climbs : forall n, n < writes.length ->
    marks n <= marks (n + 1) ∧ marks (n + 1) <= marks n + 1
  holds : forall n, n <= writes.length ->
    replay base (writes.take n) = replay empty (log.take (marks n))

namespace Paced

variable {base : Key -> Option Value} {writes log : List (Write Key Value)}
  {marks : Nat -> Nat}

theorem start (h : replay empty log = base) :
    Paced base [] log (fun _ => log.length) where
  all := rfl
  climbs _ hn := absurd hn (Nat.not_lt_zero _)
  holds n _ := by
    rw [List.take_nil, List.take_length, h]
    rfl

theorem mono (h : Paced base writes log marks) {m n : Nat} (hle : m <= n)
    (hn : n <= writes.length) : marks m <= marks n := by
  induction n, hle using Nat.le_induction with
  | base => exact Nat.le_refl _
  | succ n hle ih => exact Nat.le_trans (ih (Nat.le_of_succ_le hn)) (h.climbs n hn).1

theorem le_length (h : Paced base writes log marks) {n : Nat}
    (hn : n <= writes.length) : marks n <= log.length := by
  rw [← h.all]
  exact h.mono hn (Nat.le_refl _)

theorem write (h : Paced base writes log marks) {w : Write Key Value}
    {more : List (Write Key Value)} (hmore : more.length <= 1)
    (hreplay : replay base (writes ++ [w]) = replay empty (log ++ more)) :
    exists marks', (forall n, n <= writes.length -> marks' n = marks n) ∧
      Paced base (writes ++ [w]) (log ++ more) marks' := by
  have hlength : (writes ++ [w]).length = writes.length + 1 := by
    rw [List.length_append, List.length_singleton]
  have hlast : Function.update marks (writes.length + 1) (log ++ more).length
      (writes.length + 1) = (log ++ more).length :=
    Function.update_self ..
  have hkept : forall n, n <= writes.length ->
      Function.update marks (writes.length + 1) (log ++ more).length n = marks n :=
    fun n hn => Function.update_of_ne (Nat.ne_of_lt (Nat.lt_succ_of_le hn)) ..
  refine ⟨_, hkept, ?_, ?_, ?_⟩
  · rw [hlength, hlast]
  · intro n hn
    rw [hlength] at hn
    rcases Nat.lt_or_eq_of_le (Nat.le_of_lt_succ hn) with hold | heq
    · rw [hkept n (Nat.le_of_lt hold), hkept (n + 1) hold]
      exact h.climbs n hold
    · rw [heq, hlast, hkept _ (Nat.le_refl _), h.all, List.length_append]
      omega
  · intro n hn
    rw [hlength] at hn
    rcases Nat.lt_or_eq_of_le hn with hold | heq
    · have hn' := Nat.le_of_lt_succ hold
      rw [hkept n hn', List.take_append_of_le_length hn',
        List.take_append_of_le_length (h.le_length hn')]
      exact h.holds n hn'
    · rw [heq, hlast, List.take_length, ← hlength, List.take_length]
      exact hreplay

/-- A start of the log is what some of the writes made, all of those among them that
the log had by then. -/
theorem cut (h : Paced base writes log marks) {j : Nat} (hlow : marks 0 <= j)
    (hhigh : j <= log.length) :
    exists k, k <= writes.length ∧
      replay base (writes.take k) = replay empty (log.take j) ∧
      forall n, n <= writes.length -> marks n <= j -> n <= k := by
  let k := Nat.findGreatest (fun n => marks n <= j) writes.length
  have hk : k <= writes.length := Nat.findGreatest_le _
  have hmark : marks k <= j :=
    @Nat.findGreatest_spec 0 (fun n => marks n <= j) _ _ (Nat.zero_le _) hlow
  have hmost : forall n, n <= writes.length -> marks n <= j -> n <= k :=
    fun n hn hle => Nat.le_findGreatest hn hle
  -- Were the mark of `k` lower, the next one would still be low enough.
  have heq : marks k = j := by
    rcases Nat.lt_or_eq_of_le hk with hlt | hall
    · by_contra hne
      have hnext := (h.climbs k hlt).2
      have hle := hmost (k + 1) hlt (by omega)
      omega
    · refine Nat.le_antisymm hmark ?_
      rw [hall, h.all]
      exact hhigh
  exact ⟨k, hk, heq ▸ h.holds k hk, hmost⟩

end Paced

end Replay
end Minicask
