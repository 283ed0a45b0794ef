import Mathlib.Data.List.Basic

/-!
# Steps that may fail

Steps in a row come to a result only if every one of them did.
-/

namespace Minicask
namespace Fallible

variable {error state result item : Type}

theorem bind_eq_ok {e : Except error state} {f : state -> Except error result}
    {r : result} (h : e.bind f = Except.ok r) :
    exists s, e = Except.ok s ∧ f s = Except.ok r := by
  cases e with
  | error why => cases h
  | ok s => exact ⟨s, rfl, h⟩

theorem map_eq_ok {e : Except error state} {f : state -> result} {r : result}
    (h : e.map f = Except.ok r) : exists s, e = Except.ok s ∧ f s = r := by
  cases e with
  | error why => cases h
  | ok s =>
      cases h
      exact ⟨s, rfl, rfl⟩

theorem foldlM_cons_eq_ok {f : state -> item -> Except error state} {a : item}
    {l : List item} {s s' : state} (h : (a :: l).foldlM f s = Except.ok s') :
    exists next, f s a = Except.ok next ∧ l.foldlM f next = Except.ok s' := by
  rw [List.foldlM_cons] at h
  exact bind_eq_ok h

theorem foldlM_keeps {P : state -> Prop} {f : state -> item -> Except error state}
    {l : List item}
    (hstep : forall a, a ∈ l -> forall s s', P s -> f s a = Except.ok s' -> P s')
    {s s' : state} (h : P s) (hloop : l.foldlM f s = Except.ok s') : P s' := by
  induction l generalizing s with
  | nil =>
      cases hloop
      exact h
  | cons a l ih =>
      rcases foldlM_cons_eq_ok hloop with ⟨next, hnext, hrest⟩
      apply ih _ _ hrest
      · intro other hin
        exact hstep other (List.mem_cons_of_mem a hin)
      · exact hstep a List.mem_cons_self s next h hnext

end Fallible
end Minicask
