import Minicask.Patterns
import Minicask.Server.Dispatch

/-!
# What `KEYS` matches

A pattern of bytes is read left to right as tokens, and matching it is membership
in their language.
-/

namespace Minicask
namespace Server

open Patterns

/-- The tokens of a pattern.  A backslash takes the byte after it, if there is one. -/
def tokens : Bytes -> List (Token UInt8)
  | [] => []
  | 42 :: rest => Token.many :: tokens rest
  | 63 :: rest => Token.one :: tokens rest
  | 92 :: q :: rest => Token.exact q :: tokens rest
  | p :: rest => Token.exact p :: tokens rest

theorem tokens_exact {p : UInt8} (hmany : p ≠ 42) (hone : p ≠ 63)
    (hescape : p ≠ 92) (rest : Bytes) :
    tokens (p :: rest) = Token.exact p :: tokens rest := by
  rw [tokens]
  · exact hmany
  · exact hone
  · intro q more heq _
    exact hescape heq

theorem tokens_single {p : UInt8} (hmany : p ≠ 42) (hone : p ≠ 63) :
    tokens [p] = [Token.exact p] := by
  rw [tokens]
  · rfl
  · exact hmany
  · exact hone
  · intro q more _ hmore
    cases hmore

/-- Every token but `*` takes a byte. -/
theorem nil_notMem_tokens {p : UInt8} (hmany : p ≠ 42) (rest : Bytes) :
    [] ∉ language (tokens (p :: rest)) := by
  by_cases hone : p = 63
  · rw [hone, tokens]
    exact nil_notMem_one
  · by_cases hescape : p = 92
    · rw [hescape]
      cases rest with
      | nil => exact nil_notMem_exact
      | cons q rest =>
          rw [tokens]
          exact nil_notMem_exact
    · rw [tokens_exact hmany hone hescape]
      exact nil_notMem_exact

/-- Matching is exact: a text matches a pattern when it is one of those that the
pattern's tokens stand for. -/
theorem globMatch_iff (pattern text : Bytes) :
    globMatch pattern text = true ↔ text ∈ language (tokens pattern) := by
  fun_induction globMatch pattern text with
  | case1 => exact iff_of_true rfl (mem_language_nil.mpr rfl)
  | case2 t text =>
      apply iff_of_false Bool.false_ne_true
      intro h
      cases mem_language_nil.mp h
  | case3 p rest ih =>
      rw [Bool.and_eq_true, decide_eq_true_iff, ih]
      constructor
      · intro h
        rw [h.1, tokens]
        exact nil_mem_many.mpr h.2
      · intro h
        by_cases hmany : p = 42
        · rw [hmany, tokens] at h
          exact ⟨hmany, nil_mem_many.mp h⟩
        · exact absurd h (nil_notMem_tokens hmany rest)
  | case4 t text rest ihskip ihtake =>
      rw [tokens] at ihtake
      rw [Bool.or_eq_true, ihskip, ihtake, tokens]
      exact cons_mem_many.symm
  | case5 t text rest _ ih =>
      rw [ih, tokens]
      exact cons_mem_one.symm
  | case6 t text q rest _ _ ih =>
      rw [Bool.and_eq_true, decide_eq_true_iff, ih, tokens]
      exact cons_mem_exact.symm
  | case7 p t text hmany hone q rest hescape ih =>
      rw [Bool.and_eq_true, decide_eq_true_iff, ih,
        tokens_exact hmany hone hescape]
      exact cons_mem_exact.symm
  | case8 p t text hmany hone ih =>
      rw [Bool.and_eq_true, decide_eq_true_iff, ih, tokens_single hmany hone]
      exact cons_mem_exact.symm

example : globMatch [92, 42, 92] [42, 92] = true := by decide +kernel

end Server
end Minicask
