import Mathlib.Computability.Language

/-!
# Patterns and their languages

A pattern is a row of tokens, and stands for the concatenation of what the tokens
stand for.
-/

namespace Minicask
namespace Patterns

universe u

variable {α : Type u}

/-- Any string, any one symbol, or one symbol and no other. -/
inductive Token (α : Type u) where
  | many
  | one
  | exact (a : α)

namespace Token

def language : Token α -> Language α
  | many => ⊤
  | one => { text | exists a, text = [a] }
  | exact a => {[a]}

end Token

def language (tokens : List (Token α)) : Language α :=
  (tokens.map Token.language).prod

/-!
# Membership
-/

theorem mem_language_nil {text : List α} :
    text ∈ language ([] : List (Token α)) ↔ text = [] :=
  Language.mem_one text

theorem mem_language_cons {token : Token α} {tokens : List (Token α)}
    {text : List α} :
    text ∈ language (token :: tokens) ↔
      exists first, first ∈ token.language ∧
        exists rest, rest ∈ language tokens ∧ first ++ rest = text := by
  rw [language, List.map_cons, List.prod_cons]
  exact Language.mem_mul

theorem mem_language_many {tokens : List (Token α)} {text : List α} :
    text ∈ language (Token.many :: tokens) ↔
      text ∈ language tokens ∨
        exists a rest, text = a :: rest ∧
          rest ∈ language (Token.many :: tokens) := by
  rw [mem_language_cons]
  constructor
  · intro h
    rcases h with ⟨first, _, rest, hrest, rfl⟩
    cases first with
    | nil => exact Or.inl hrest
    | cons a first =>
        apply Or.inr
        refine ⟨a, first ++ rest, rfl, ?_⟩
        exact mem_language_cons.mpr ⟨first, trivial, rest, hrest, rfl⟩
  · intro h
    cases h with
    | inl hnone => exact ⟨[], trivial, text, hnone, rfl⟩
    | inr hsome =>
        rcases hsome with ⟨a, rest, rfl, hrest⟩
        rcases mem_language_cons.mp hrest with ⟨first, _, more, hmore, rfl⟩
        exact ⟨a :: first, trivial, more, hmore, rfl⟩

theorem mem_language_one {tokens : List (Token α)} {text : List α} :
    text ∈ language (Token.one :: tokens) ↔
      exists a rest, text = a :: rest ∧ rest ∈ language tokens := by
  rw [mem_language_cons]
  constructor
  · intro h
    rcases h with ⟨first, ⟨a, rfl⟩, rest, hrest, rfl⟩
    exact ⟨a, rest, rfl, hrest⟩
  · intro h
    rcases h with ⟨a, rest, rfl, hrest⟩
    exact ⟨[a], ⟨a, rfl⟩, rest, hrest, rfl⟩

theorem mem_language_exact {a : α} {tokens : List (Token α)} {text : List α} :
    text ∈ language (Token.exact a :: tokens) ↔
      exists rest, text = a :: rest ∧ rest ∈ language tokens := by
  rw [mem_language_cons]
  constructor
  · intro h
    rcases h with ⟨first, hfirst, rest, hrest, rfl⟩
    have heq : first = [a] := hfirst
    rw [heq]
    exact ⟨rest, rfl, hrest⟩
  · intro h
    rcases h with ⟨rest, rfl, hrest⟩
    exact ⟨[a], rfl, rest, hrest, rfl⟩

/-!
# One symbol at a time
-/

theorem nil_mem_many {tokens : List (Token α)} :
    [] ∈ language (Token.many :: tokens) ↔ [] ∈ language tokens := by
  rw [mem_language_many]
  constructor
  · intro h
    cases h with
    | inl hnone => exact hnone
    | inr hsome =>
        rcases hsome with ⟨_, _, hnil, _⟩
        cases hnil
  · exact Or.inl

theorem cons_mem_many {a : α} {tokens : List (Token α)} {text : List α} :
    a :: text ∈ language (Token.many :: tokens) ↔
      a :: text ∈ language tokens ∨
        text ∈ language (Token.many :: tokens) := by
  constructor
  · intro h
    cases mem_language_many.mp h with
    | inl hnone => exact Or.inl hnone
    | inr hsome =>
        rcases hsome with ⟨_, _, heq, hrest⟩
        cases heq
        exact Or.inr hrest
  · intro h
    apply mem_language_many.mpr
    cases h with
    | inl hnone => exact Or.inl hnone
    | inr hrest => exact Or.inr ⟨a, text, rfl, hrest⟩

theorem nil_notMem_one {tokens : List (Token α)} :
    [] ∉ language (Token.one :: tokens) := by
  intro h
  rcases mem_language_one.mp h with ⟨_, _, hnil, _⟩
  cases hnil

theorem cons_mem_one {a : α} {tokens : List (Token α)} {text : List α} :
    a :: text ∈ language (Token.one :: tokens) ↔ text ∈ language tokens := by
  constructor
  · intro h
    rcases mem_language_one.mp h with ⟨_, _, heq, hrest⟩
    cases heq
    exact hrest
  · intro h
    exact mem_language_one.mpr ⟨a, text, rfl, h⟩

theorem nil_notMem_exact {a : α} {tokens : List (Token α)} :
    [] ∉ language (Token.exact a :: tokens) := by
  intro h
  rcases mem_language_exact.mp h with ⟨_, hnil, _⟩
  cases hnil

theorem cons_mem_exact {a b : α} {tokens : List (Token α)} {text : List α} :
    b :: text ∈ language (Token.exact a :: tokens) ↔
      a = b ∧ text ∈ language tokens := by
  constructor
  · intro h
    rcases mem_language_exact.mp h with ⟨_, heq, hrest⟩
    cases heq
    exact ⟨rfl, hrest⟩
  · intro h
    rcases h with ⟨rfl, hrest⟩
    exact mem_language_exact.mpr ⟨text, rfl, hrest⟩

end Patterns
end Minicask
