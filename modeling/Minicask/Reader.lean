import Mathlib.Control.Monad.Basic

/-!
# Readers

A reader takes symbols from the front of a string and gives a value, or finds the
string malformed.  What it makes of a string that was written for it is put together
from what its parts make of the parts of that string.
-/

namespace Minicask

abbrev Reader (σ α : Type) : Type :=
  StateT (List σ) Option α

namespace Reader

variable {σ α β : Type}

def fail : Reader σ α :=
  fun _ => none

def ofOption : Option α -> Reader σ α
  | some a => pure a
  | none => fail

theorem pure_apply (a : α) (input : List σ) :
    (pure a : Reader σ α) input = some (a, input) := rfl

theorem bind_apply (r : Reader σ α) (f : α -> Reader σ β) (input : List σ) :
    (r >>= f) input = (r input).bind (fun (a, rest) => f a rest) := rfl

/-!
# What was written is read
-/

/-- The reader takes exactly this string, whatever follows it, and gives the value. -/
def Reads (r : Reader σ α) (written : List σ) (a : α) : Prop :=
  forall rest, r (written ++ rest) = some (a, rest)

theorem Reads.pure (a : α) : Reads (pure a : Reader σ α) [] a :=
  fun _ => rfl

theorem Reads.bind {r : Reader σ α} {f : α -> Reader σ β} {first second : List σ}
    {a : α} {b : β} (hr : Reads r first a) (hf : Reads (f a) second b) :
    Reads (r >>= f) (first ++ second) b := by
  intro rest
  rw [List.append_assoc, bind_apply, hr]
  exact hf rest

theorem Reads.ofOption {o : Option α} {a : α} (h : o = some a) :
    Reads (ofOption o : Reader σ α) [] a := by
  subst h
  exact Reads.pure a

theorem Reads.map {r : Reader σ α} {f : α -> Reader σ β} {written : List σ}
    {a : α} {b : β} (hr : Reads r written a) (hf : Reads (f a) [] b) :
    Reads (r >>= f) written b := by
  have hbind := Reads.bind hr hf
  rwa [List.append_nil] at hbind

/-!
# What was written is spent
-/

/-- The reader takes exactly this string, whatever follows it, or finds it
malformed. -/
def Spends (r : Reader σ α) (written : List σ) : Prop :=
  forall rest, r (written ++ rest) = none ∨
    exists a, r (written ++ rest) = some (a, rest)

theorem Reads.spends {r : Reader σ α} {written : List σ} {a : α}
    (h : Reads r written a) : Spends r written :=
  fun rest => Or.inr ⟨a, h rest⟩

theorem Spends.fail (written : List σ) : Spends (fail : Reader σ α) written :=
  fun _ => Or.inl rfl

theorem Spends.ofOption (o : Option α) :
    Spends (ofOption o : Reader σ α) [] := by
  cases o with
  | none => exact Spends.fail []
  | some a => exact (Reads.pure a).spends

theorem Spends.bind {r : Reader σ α} {f : α -> Reader σ β} {first second : List σ}
    (hr : Spends r first) (hf : forall a, Spends (f a) second) :
    Spends (r >>= f) (first ++ second) := by
  intro rest
  rw [List.append_assoc, bind_apply]
  rcases hr (second ++ rest) with hnone | ⟨a, hsome⟩
  · rw [hnone]
    exact Or.inl rfl
  · rw [hsome]
    exact hf a rest

theorem Reads.bind_spends {r : Reader σ α} {f : α -> Reader σ β}
    {first second : List σ} {a : α} (hr : Reads r first a)
    (hf : Spends (f a) second) : Spends (r >>= f) (first ++ second) := by
  intro rest
  rw [List.append_assoc, bind_apply, hr]
  exact hf rest

theorem Spends.map {r : Reader σ α} {f : α -> Reader σ β} {written : List σ}
    (hr : Spends r written) (hf : forall a, Spends (f a) []) :
    Spends (r >>= f) written := by
  have hbind := Spends.bind hr hf
  rwa [List.append_nil] at hbind

/-!
# What follows is left alone
-/

/-- A reader that succeeds gives the same value with more behind its input. -/
def Local (r : Reader σ α) : Prop :=
  forall input a rest, r input = some (a, rest) ->
    forall more, r (input ++ more) = some (a, rest ++ more)

theorem Local.pure (a : α) : Local (pure a : Reader σ α) := by
  intro input b rest h more
  rw [pure_apply] at h ⊢
  obtain ⟨rfl, rfl⟩ := Prod.mk.inj (Option.some.inj h)
  rfl

theorem Local.fail : Local (fail : Reader σ α) := by
  intro input b rest h
  cases h

theorem Local.ofOption (o : Option α) : Local (ofOption o : Reader σ α) := by
  cases o with
  | none => exact Local.fail
  | some a => exact Local.pure a

theorem Local.bind {r : Reader σ α} {f : α -> Reader σ β} (hr : Local r)
    (hf : forall a, Local (f a)) : Local (r >>= f) := by
  intro input b rest h more
  rw [bind_apply] at h ⊢
  obtain ⟨⟨a, middle⟩, hfirst, hsecond⟩ := Option.bind_eq_some_iff.mp h
  rw [hr input a middle hfirst more]
  exact hf a middle b rest hsecond more

theorem Local.ite {c : Prop} [Decidable c] {r s : Reader σ α} (hr : Local r)
    (hs : Local s) : Local (if c then r else s) := by
  split
  · exact hr
  · exact hs

/-- A string of which the reader would spend every symbol is not read to the end of
a strict part of it. -/
theorem Local.cut {r : Reader σ α} (hlocal : Local r) {front back : List σ}
    (hspends : Spends r (front ++ back)) (hback : back ≠ []) (a : α) :
    r front ≠ some (a, []) := by
  intro h
  have hmore := hlocal front a [] h back
  have hwhole := hspends []
  rw [List.append_nil] at hwhole
  rcases hwhole with hnone | ⟨b, hsome⟩
  · rw [hnone] at hmore
    cases hmore
  · rw [hsome] at hmore
    exact hback (Prod.mk.inj (Option.some.inj hmore)).2.symm

/-!
# What was taken is accounted for

The size of a value is what a string for it would be as long as.
-/

/-- After `taken` symbols, the reader takes the rest of what its value stands for. -/
def Measures (taken : Nat) (r : Reader σ α) (size : α -> Nat) : Prop :=
  forall input a rest, r input = some (a, rest) ->
    taken + input.length = size a + rest.length

theorem Measures.pure {taken : Nat} {a : α} {size : α -> Nat}
    (h : size a = taken) : Measures taken (pure a : Reader σ α) size := by
  intro input b rest hread
  rw [pure_apply] at hread
  obtain ⟨rfl, rfl⟩ := Prod.mk.inj (Option.some.inj hread)
  rw [h]

theorem Measures.fail {taken : Nat} {size : α -> Nat} :
    Measures taken (fail : Reader σ α) size := by
  intro input b rest hread
  cases hread

theorem Measures.bind {taken : Nat} {r : Reader σ α} {f : α -> Reader σ β}
    {part : α -> Nat} {size : β -> Nat} (hr : Measures 0 r part)
    (hf : forall a, Measures (taken + part a) (f a) size) :
    Measures taken (r >>= f) size := by
  intro input b rest hread
  rw [bind_apply] at hread
  obtain ⟨⟨a, middle⟩, hfirst, hsecond⟩ := Option.bind_eq_some_iff.mp hread
  have htaken := hr input a middle hfirst
  have hleft := hf a middle b rest hsecond
  omega

theorem Measures.ite {taken : Nat} {c : Prop} [Decidable c] {r s : Reader σ α}
    {size : α -> Nat} (hr : Measures taken r size) (hs : Measures taken s size) :
    Measures taken (if c then r else s) size := by
  split
  · exact hr
  · exact hs

end Reader
end Minicask
