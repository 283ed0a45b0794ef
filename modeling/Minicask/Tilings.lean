import Mathlib.Algebra.BigOperators.Group.List.Basic
import Mathlib.Algebra.Order.Ring.Nat
import Mathlib.Data.List.Infix
import Mathlib.Order.Bounds.Basic

/-!
# Blocks laid end to end

Blocks have sizes, and each starts where the one before it ends.  The ends are the
boundaries, and the blocks that lie within two places are told by where they start
and end.
-/

namespace Minicask
namespace Tilings

variable {α : Type} (size : α -> Nat)

def total (blocks : List α) : Nat :=
  (blocks.map size).sum

/-- Each block with where it starts. -/
def laid : Nat -> List α -> List (Nat × α)
  | _, [] => []
  | start, block :: rest => (start, block) :: laid (start + size block) rest

/-- A place where some blocks from the first on end. -/
def Boundary (blocks : List α) (place : Nat) : Prop :=
  exists before, before <+: blocks ∧ total size before = place

instance (blocks : List α) (place : Nat) :
    Decidable (Boundary size blocks place) :=
  decidable_of_iff (exists before, before ∈ blocks.inits ∧ total size before = place)
    (exists_congr (fun _ => and_congr_left (fun _ => List.mem_inits _ _)))

/-- The blocks that lie wholly between two places, in order. -/
def within (first last : Nat) (blocks : List α) : List (Nat × α) :=
  (laid size 0 blocks).filter
    (fun (start, block) => first <= start && start + size block <= last)

@[simp] theorem total_append (blocks more : List α) :
    total size (blocks ++ more) = total size blocks + total size more := by
  simp [total]

@[simp] theorem total_cons (block : α) (rest : List α) :
    total size (block :: rest) = size block + total size rest := by
  simp [total]

theorem laid_append (start : Nat) (blocks more : List α) :
    laid size start (blocks ++ more) =
      laid size start blocks ++ laid size (start + total size blocks) more := by
  induction blocks generalizing start with
  | nil => rfl
  | cons block rest ih =>
      rw [List.cons_append, laid, ih, total_cons, Nat.add_assoc]
      rfl

theorem start_of_mem_laid {start : Nat} {blocks : List α} {placed : Nat × α}
    (h : placed ∈ laid size start blocks) :
    start <= placed.1 ∧
      placed.1 + size placed.2 <= start + total size blocks := by
  induction blocks generalizing start with
  | nil => cases h
  | cons block rest ih =>
      rw [total_cons]
      rcases List.mem_cons.mp h with hfirst | hrest
      · rw [hfirst]
        exact ⟨Nat.le_refl start, by dsimp only; omega⟩
      · rcases ih hrest with ⟨hle, hend⟩
        exact ⟨by omega, by omega⟩

/-- Blocks that start after a place do not end before it. -/
theorem lt_end_of_mem_laid {last start : Nat} {blocks : List α}
    (hfirst : forall block rest, blocks = block :: rest -> last < start + size block)
    {placed : Nat × α} (h : placed ∈ laid size start blocks) :
    last < placed.1 + size placed.2 := by
  cases blocks with
  | nil => cases h
  | cons block rest =>
      have hlast := hfirst block rest rfl
      rcases List.mem_cons.mp h with hhead | hrest
      · rw [hhead]
        exact hlast
      · have hle := (start_of_mem_laid size hrest).1
        omega

/-- Between a boundary and a place, the blocks from that boundary to the last one
before the place. -/
theorem within_eq (hpos : forall block, 0 < size block) {last : Nat}
    {before kept rest : List α} (hkept : total size (before ++ kept) <= last)
    (hrest : forall block more, rest = block :: more ->
      last < total size (before ++ kept) + size block) :
    within size (total size before) last (before ++ kept ++ rest) =
      laid size (total size before) kept := by
  unfold within
  rw [laid_append, laid_append, Nat.zero_add, Nat.zero_add, List.filter_append,
    List.filter_append]
  have hbefore : (laid size 0 before).filter (fun (start, block) =>
      total size before <= start && start + size block <= last) = [] := by
    apply List.filter_eq_nil_iff.mpr
    intro placed hmem
    have hend := (start_of_mem_laid size hmem).2
    have hsize := hpos placed.2
    simp only [Bool.and_eq_true, decide_eq_true_iff]
    omega
  have hinside : (laid size (total size before) kept).filter (fun (start, block) =>
      total size before <= start && start + size block <= last) =
        laid size (total size before) kept := by
    apply List.filter_eq_self.mpr
    intro placed hmem
    rcases start_of_mem_laid size hmem with ⟨hstart, hend⟩
    rw [total_append] at hkept
    simp only [Bool.and_eq_true, decide_eq_true_iff]
    omega
  have hafter : (laid size (total size (before ++ kept)) rest).filter
      (fun (start, block) =>
        total size before <= start && start + size block <= last) = [] := by
    apply List.filter_eq_nil_iff.mpr
    intro placed hmem
    have hend := lt_end_of_mem_laid size hrest hmem
    simp only [Bool.and_eq_true, decide_eq_true_iff]
    omega
  rw [hbefore, hinside, hafter, List.nil_append, List.append_nil]

theorem exists_cut (blocks : List α) (last : Nat) :
    exists kept rest, blocks = kept ++ rest ∧ total size kept <= last ∧
      forall block more, rest = block :: more ->
        last < total size kept + size block := by
  induction blocks generalizing last with
  | nil =>
      refine ⟨[], [], rfl, Nat.zero_le last, ?_⟩
      intro block more h
      cases h
  | cons block blocks ih =>
      rcases Nat.lt_or_ge last (size block) with hlt | hge
      · refine ⟨[], block :: blocks, rfl, Nat.zero_le last, ?_⟩
        intro first more h
        cases h
        exact Nat.lt_of_lt_of_le hlt (Nat.le_add_left _ _)
      · rcases ih (last - size block) with ⟨kept, rest, hsplit, hkept, hrest⟩
        refine ⟨block :: kept, rest, by rw [hsplit, List.cons_append], ?_, ?_⟩
        · rw [total_cons]
          omega
        · intro first more h
          have hnext := hrest first more h
          rw [total_cons]
          omega

/-- The blocks up to a boundary that is not past a place are among those before
the place. -/
theorem prefix_of_total_le {last : Nat} {kept rest before : List α}
    (hrest : forall block more, rest = block :: more ->
      last < total size kept + size block)
    (hbefore : before <+: kept ++ rest) (hle : total size before <= last) :
    before <+: kept := by
  rcases List.prefix_or_prefix_of_prefix hbefore (List.prefix_append kept rest) with
    hstarts | ⟨more, hmore⟩
  · exact hstarts
  · cases more with
    | nil =>
        rw [List.append_nil] at hmore
        exact hmore ▸ List.prefix_refl before
    | cons block more =>
        rcases hbefore with ⟨tail, htail⟩
        rw [← hmore, List.append_assoc, List.append_cancel_left_eq] at htail
        have hnext := hrest block (more ++ tail) htail.symm
        rw [← hmore, total_append, total_cons] at hle
        omega

/-- The last boundary that is not past a place. -/
theorem isGreatest_boundary {last : Nat} {kept rest : List α}
    (hkept : total size kept <= last)
    (hrest : forall block more, rest = block :: more ->
      last < total size kept + size block) :
    IsGreatest {place | Boundary size (kept ++ rest) place ∧ place <= last}
      (total size kept) := by
  constructor
  · exact ⟨⟨kept, List.prefix_append kept rest, rfl⟩, hkept⟩
  · rintro place ⟨⟨before, hbefore, rfl⟩, hplace⟩
    rcases prefix_of_total_le size hrest hbefore hplace with ⟨more, hmore⟩
    rw [← hmore, total_append]
    exact Nat.le_add_right _ _

end Tilings
end Minicask
