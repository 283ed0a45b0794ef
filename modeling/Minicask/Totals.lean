import Mathlib.Algebra.BigOperators.Group.Finset.Basic
import Mathlib.Algebra.Order.BigOperators.Group.Finset
import Mathlib.Algebra.Order.Ring.Nat
import Mathlib.Data.List.AList

/-!
# Totals over finite maps

What the entries of a finite map weigh together.  A total depends on what the map
holds and not on how it is kept, and a change at one key changes it by the weight
there.  A map filled from a list holds nothing but what the list has, and what it
held.
-/

namespace Minicask
namespace Totals

universe u v

variable {α : Type u} {β : Type v}

def total (w : α -> β -> Nat) (d : AList (fun _ : α => β)) : Nat :=
  (d.entries.map (fun e => w e.1 e.2)).sum

theorem total_add (w w' : α -> β -> Nat) (d : AList (fun _ : α => β)) :
    total (fun a b => w a b + w' a b) d = total w d + total w' d :=
  List.sum_map_add

variable [DecidableEq α]

/-- Entries put into a map, one after another. -/
def fill (d : AList (fun _ : α => β)) (entries : List (α × β)) :
    AList (fun _ : α => β) :=
  entries.foldl (fun d entry => d.insert entry.1 entry.2) d

theorem mem_of_lookup_fill {entries : List (α × β)} {d : AList (fun _ : α => β)}
    {a : α} {b : β} (h : (fill d entries).lookup a = some b) :
    (a, b) ∈ entries ∨ d.lookup a = some b := by
  induction entries generalizing d with
  | nil => exact Or.inr h
  | cons entry entries ih =>
      rcases ih h with hin | hlookup
      · exact Or.inl (List.mem_cons_of_mem entry hin)
      · by_cases heq : a = entry.1
        · rw [heq, AList.lookup_insert, Option.some.injEq] at hlookup
          rw [heq, ← hlookup]
          exact Or.inl List.mem_cons_self
        · rw [AList.lookup_insert_ne heq] at hlookup
          exact Or.inr hlookup

theorem isSome_lookup_fill {entries : List (α × β)} {d : AList (fun _ : α => β)}
    {a : α} (h : a ∈ entries.map Prod.fst ∨ (d.lookup a).isSome = true) :
    ((fill d entries).lookup a).isSome = true := by
  induction entries generalizing d with
  | nil =>
      rcases h with hnil | hold
      · cases hnil
      · exact hold
  | cons entry entries ih =>
      apply ih
      by_cases heq : a = entry.1
      · right
        rw [heq, AList.lookup_insert]
        rfl
      · rcases h with hin | hold
        · rcases List.mem_cons.mp hin with hhead | htail
          · exact absurd hhead heq
          · exact Or.inl htail
        · right
          rw [AList.lookup_insert_ne heq]
          exact hold

/-- The weight at a key, or none where the map has nothing. -/
def weight (w : α -> β -> Nat) (d : AList (fun _ : α => β)) (a : α) : Nat :=
  match d.lookup a with
  | some b => w a b
  | none => 0

variable {w w' : α -> β -> Nat} {d d' : AList (fun _ : α => β)}

theorem weight_of_lookup {a : α} {b : β} (h : d.lookup a = some b) :
    weight w d a = w a b := by
  rw [weight, h]

theorem weight_of_none {a : α} (h : d.lookup a = none) : weight w d a = 0 := by
  rw [weight, h]

theorem weight_congr {a : α} (h : d.lookup a = d'.lookup a) :
    weight w d a = weight w d' a := by
  rw [weight, weight, h]

theorem total_eq_sum (s : Finset α) (h : forall a, a ∈ d -> a ∈ s) :
    total w d = ∑ a ∈ s, weight w d a := by
  have hkeys : total w d = ∑ a ∈ d.keys.toFinset, weight w d a := by
    have hnodup : d.keys.Nodup := d.nodupKeys
    rw [List.sum_toFinset _ hnodup]
    show _ = (List.map (weight w d) (d.entries.map Sigma.fst)).sum
    rw [List.map_map]
    refine congrArg List.sum (List.map_congr_left ?_)
    intro e he
    exact (weight_of_lookup (AList.mem_lookup_iff.mpr he)).symm
  rw [hkeys]
  refine Finset.sum_subset ?_ ?_
  · intro a ha
    exact h a (List.mem_toFinset.mp ha)
  · intro a _ hout
    apply weight_of_none
    exact AList.lookup_eq_none.mpr (fun hin => hout (List.mem_toFinset.mpr hin))

theorem exists_cover (d d' : AList (fun _ : α => β)) (a : α) :
    exists s : Finset α, a ∈ s ∧ (forall k, k ∈ d -> k ∈ s) ∧
      forall k, k ∈ d' -> k ∈ s := by
  refine ⟨insert a (d.keys.toFinset ∪ d'.keys.toFinset), by simp, ?_, ?_⟩
  · intro k hk
    exact Finset.mem_insert_of_mem
      (Finset.mem_union_left _ (List.mem_toFinset.mpr hk))
  · intro k hk
    exact Finset.mem_insert_of_mem
      (Finset.mem_union_right _ (List.mem_toFinset.mpr hk))

theorem total_mono (h : forall a, weight w d a <= weight w' d' a) :
    total w d <= total w' d' := by
  by_cases hempty : Nonempty α
  · rcases hempty with ⟨a⟩
    rcases exists_cover d d' a with ⟨s, _, hd, hd'⟩
    rw [total_eq_sum s hd, total_eq_sum s hd']
    exact Finset.sum_le_sum (fun k _ => h k)
  · have hnone : d.entries = [] := by
      cases hentries : d.entries with
      | nil => rfl
      | cons e _ => exact absurd ⟨e.1⟩ hempty
    rw [total, hnone]
    exact Nat.zero_le _

theorem total_congr (h : forall a, weight w d a = weight w' d' a) :
    total w d = total w' d' :=
  Nat.le_antisymm (total_mono (fun a => Nat.le_of_eq (h a)))
    (total_mono (fun a => Nat.le_of_eq (h a).symm))

/-- Two maps that differ at one key. -/
theorem total_differ (a : α)
    (h : forall k, k ≠ a -> weight w d' k = weight w d k) :
    total w d' + weight w d a = total w d + weight w d' a := by
  rcases exists_cover d d' a with ⟨s, ha, hd, hd'⟩
  rw [total_eq_sum s hd, total_eq_sum s hd', ← Finset.add_sum_erase s _ ha,
    ← Finset.add_sum_erase s (weight w d) ha]
  have hrest : ∑ k ∈ s.erase a, weight w d' k = ∑ k ∈ s.erase a, weight w d k :=
    Finset.sum_congr rfl (fun k hk => h k (Finset.ne_of_mem_erase hk))
  rw [hrest]
  omega

theorem weight_le_total (a : α) : weight w d a <= total w d := by
  rcases exists_cover d d a with ⟨s, ha, hd, _⟩
  rw [total_eq_sum s hd]
  exact Finset.single_le_sum (fun _ _ => Nat.zero_le _) ha

theorem total_insert (a : α) (b : β) :
    total w (d.insert a b) + weight w d a = total w d + w a b := by
  have hself : weight w (d.insert a b) a = w a b :=
    weight_of_lookup (AList.lookup_insert d)
  rw [← hself]
  exact total_differ a (fun k hk => weight_congr (AList.lookup_insert_ne hk))

theorem total_erase (a : α) :
    total w (d.erase a) + weight w d a = total w d := by
  have hself : weight w (d.erase a) a = 0 := weight_of_none (AList.lookup_erase a d)
  have hdiffer : total w (d.erase a) + weight w d a =
      total w d + weight w (d.erase a) a :=
    total_differ a (fun k hk => weight_congr (AList.lookup_erase_ne hk))
  rw [hself] at hdiffer
  exact hdiffer

/-- Different things that are all in a list, but for some that weigh nothing. -/
theorem sum_le_of_mem {γ : Type*} {f : γ -> Nat} {cs l : List γ}
    (hnodup : cs.Nodup) (h : forall c, c ∈ cs -> f c ≠ 0 -> c ∈ l) :
    (cs.map f).sum <= (l.map f).sum := by
  classical
  induction cs generalizing l with
  | nil => exact Nat.zero_le _
  | cons c cs ih =>
      rw [List.nodup_cons] at hnodup
      rw [List.map_cons, List.sum_cons]
      by_cases hzero : f c = 0
      · rw [hzero, Nat.zero_add]
        exact ih hnodup.2 (fun c' hc' => h c' (List.mem_cons_of_mem c hc'))
      · have hin := h c List.mem_cons_self hzero
        rw [← List.sum_map_erase f hin]
        refine Nat.add_le_add_left (ih hnodup.2 ?_) (f c)
        intro c' hc' hne
        have hother : c' ≠ c := fun heq => hnodup.1 (heq ▸ hc')
        exact (List.mem_erase_of_ne hother).mpr
          (h c' (List.mem_cons_of_mem c hc') hne)

theorem total_le_sum {l : List (α × β)}
    (h : forall a b, d.lookup a = some b -> w a b ≠ 0 -> (a, b) ∈ l) :
    total w d <= (l.map (fun p => w p.1 p.2)).sum := by
  have hpairs : total w d =
      ((d.entries.map (fun e => (e.1, e.2))).map (fun p => w p.1 p.2)).sum := by
    rw [List.map_map]
    rfl
  have hkeys : (d.entries.map (fun e => (e.1, e.2))).Nodup := by
    have hnodup : (d.entries.map Sigma.fst).Nodup := d.nodupKeys
    refine List.Nodup.of_map Prod.fst ?_
    rw [List.map_map]
    exact hnodup
  rw [hpairs]
  refine sum_le_of_mem hkeys ?_
  intro p hp hne
  rcases List.mem_map.mp hp with ⟨e, he, rfl⟩
  exact h e.1 e.2 (AList.mem_lookup_iff.mpr he) hne

end Totals
end Minicask
