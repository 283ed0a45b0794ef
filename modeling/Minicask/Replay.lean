import Mathlib.Data.List.Perm.Basic
import Mathlib.Logic.Function.Basic

/-!
# Replaying writes

A log of writes to a map, over any keys and values: the last write to a key
decides what it holds.
-/

namespace Minicask
namespace Replay

universe u v

/-- A key and its new value, or `none` when the key goes. -/
structure Write (Key : Type u) (Value : Type v) where
  key : Key
  value : Option Value

variable {Key : Type u} {Value : Type v} [DecidableEq Key]

def act (m : Key -> Option Value) (w : Write Key Value) :
    Key -> Option Value :=
  Function.update m w.key w.value

def replay (m : Key -> Option Value) (ws : List (Write Key Value)) :
    Key -> Option Value :=
  ws.foldl act m

def empty : Key -> Option Value := fun _ => none

@[simp] theorem act_self (m : Key -> Option Value) (w : Write Key Value) :
    act m w w.key = w.value := by
  simp [act]

theorem act_of_ne (m : Key -> Option Value) (w : Write Key Value) {k : Key}
    (h : k ≠ w.key) : act m w k = m k := by
  simp [act, h]

theorem act_eq_self {m : Key -> Option Value} {w : Write Key Value}
    (h : m w.key = w.value) : act m w = m := by
  rw [act, ← h, Function.update_eq_self]

@[simp] theorem replay_nil (m : Key -> Option Value) : replay m [] = m := rfl

@[simp] theorem replay_cons (m : Key -> Option Value) (w : Write Key Value)
    (ws : List (Write Key Value)) :
    replay m (w :: ws) = replay (act m w) ws := rfl

theorem replay_append (m : Key -> Option Value)
    (ws more : List (Write Key Value)) :
    replay m (ws ++ more) = replay (replay m ws) more := by
  exact List.foldl_append

theorem replay_of_forall_ne {ws : List (Write Key Value)} {k : Key}
    (h : forall w, w ∈ ws -> w.key ≠ k) (m : Key -> Option Value) :
    replay m ws k = m k := by
  induction ws generalizing m with
  | nil => rfl
  | cons w ws ih =>
      rw [replay_cons, ih (fun w' hw' => h w' (List.mem_cons_of_mem w hw')),
        act_of_ne]
      exact fun heq => h w List.mem_cons_self heq.symm

theorem replay_eq_self {ws : List (Write Key Value)} {m : Key -> Option Value}
    (h : forall w, w ∈ ws -> m w.key = w.value) : replay m ws = m := by
  induction ws with
  | nil => rfl
  | cons w ws ih =>
      rw [replay_cons, act_eq_self (h w List.mem_cons_self)]
      exact ih (fun w' hw' => h w' (List.mem_cons_of_mem w hw'))

/-- When no key is written twice, every write is the last to its key. -/
theorem replay_of_nodup {ws : List (Write Key Value)}
    (hnodup : (ws.map Write.key).Nodup) {w : Write Key Value} (hw : w ∈ ws)
    (m : Key -> Option Value) : replay m ws w.key = w.value := by
  induction ws generalizing m with
  | nil => cases hw
  | cons head ws ih =>
      rw [List.map_cons, List.nodup_cons] at hnodup
      rw [replay_cons]
      rcases List.mem_cons.mp hw with hhead | htail
      · subst hhead
        rw [replay_of_forall_ne, act_self]
        intro w' hw' heq
        exact hnodup.1 (List.mem_map.mpr ⟨w', hw', heq⟩)
      · exact ih hnodup.2 htail (act m head)

/-!
# The last write to a key
-/

def lastWrite (k : Key) (ws : List (Write Key Value)) :
    Option (Write Key Value) :=
  (ws.filter (fun w => w.key = k)).getLast?

@[simp] theorem lastWrite_nil (k : Key) :
    lastWrite k ([] : List (Write Key Value)) = none := rfl

theorem lastWrite_append (k : Key) (ws more : List (Write Key Value)) :
    lastWrite k (ws ++ more) = (lastWrite k more).or (lastWrite k ws) := by
  rw [lastWrite, lastWrite, lastWrite, List.filter_append,
    List.getLast?_append]

theorem lastWrite_eq_none {k : Key} {ws : List (Write Key Value)} :
    lastWrite k ws = none ↔ forall w, w ∈ ws -> w.key ≠ k := by
  rw [lastWrite, List.getLast?_eq_none_iff, List.filter_eq_nil_iff]
  simp

/-- The last write decides what a key holds. -/
theorem replay_of_lastWrite {ws : List (Write Key Value)} {k : Key}
    {w : Write Key Value} (h : lastWrite k ws = some w)
    (m : Key -> Option Value) : replay m ws k = w.value := by
  induction ws generalizing m with
  | nil => cases h
  | cons head ws ih =>
      rw [replay_cons]
      rw [← List.singleton_append, lastWrite_append] at h
      cases hrest : lastWrite k ws with
      | some w' =>
          rw [hrest, Option.some_or, Option.some.injEq] at h
          subst h
          exact ih hrest (act m head)
      | none =>
          rw [hrest, Option.none_or] at h
          have hkey : head.key = k ∧ head = w := by
            by_cases hhead : head.key = k
            · simp [lastWrite, hhead] at h
              exact ⟨hhead, h⟩
            · simp [lastWrite, hhead] at h
          rw [replay_of_forall_ne (lastWrite_eq_none.mp hrest), ← hkey.1,
            act_self, hkey.2]

end Replay
end Minicask
