import Minicask.Replicated.FleetHistory

/-!
# How far a replica has applied

A replica applies what its node has committed, and never goes back.  So what it has
applied lies below what some leader has counted as committed.
-/

namespace Minicask
namespace Replicated

open Raft Consensus

/-- A move forward that goes no further than that. -/
def Advances (a : Past) (n : NodeId) (i j : Nat) : Prop :=
  i <= j ∧ (Reaches a n i -> Reaches a n j)

namespace Reaches

variable {a : Past} {n : NodeId} {i j : Nat}

theorem counted (h : Reaches a n i) : exists U, i <= a.commit U := by
  rcases h with ⟨_, U, _, hU, _⟩
  exact ⟨U, hU⟩

theorem advances (h : Reaches a n j) (hle : i <= j) : Advances a n i j :=
  ⟨hle, fun _ => h⟩

end Reaches

namespace Advances

variable {a : Past} {n : NodeId} {i j k : Nat}

theorem refl (a : Past) (n : NodeId) (i : Nat) : Advances a n i i :=
  ⟨Nat.le_refl _, fun h => h⟩

theorem of_eq (h : j = i) : Advances a n i j := by
  rw [h]
  exact refl a n i

theorem trans (h : Advances a n i j) (h' : Advances a n j k) :
    Advances a n i k :=
  ⟨Nat.le_trans h.1 h'.1, fun hreached => h'.2 (h.2 hreached)⟩

end Advances

/-!
# Applying
-/

section Applying

variable {B : List Member} {a : Past} {n : NodeId} {env : Env}

/-- What is handed over has been committed. -/
theorem Reaches.handed {node : Node} (h : NodeOk B a n node) {e : Entry}
    (he : e ∈ node.takeCommitted.2) : Reaches a n e.index := by
  rcases List.mem_filterMap.mp he with ⟨i, hi, hentry⟩
  have hindex := (h.storage.shows.entry_eq_some hentry).2.2
  rw [hindex]
  exact h.commit.le (MemStorage.mem_indices.mp hi).2

theorem applyEntry_applied {state state' : Store × Nat} {e : Entry}
    (h : applyEntry env state e = Except.ok state') :
    state'.2 = max state.2 e.index := by
  rcases state with ⟨store, applied⟩
  unfold applyEntry at h
  dsimp only at h ⊢
  split at h
  · next hold =>
      cases h
      exact (Nat.max_eq_left hold).symm
  · next hnew =>
      have hmax : max applied e.index = e.index :=
        Nat.max_eq_right (Nat.le_of_not_le hnew)
      rw [hmax]
      split at h
      · cases h
        rfl
      · cases h
        rfl
      · rcases Fallible.bind_eq_ok h with ⟨op, _, h⟩
        cases op with
        | put key value =>
            rcases Fallible.map_eq_ok h with ⟨_, _, rfl⟩
            rfl
        | delete key =>
            rcases Fallible.map_eq_ok h with ⟨_, _, rfl⟩
            rfl

theorem applied_batch {entries : List Entry}
    (hreach : forall e, e ∈ entries -> Reaches a n e.index) {state state' : Store × Nat}
    (hloop : entries.foldlM (applyEntry env) state = Except.ok state') :
    Advances a n state.2 state'.2 := by
  apply Fallible.foldlM_keeps (P := fun next => Advances a n state.2 next.2) _
    (Advances.refl a n state.2) hloop
  intro e he next next' hnext hmove
  refine hnext.trans ?_
  rw [applyEntry_applied hmove]
  refine ⟨Nat.le_max_left _ _, fun hreached => ?_⟩
  rcases Nat.le_total next.2 e.index with hle | hle
  · rw [Nat.max_eq_right hle]
    exact hreach e he
  · rw [Nat.max_eq_left hle]
    exact hreached

theorem startSnapshot_applied {r r' : ReplicatedStore} {job : SnapshotJob}
    (h : r.startSnapshot = (some job, r')) : r'.applied = r.applied := by
  unfold ReplicatedStore.startSnapshot at h
  split at h
  · cases h
  · split at h
    · cases h
    · cases h
      rfl

theorem finishSnapshot_applied {r r' : ReplicatedStore} {sink : MemSnapshot}
    (h : r.finishSnapshot env sink = Except.ok r') :
    r'.applied = r.applied := by
  unfold ReplicatedStore.finishSnapshot at h
  dsimp only at h
  split at h
  · split at h
    · cases h
      rfl
    · rcases Fallible.map_eq_ok h with ⟨_, _, rfl⟩
      rfl
  · cases h
    rfl

theorem restore_applied {r r' : ReplicatedStore}
    (h : r.restore env = Except.ok r') : r'.applied = r.snapshotIndex := by
  rcases ReplicatedStore.restore_eq_ok h with ⟨_, _, _, _, rfl⟩
  rfl

theorem Levelled.advances {r r' : ReplicatedStore} (h : Levelled env r r')
    (hsnapshot : Reaches a n r.snapshotIndex) : Advances a n r.applied r'.applied := by
  cases h with
  | same _ => exact Advances.refl a n _
  | restored hahead _ hrestore =>
      rw [restore_applied hrestore]
      exact hsnapshot.advances (Nat.le_of_lt hahead)

theorem apply_advances {r r' : ReplicatedStore} (h : NodeOk B a n r.node)
    (happly : r.apply env = Except.ok r') : Advances a n r.applied r'.applied := by
  rcases apply_parts happly with rfl | ⟨level, store, applied, hlevel, hloop, hrest⟩
  · exact Advances.refl a n _
  · have hlevelled := hlevel.advances h.storage.base
    rw [← hlevel.node_eq] at h
    have hbatch := applied_batch (fun e he => Reaches.handed h he) hloop
    refine (hlevelled.trans hbatch).trans ?_
    rcases hrest with rfl | ⟨job, started, sink, hstart, _, hfinish⟩
    · exact Advances.refl a n _
    · apply Advances.of_eq
      rw [finishSnapshot_applied hfinish, startSnapshot_applied hstart]
      rfl

/-- What is left to be applied to has not gone back either. -/
theorem Event.applies_advances {c : Committed} {s s' : System} {e : Event}
    (hinv : Invariant c 0 s) (hsnapshot : Reaches a n s.replica.snapshotIndex)
    (happlies : e.applies s = some (env, s')) :
    Advances a n s.replica.applied s'.replica.applied := by
  cases e with
  | tick env' =>
      cases happlies
      exact Advances.refl a n _
  | step env' sender message =>
      rcases Event.applies_step happlies with ⟨rfl, _⟩
      exact Advances.refl a n _
  | finishRestore env' =>
      have hrestore := hinv.restore
      unfold RestoreOk at hrestore
      unfold Event.applies at happlies
      dsimp only at happlies
      split at happlies
      · next done hwork =>
          rw [hwork] at hrestore
          rcases hrestore with ⟨_, hindex, hwaiting⟩
          cases happlies
          dsimp only
          rw [hindex]
          exact hsnapshot.advances (Nat.le_of_lt (hinv.good.waiting hwaiting))
      · cases happlies
  | _ => cases happlies

/-- Whatever happens to a replica, it does not go back, and it goes no further than
what is committed once its node has been through the event. -/
theorem System.next_advances {c : Committed} {s s' : System} {e : Event}
    (hinv : Invariant c 0 s) (h : NodeOk B a n (e.node s.replica))
    (hsnapshot : Reaches a n s.replica.snapshotIndex)
    (hnext : s.next e = Except.ok s') :
    Advances a n s.replica.applied s'.replica.applied := by
  cases System.next_handled hnext with
  | same _ _ happlied => exact Advances.of_eq happlied
  | applied happlies hsame _ happly =>
      rw [← hsame] at h
      exact (Event.applies_advances hinv hsnapshot happlies).trans
        (apply_advances h happly)
  | started _ hstart _ => exact Advances.of_eq (startSnapshot_applied hstart)
  | ran _ _ _ hreplica _ =>
      rw [hreplica]
      exact Advances.refl a n _
  | finished _ _ hfinish _ => exact Advances.of_eq (finishSnapshot_applied hfinish)

end Applying

/-- How far a replica has applied, or says that it has once it has come back. -/
def Stage.applied : Stage -> Nat
  | Stage.up s => s.replica.applied
  | Stage.down disk _ => readApplied { disk := disk }

end Replicated
end Minicask
