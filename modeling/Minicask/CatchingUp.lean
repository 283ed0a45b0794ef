import Minicask.Replay

/-!
# Replaying over a map that is ahead

A map that has some of a log's writes but not others, key by key, and the same log
replayed over it from a point before them all.  Each key goes back to what the log
says of it as soon as the log writes it again, so once the replay is past every
write the map had, the two are the same.
-/

namespace Minicask
namespace Replay

universe u v

variable {Key : Type u} {Value : Type v}

/-- Each key is as one of the points from `low` to `high` of a history has it. -/
def Between (history : Nat -> Key -> Option Value) (low high : Nat)
    (m : Key -> Option Value) : Prop :=
  forall k, exists i, low <= i ∧ i <= high ∧ m k = history i k

/-- Each step of a history replays some writes. -/
def Steps [DecidableEq Key] (history : Nat -> Key -> Option Value)
    (writes : Nat -> List (Write Key Value)) : Prop :=
  forall i, history (i + 1) = replay (history i) (writes (i + 1))

/-- Over any two maps a key comes to the same if it is written at all. -/
theorem replay_eq_or [DecidableEq Key] (m m' : Key -> Option Value)
    (ws : List (Write Key Value)) (k : Key) :
    replay m ws k = replay m' ws k ∨
      (replay m ws k = m k ∧ replay m' ws k = m' k) := by
  cases hlast : lastWrite k ws with
  | none =>
      have hnever := lastWrite_eq_none.mp hlast
      exact Or.inr ⟨replay_of_forall_ne hnever m, replay_of_forall_ne hnever m'⟩
  | some w =>
      left
      rw [replay_of_lastWrite hlast, replay_of_lastWrite hlast]

namespace Between

variable {history : Nat -> Key -> Option Value} {low high : Nat}
  {m : Key -> Option Value}

theorem mono (h : Between history low high m) {low' high' : Nat}
    (hlow : low' <= low) (hhigh : high <= high') :
    Between history low' high' m := by
  intro k
  rcases h k with ⟨i, hleast, hmost, heq⟩
  exact ⟨i, Nat.le_trans hlow hleast, Nat.le_trans hmost hhigh, heq⟩

theorem self (history : Nat -> Key -> Option Value) {i : Nat} (hlow : low <= i)
    (hhigh : i <= high) : Between history low high (history i) :=
  fun _ => ⟨i, hlow, hhigh, rfl⟩

theorem exact (h : Between history low high m) (hle : high <= low) :
    m = history low := by
  funext k
  rcases h k with ⟨i, hlow, hhigh, heq⟩
  rw [heq, Nat.le_antisymm (Nat.le_trans hhigh hle) hlow]

/-- The next writes bring the low end up by one. -/
theorem replay [DecidableEq Key] {writes : Nat -> List (Write Key Value)}
    (hsteps : Steps history writes) (h : Between history low high m)
    (hhigh : low + 1 <= high) :
    Between history (low + 1) high (Replay.replay m (writes (low + 1))) := by
  intro k
  rcases h k with ⟨i, hleast, hmost, heq⟩
  have hnext := hsteps low
  rcases replay_eq_or m (history low) (writes (low + 1)) k with
    hsame | ⟨hkept, hkept'⟩
  · exact ⟨low + 1, Nat.le_refl _, hhigh, hsame.trans (by rw [hnext])⟩
  · rw [← hnext] at hkept'
    rcases Nat.lt_or_eq_of_le hleast with hless | hsame
    · exact ⟨i, hless, hmost, hkept.trans heq⟩
    · refine ⟨low + 1, Nat.le_refl _, hhigh, ?_⟩
      rw [hkept, heq, ← hsame, hkept']

end Between

end Replay
end Minicask
