import Mathlib.Data.List.Infix
import Mathlib.Data.Set.Basic
import Mathlib.Logic.Function.Basic
import Mathlib.Logic.Relation

/-!
# Leader-based log agreement, without messages

This module states the agreement protocol in its own terms: what every party
has promised, what every leader has ever recorded, and which of the promises a
step may add.  Messages do not appear.  A message of an implementation is a fact
about the history that was true when it was sent, and every fact used here only
ever becomes more true.

Parties, entries, the quorum family and the rule that says which entry fits at
which position are all parameters.
-/

namespace Consensus

/-!
# Logs

Positions in a log are counted from one, and position zero stands for the empty
prefix, which carries stamp zero.
-/

theorem getElem?_of_prefix {l r : List entry} (h : l <+: r) {i : Nat}
    {e : entry} (hi : l[i]? = some e) : r[i]? = some e := by
  rcases List.getElem?_eq_some_iff.mp hi with ⟨hlt, heq⟩
  rw [List.prefix_iff_getElem?.mp h i hlt, heq]

theorem getElem?_of_prefix_of_lt {l r : List entry} (h : l <+: r) {i : Nat}
    (hi : i < l.length) : r[i]? = l[i]? := by
  rw [List.getElem?_eq_getElem hi]
  exact List.prefix_iff_getElem?.mp h i hi

/-- What an instance of the protocol has to say about its parties and entries. -/
structure Setting (party entry : Type) where
  stamp : entry -> Nat
  fits : Nat -> entry -> Prop
  Quorum : Set party -> Prop
  quorum_mono : forall {P Q : Set party}, P ⊆ Q -> Quorum P -> Quorum Q
  quorum_meets : forall {P Q : Set party}, Quorum P -> Quorum Q ->
    exists v, v ∈ P ∧ v ∈ Q

namespace Setting

def stampAt (S : Setting party entry) (l : List entry) : Nat -> Nat
  | 0 => 0
  | i + 1 => (l[i]?.map S.stamp).getD 0

def lastStamp (S : Setting party entry) (l : List entry) : Nat :=
  S.stampAt l l.length

/-- The order that decides a vote: a later last stamp wins, then a longer log. -/
def UpToDate (S : Setting party entry) (l other : List entry) : Prop :=
  S.lastStamp other < S.lastStamp l ∨
    (S.lastStamp other = S.lastStamp l ∧ other.length <= l.length)

theorem upToDate_refl (S : Setting party entry) (l : List entry) :
    S.UpToDate l l :=
  Or.inr ⟨rfl, le_refl _⟩

theorem stampAt_succ_of_getElem? (S : Setting party entry) {l : List entry}
    {i : Nat} {e : entry} (h : l[i]? = some e) :
    S.stampAt l (i + 1) = S.stamp e := by
  simp [stampAt, h]

theorem stampAt_take (S : Setting party entry) (l : List entry) {i k : Nat}
    (h : i <= k) : S.stampAt (l.take k) i = S.stampAt l i := by
  cases i with
  | zero => rfl
  | succ i =>
      have hik : i < k := h
      simp [stampAt, hik]

theorem stampAt_of_isPrefix (S : Setting party entry) {l r : List entry}
    (h : l <+: r) {i : Nat} (hi : i <= l.length) :
    S.stampAt l i = S.stampAt r i := by
  rw [List.prefix_iff_eq_take.mp h]
  exact S.stampAt_take r (by simpa using hi)

end Setting

/-!
# Histories

A history holds the present state of every party, its term and its log, next to
everything that was ever promised or recorded.
-/

structure History (party entry : Type) where
  term : party -> Nat
  log : party -> List entry
  /-- Whom each party voted for, by term. -/
  vote : party -> Nat -> Option party
  /-- The voter's log when it voted, unless the term had a leader already. -/
  ballot : party -> Nat -> Option (List entry)
  leader : Nat -> Option party
  electors : Nat -> Set party
  /-- The log of each term's leader, while it led. -/
  record : Nat -> List entry
  /-- How long that log was when the leader was elected. -/
  start : Nat -> Nat
  /-- How far each party has said its log agrees with the leader's. -/
  acked : party -> Nat -> Nat
  /-- How far each term's leader has counted a quorum. -/
  commit : Nat -> Nat
  /-- The latest round each leader has opened, and each party has answered. -/
  round : Nat -> Nat
  heard : party -> Nat -> Nat

def History.initial : History party entry where
  term := fun _ => 0
  log := fun _ => []
  vote := fun _ _ => none
  ballot := fun _ _ => none
  leader := fun _ => none
  electors := fun _ => ∅
  record := fun _ => []
  start := fun _ => 0
  acked := fun _ _ => 0
  commit := fun _ => 0
  round := fun _ => 0
  heard := fun _ _ => 0

section Steps

variable [DecidableEq party]

/-- Replace one cell of a table indexed by party and term. -/
def setCell (f : party -> Nat -> value) (v : party) (T : Nat) (x : value) :
    party -> Nat -> value :=
  fun w U => if w = v ∧ U = T then x else f w U

@[simp] theorem setCell_self (f : party -> Nat -> value) (v : party) (T : Nat)
    (x : value) : setCell f v T x v T = x := by
  simp [setCell]

theorem setCell_of_ne_party (f : party -> Nat -> value) {v w : party} {T : Nat}
    (x : value) (h : w ≠ v) (U : Nat) : setCell f v T x w U = f w U := by
  simp [setCell, h]

theorem setCell_of_ne_term (f : party -> Nat -> value) (v w : party) {T U : Nat}
    (x : value) (h : U ≠ T) : setCell f v T x w U = f w U := by
  simp [setCell, h]

theorem setCell_of_some {entry : Type _} {f : party -> Nat -> Option entry}
    {v : party} {T : Nat} (hfree : f v T = none) (x : Option entry) {w : party}
    {U : Nat} {d : entry} (h : f w U = some d) : setCell f v T x w U = some d := by
  unfold setCell
  split
  · next hc =>
      rw [hc.left, hc.right, hfree] at h
      cases h
  · exact h

theorem le_setCell_max (f : party -> Nat -> Nat) (v w : party) (T U k : Nat) :
    f w U <= setCell f v T (max (f v T) k) w U := by
  unfold setCell
  split
  · next h =>
      rw [h.left, h.right]
      exact le_max_left _ _
  · exact le_refl _

theorem setCell_max_cases (f : party -> Nat -> Nat) (v w : party)
    (T U k i : Nat) (h : i <= setCell f v T (max (f v T) k) w U) :
    i <= f w U ∨ (w = v ∧ U = T ∧ i <= k) := by
  unfold setCell at h
  split at h
  · next hc =>
      rcases Nat.le_total (f v T) k with hle | hle
      · rw [max_eq_right hle] at h
        exact Or.inr ⟨hc.left, hc.right, h⟩
      · rw [max_eq_left hle] at h
        rw [hc.left, hc.right]
        exact Or.inl h
  · exact Or.inl h

def History.extend (a : History party entry) (v : party) (e : entry) :
    History party entry :=
  { a with
    log := Function.update a.log v (a.log v ++ [e])
    record := Function.update a.record (a.term v) (a.log v ++ [e])
    acked := setCell a.acked v (a.term v) ((a.log v).length + 1) }

/--
What one party may do.  The two ways of taking the leader's log are apart on
purpose: a party that already holds the prefix keeps whatever follows it, and
one that does not is left with exactly the prefix.
-/
inductive Step (S : Setting party entry) (v : party) :
    History party entry -> History party entry -> Prop where
  | bump {a : History party entry} {T : Nat} (hT : a.term v < T) :
      Step S v a { a with term := Function.update a.term v T }
  | stand {a : History party entry}
      (hfree : a.vote v (a.term v) = none)
      (hopen : a.leader (a.term v) = none) :
      Step S v a { a with
        vote := setCell a.vote v (a.term v) (some v)
        ballot := setCell a.ballot v (a.term v) (some (a.log v)) }
  | grant {a : History party entry} {c : party} {l : List entry}
      (hfree : a.vote v (a.term v) = none)
      (hopen : a.leader (a.term v) = none)
      (hself : a.vote c (a.term v) = some c)
      (hballot : a.ballot c (a.term v) = some l)
      (hup : S.UpToDate l (a.log v)) :
      Step S v a { a with
        vote := setCell a.vote v (a.term v) (some c)
        ballot := setCell a.ballot v (a.term v) (some (a.log v)) }
  | lateVote {a : History party entry} {c : party}
      (hfree : a.vote v (a.term v) = none)
      (hclosed : a.leader (a.term v) ≠ none) :
      Step S v a { a with vote := setCell a.vote v (a.term v) (some c) }
  | elect {a : History party entry} {E : Set party}
      (hopen : a.leader (a.term v) = none)
      (hballot : a.ballot v (a.term v) = some (a.log v))
      (hquorum : S.Quorum E)
      (hvotes : forall w, w ∈ E -> a.vote w (a.term v) = some v ∧
        exists l, a.ballot w (a.term v) = some l) :
      Step S v a { a with
        leader := Function.update a.leader (a.term v) (some v)
        electors := Function.update a.electors (a.term v) E
        record := Function.update a.record (a.term v) (a.log v)
        start := Function.update a.start (a.term v) (a.log v).length
        acked := setCell a.acked v (a.term v) (a.log v).length }
  | append {a : History party entry} {e : entry}
      (hlead : a.leader (a.term v) = some v)
      (hstamp : S.stamp e = a.term v)
      (hfits : S.fits (a.log v).length e) :
      Step S v a (a.extend v e)
  | confirm {a : History party entry} {c : party} {k : Nat}
      (hlead : a.leader (a.term v) = some c)
      (hk : k <= (a.record (a.term v)).length)
      (hheld : (a.record (a.term v)).take k <+: a.log v) :
      Step S v a { a with
        acked := setCell a.acked v (a.term v)
          (max (a.acked v (a.term v)) k) }
  | adopt {a : History party entry} {c : party} {k : Nat}
      (hlead : a.leader (a.term v) = some c)
      (hother : c ≠ v)
      (hk : k <= (a.record (a.term v)).length)
      (hlacks : ¬ (a.record (a.term v)).take k <+: a.log v) :
      Step S v a { a with
        log := Function.update a.log v ((a.record (a.term v)).take k)
        acked := setCell a.acked v (a.term v)
          (max (a.acked v (a.term v)) k) }
  | commit {a : History party entry} {i : Nat} {e : entry}
      (hlead : a.leader (a.term v) = some v)
      (hentry : (a.record (a.term v))[i]? = some e)
      (hstamp : S.stamp e = a.term v)
      (hquorum : S.Quorum { w | i + 1 <= a.acked w (a.term v) })
      (hmore : a.commit (a.term v) < i + 1) :
      Step S v a { a with
        commit := Function.update a.commit (a.term v) (i + 1) }
  | raise {a : History party entry} {s : Nat}
      (hlead : a.leader (a.term v) = some v)
      (hmore : a.round (a.term v) <= s) :
      Step S v a { a with round := Function.update a.round (a.term v) s }
  | echo {a : History party entry} {s : Nat}
      (hround : s <= a.round (a.term v)) :
      Step S v a { a with
        heard := setCell a.heard v (a.term v)
          (max (a.heard v (a.term v)) s) }

def Steps (S : Setting party entry) (v : party) :
    History party entry -> History party entry -> Prop :=
  Relation.ReflTransGen (Step S v)

def Run (S : Setting party entry) :
    History party entry -> History party entry -> Prop :=
  Relation.ReflTransGen (fun a b => exists v, Step S v a b)

theorem Steps.toRun {S : Setting party entry} {v : party}
    {a b : History party entry} (h : Steps S v a b) : Run S a b :=
  Relation.ReflTransGen.mono (fun _ _ hstep => ⟨v, hstep⟩) _ _ h

def Reachable (S : Setting party entry) (a : History party entry) : Prop :=
  Run S History.initial a

theorem Reachable.steps {S : Setting party entry} {v : party}
    {a b : History party entry} (ha : Reachable S a) (h : Steps S v a b) :
    Reachable S b :=
  Relation.ReflTransGen.trans ha h.toRun

/-!
# What other parties see of a step

A step of one party leaves the state of every other party alone, and it only
speaks for a term that the party itself leads.
-/

structure Untouched (v : party) (a b : History party entry) : Prop where
  term : forall w, w ≠ v -> b.term w = a.term w
  log : forall w, w ≠ v -> b.log w = a.log w
  vote : forall w, w ≠ v -> b.vote w = a.vote w
  ballot : forall w, w ≠ v -> b.ballot w = a.ballot w
  leader : forall T c, b.leader T = some c -> a.leader T = some c ∨ c = v
  round : forall T c, a.leader T = some c -> c ≠ v -> b.round T = a.round T
  commit : forall T c, a.leader T = some c -> c ≠ v -> b.commit T = a.commit T

omit [DecidableEq party] in
theorem Untouched.refl (v : party) (a : History party entry) :
    Untouched v a a where
  term := fun _ _ => rfl
  log := fun _ _ => rfl
  vote := fun _ _ => rfl
  ballot := fun _ _ => rfl
  leader := fun _ _ h => Or.inl h
  round := fun _ _ _ _ => rfl
  commit := fun _ _ _ _ => rfl

omit [DecidableEq party] in
theorem update_self_of_lead {lead : Nat -> Option party} {f : Nat -> value}
    {v c : party} {T U : Nat} {x : value} (hv : lead T = some v)
    (hU : lead U = some c) (hc : c ≠ v) : Function.update f T x U = f U := by
  apply Function.update_of_ne
  intro hUT
  rw [hUT, hv] at hU
  exact hc (Option.some.inj hU).symm

theorem Step.untouched {S : Setting party entry} {v : party}
    {a b : History party entry} (h : Step S v a b) : Untouched v a b := by
  cases h with
  | bump hT =>
      exact { Untouched.refl v a with
        term := fun w hw => Function.update_of_ne hw _ _ }
  | stand hfree hopen =>
      exact { Untouched.refl v a with
        vote := fun w hw => funext (setCell_of_ne_party _ _ hw)
        ballot := fun w hw => funext (setCell_of_ne_party _ _ hw) }
  | grant hfree hopen hself hballot hup =>
      exact { Untouched.refl v a with
        vote := fun w hw => funext (setCell_of_ne_party _ _ hw)
        ballot := fun w hw => funext (setCell_of_ne_party _ _ hw) }
  | lateVote hfree hclosed =>
      exact { Untouched.refl v a with
        vote := fun w hw => funext (setCell_of_ne_party _ _ hw) }
  | elect hopen hballot hquorum hvotes =>
      refine { Untouched.refl v a with leader := ?_ }
      intro T c hc
      by_cases hT : T = a.term v
      · rw [hT] at hc
        right
        simpa [eq_comm] using hc
      · left
        simpa [Function.update_of_ne hT] using hc
  | append hlead hstamp hfits =>
      exact { Untouched.refl v a with
        log := fun w hw => Function.update_of_ne hw _ _ }
  | confirm hlead hk hheld =>
      exact { Untouched.refl v a with }
  | adopt hlead hother hk hlacks =>
      exact { Untouched.refl v a with
        log := fun w hw => Function.update_of_ne hw _ _ }
  | commit hlead hentry hstamp hquorum hmore =>
      exact { Untouched.refl v a with
        commit := fun T c hT hc => update_self_of_lead hlead hT hc }
  | raise hlead hmore =>
      exact { Untouched.refl v a with
        round := fun T c hT hc => update_self_of_lead hlead hT hc }
  | echo hround =>
      exact { Untouched.refl v a with }

end Steps

end Consensus
