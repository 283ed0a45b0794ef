import Minicask.Store.Slots

/-!
# Unlinking old files one at a time

While the files that a merge replaced are being unlinked, some are gone and some
are not.  A key that the files kept say nothing of has to stay deleted all along,
so a put of it must never outlast the newer records that bury it.
-/

namespace Minicask

open Replay

/-- What the records of a file last say of a key. -/
def Chart.last (chart : Chart) (k : Bytes) (id : FileId) :
    Option (Write Bytes Bytes) :=
  lastWrite k ((chart id).map Rec.write)

theorem Chart.last_without (chart : Chart) (ids : List FileId) (k : Bytes)
    (id : FileId) :
    (chart.without ids).last k id =
      if id ∈ ids then none else chart.last k id := by
  rw [last, last, without]
  split <;> rfl

/-- The newest file that mentions a key has the last word. -/
theorem last_flatMap (chart : Chart) (k : Bytes) (n : Nat)
    (w : Write Bytes Bytes) :
    lastWrite k (((List.range n).flatMap chart).map Rec.write) = some w ↔
      exists id, id < n ∧ chart.last k id = some w ∧
        forall id', id < id' -> id' < n -> chart.last k id' = none := by
  induction n with
  | zero =>
      constructor
      · intro h
        cases h
      · rintro ⟨id, hid, _⟩
        cases hid
  | succ n ih =>
      have hlog : ((List.range (n + 1)).flatMap chart).map Rec.write =
          ((List.range n).flatMap chart).map Rec.write ++
            (chart n).map Rec.write := by
        rw [List.range_succ, List.flatMap_append, List.map_append]
        simp
      rw [hlog, lastWrite_append]
      change (chart.last k n).or _ = some w ↔ _
      cases hlast : chart.last k n with
      | some w' =>
          rw [Option.some_or, Option.some.injEq]
          constructor
          · rintro rfl
            exact ⟨n, Nat.lt_succ_self n, hlast, fun id' hlow hhigh =>
              absurd hlow (Nat.not_lt_of_le (Nat.le_of_lt_succ hhigh))⟩
          · rintro ⟨id, hid, hsome, hnone⟩
            have heq : id = n := by
              by_contra hne
              have hless : id < n :=
                Nat.lt_of_le_of_ne (Nat.le_of_lt_succ hid) hne
              rw [hnone n hless (Nat.lt_succ_self n)] at hlast
              cases hlast
            rw [heq, hlast, Option.some.injEq] at hsome
            exact hsome
      | none =>
          rw [Option.none_or, ih]
          constructor
          · rintro ⟨id, hid, hsome, hnone⟩
            refine ⟨id, Nat.lt_succ_of_lt hid, hsome, ?_⟩
            intro id' hlow hhigh
            by_cases heq : id' = n
            · rw [heq]
              exact hlast
            · exact hnone id' hlow
                (Nat.lt_of_le_of_ne (Nat.le_of_lt_succ hhigh) heq)
          · rintro ⟨id, hid, hsome, hnone⟩
            have hne : id ≠ n := by
              intro heq
              rw [heq, hlast] at hsome
              cases hsome
            exact ⟨id, Nat.lt_of_le_of_ne (Nat.le_of_lt_succ hid) hne, hsome,
              fun id' hlow hhigh => hnone id' hlow (Nat.lt_succ_of_lt hhigh)⟩

theorem last_logged (chart : Chart) (k : Bytes) (top : FileId)
    (w : Write Bytes Bytes) :
    lastWrite k ((logged chart top).map Rec.write) = some w ↔
      exists id, id <= top ∧ chart.last k id = some w ∧
        forall id', id < id' -> id' <= top -> chart.last k id' = none := by
  rw [logged, last_flatMap]
  simp only [Nat.lt_succ_iff]

/-- A key holds a value when the newest file that mentions it ends on a put. -/
theorem recorded_eq_some {chart : Chart} {top : FileId} {k value : Bytes} :
    recorded chart top k = some value ↔
      exists id w, id <= top ∧ chart.last k id = some w ∧
        w.value = some value ∧
        forall id', id < id' -> id' <= top -> chart.last k id' = none := by
  rw [recorded]
  cases hlast : lastWrite k ((logged chart top).map Rec.write) with
  | none =>
      have hnone : replay empty ((logged chart top).map Rec.write) k = none :=
        replay_of_forall_ne (lastWrite_eq_none.mp hlast) empty
      rw [hnone]
      constructor
      · intro h
        cases h
      · rintro ⟨id, w, hid, hsome, _, hnewer⟩
        rw [(last_logged chart k top w).mpr ⟨id, hid, hsome, hnewer⟩] at hlast
        cases hlast
  | some w =>
      rw [replay_of_lastWrite hlast]
      rcases (last_logged chart k top w).mp hlast with
        ⟨id, hid, hsome, hnewer⟩
      constructor
      · intro hvalue
        exact ⟨id, w, hid, hsome, hvalue, hnewer⟩
      · rintro ⟨id', w', hid', hsome', hvalue, hnewer'⟩
        have hlast' := (last_logged chart k top w').mpr
          ⟨id', hid', hsome', hnewer'⟩
        rw [hlast, Option.some.injEq] at hlast'
        rw [hlast', hvalue]

/-!
# In which order they may go
-/

/-- The other files say nothing of a key. -/
def Unkept (chart : Chart) (top : FileId) (order : List FileId)
    (k : Bytes) : Prop :=
  forall id, id <= top -> id ∉ order -> chart.last k id = none

/-- Files whose live keys are all in newer files. -/
structure Replaced (chart : Chart) (top : FileId) (order : List FileId) :
    Prop where
  nodup : order.Nodup
  within : forall id, id ∈ order -> id <= top
  newer : forall id id', id ∈ order -> id' ∉ order -> chart id' ≠ [] ->
    id < id'
  dead : forall k, Unkept chart top order k -> recorded chart top k = none

/-- Every file that ends on a put of the key goes before some newer file that
mentions it. -/
def Buries (chart : Chart) (order : List FileId) (k : Bytes) : Prop :=
  forall before id after w, order = before ++ id :: after ->
    chart.last k id = some w -> w.value ≠ none ->
    exists id', id' ∈ after ∧ id < id' ∧ chart.last k id' ≠ none

/-- A key that a kept file mentions is decided by the kept files. -/
theorem Replaced.recorded_kept {chart : Chart} {top : FileId}
    {order gone : List FileId} (h : Replaced chart top order)
    (hgone : gone <+: order) {k : Bytes} {kept : FileId} (hle : kept <= top)
    (hnot : kept ∉ order) (hmentions : chart.last k kept ≠ none) :
    recorded (chart.without gone) top k = recorded chart top k := by
  have hsome : chart kept ≠ [] := by
    intro hnil
    rw [Chart.last, hnil] at hmentions
    exact hmentions rfl
  have hsame : forall id, kept <= id ->
      (chart.without gone).last k id = chart.last k id := by
    intro id hge
    rw [chart.last_without, if_neg]
    intro hin
    have hless := h.newer id kept (hgone.subset hin) hnot hsome
    exact Nat.not_lt_of_le hge hless
  -- Either way the newest mention is in the kept file or a newer one.
  have hfrom : forall c : Chart, c.last k kept = chart.last k kept ->
      forall id w, c.last k id = some w ->
      (forall id', id < id' -> id' <= top -> c.last k id' = none) ->
      kept <= id := by
    intro c hc id w _ hnewer
    by_contra hless
    rw [hnewer kept (Nat.lt_of_not_le hless) hle] at hc
    exact hmentions hc.symm
  apply Option.ext
  intro value
  rw [recorded_eq_some, recorded_eq_some]
  constructor
  · rintro ⟨id, w, hid, hlast, hvalue, hnewer⟩
    have hge := hfrom _ (hsame kept (Nat.le_refl _)) id w hlast hnewer
    refine ⟨id, w, hid, by rw [← hsame id hge]; exact hlast, hvalue, ?_⟩
    intro id' hlow hhigh
    rw [← hsame id' (Nat.le_trans hge (Nat.le_of_lt hlow))]
    exact hnewer id' hlow hhigh
  · rintro ⟨id, w, hid, hlast, hvalue, hnewer⟩
    have hge := hfrom chart rfl id w hlast hnewer
    refine ⟨id, w, hid, by rw [hsame id hge]; exact hlast, hvalue, ?_⟩
    intro id' hlow hhigh
    rw [hsame id' (Nat.le_trans hge (Nat.le_of_lt hlow))]
    exact hnewer id' hlow hhigh

theorem Replaced.stays_dead {chart : Chart} {top : FileId}
    {order gone : List FileId} (h : Replaced chart top order)
    (hgone : gone <+: order) {k : Bytes} (hunkept : Unkept chart top order k)
    (hburies : Buries chart order k) :
    recorded (chart.without gone) top k = none := by
  rcases hgone with ⟨rest, hrest⟩
  have hnodup := h.nodup
  rw [← hrest, List.nodup_append] at hnodup
  cases hvalue : recorded (chart.without gone) top k with
  | none => rfl
  | some value =>
      rcases recorded_eq_some.mp hvalue with
        ⟨id, w, hid, hlast, hput, hnewer⟩
      rw [chart.last_without] at hlast
      by_cases hin : id ∈ gone
      · rw [if_pos hin] at hlast
        cases hlast
      rw [if_neg hin] at hlast
      have horder : id ∈ order := by
        by_contra hnot
        rw [hunkept id hid hnot] at hlast
        cases hlast
      have hleft : id ∈ rest := by
        rw [← hrest] at horder
        exact (List.mem_append.mp horder).resolve_left hin
      rcases List.append_of_mem hleft with ⟨before, after, hsplit⟩
      rcases hburies (gone ++ before) id after w
        (by rw [← hrest, hsplit, List.append_assoc]) hlast
        (by rw [hput]; nofun) with ⟨id', hafter, hless, hmentions⟩
      have hleft' : id' ∈ rest := by
        rw [hsplit]
        exact List.mem_append_right before (List.mem_cons_of_mem id hafter)
      have hnone := hnewer id' hless (h.within id' (by
        rw [← hrest]
        exact List.mem_append_right gone hleft'))
      rw [chart.last_without, if_neg (fun hin' =>
        hnodup.2.2 id' hin' id' hleft' rfl)] at hnone
      exact absurd hnone hmentions

/-- However far the unlinking got, the files replay to the same map, exactly when
nothing that is deleted outlasts what deletes it. -/
theorem unlinking_iff {chart : Chart} {top : FileId} {order : List FileId}
    (h : Replaced chart top order) :
    (forall gone, gone <+: order ->
      recorded (chart.without gone) top = recorded chart top) ↔
    forall k, Unkept chart top order k -> Buries chart order k := by
  constructor
  · intro hall k hunkept before id after w hsplit hlast hput
    by_contra hnone
    have hnodup := h.nodup
    rw [hsplit, List.nodup_append] at hnodup
    have hbefore : id ∉ before := fun hin =>
      hnodup.2.2 id hin id List.mem_cons_self rfl
    have hdead := congrFun (hall before ⟨id :: after, hsplit.symm⟩) k
    rw [h.dead k hunkept] at hdead
    cases hvalue : w.value with
    | none => exact hput hvalue
    | some value =>
        -- With everything before it gone, this put is the last word.
        have hsome : recorded (chart.without before) top k = some value := by
          refine recorded_eq_some.mpr ⟨id, w, h.within id (by
            rw [hsplit]
            exact List.mem_append_right before List.mem_cons_self), ?_,
            hvalue, ?_⟩
          · rw [chart.last_without, if_neg hbefore]
            exact hlast
          · intro id' hless hle
            rw [chart.last_without]
            by_cases hin : id' ∈ before
            · rw [if_pos hin]
            · rw [if_neg hin]
              by_cases horder : id' ∈ order
              · rw [hsplit] at horder
                have hafter : id' ∈ after := by
                  rcases List.mem_append.mp horder with hin' | hin'
                  · exact absurd hin' hin
                  · exact (List.mem_cons.mp hin').resolve_left
                      (Nat.ne_of_gt hless)
                by_contra hmentions
                exact hnone ⟨id', hafter, hless, hmentions⟩
              · exact hunkept id' hle horder
        rw [hsome] at hdead
        cases hdead
  · intro hburies gone hgone
    funext k
    by_cases hunkept : Unkept chart top order k
    · rw [h.stays_dead hgone hunkept (hburies k hunkept),
        h.dead k hunkept]
    · unfold Unkept at hunkept
      push Not at hunkept
      rcases hunkept with ⟨kept, hle, hnot, hmentions⟩
      exact h.recorded_kept hgone hle hnot hmentions

end Minicask
