import Minicask.Store.Log
import Minicask.Tilings

/-!
# The scanner tiles a file

From any boundary of a file of records, cut anywhere, the scanner finds the records
that are left whole and nothing else, and ends at the last boundary.
-/

namespace Minicask

open Tilings

/-!
# The scanner run to its end
-/

namespace Scanner

theorem length_lt_of_record {s s' : Scanner} {found : Scanned}
    (h : s.nextRecord = (ScanOutcome.record found, s')) :
    s'.rest.length < s.rest.length := by
  unfold nextRecord at h
  dsimp only at h
  split at h
  · cases h
  · next hnonempty =>
      split at h
      · cases h
      · split at h
        · cases h
        · split at h
          · cases h
          · cases h
            simp only [List.length_take, headerLen] at hnonempty
            simp only [List.length_drop, headerLen]
            omega

/-- Every record up to the first outcome that is not one, and that outcome. -/
def drain (s : Scanner) : List Scanned × ScanOutcome :=
  match _h : s.nextRecord with
  | (ScanOutcome.record found, s') =>
      let (rest, outcome) := s'.drain
      (found :: rest, outcome)
  | (ScanOutcome.eof, _) => ([], ScanOutcome.eof)
  | (ScanOutcome.torn offset detail, _) => ([], ScanOutcome.torn offset detail)
termination_by s.rest.length
decreasing_by exact length_lt_of_record _h

theorem drain_eq (s : Scanner) :
    s.drain =
      match s.nextRecord with
      | (ScanOutcome.record found, s') => (found :: s'.drain.1, s'.drain.2)
      | (ScanOutcome.eof, _) => ([], ScanOutcome.eof)
      | (ScanOutcome.torn offset detail, _) =>
          ([], ScanOutcome.torn offset detail) := by
  rw [drain]
  split
  · next hnext => rw [hnext]
  · next hnext => rw [hnext]
  · next hnext => rw [hnext]

end Scanner

/-!
# Files of records
-/

namespace Rec

def size (r : Rec) : Nat :=
  r.bytes.length

theorem size_pos (r : Rec) : 0 < r.size :=
  List.length_pos_iff.mpr r.bytes_ne_nil

theorem total_size (rs : List Rec) : total size rs = (join rs).length := by
  induction rs with
  | nil => rfl
  | cons r rs ih =>
      rw [total_cons, ih, join_cons, List.length_append]
      rfl

/-- What the scanner makes of a record that starts here. -/
def scanned (start : Nat) (r : Rec) : Scanned where
  offset := start
  len := UInt32.ofNat r.bytes.length
  header := r.header
  key := r.key

end Rec

namespace Scanner

/-- Whole records are found one after another, and then what is behind them. -/
theorem drain_join (rs : List Rec) (tail : Bytes) (start : Nat) :
    drain { rest := Rec.join rs ++ tail, offset := start } =
      ((laid Rec.size start rs).map (fun (start, r) => r.scanned start) ++
          (drain { rest := tail, offset := start + total Rec.size rs }).1,
        (drain { rest := tail, offset := start + total Rec.size rs }).2) := by
  induction rs generalizing start with
  | nil => rfl
  | cons r rs ih =>
      rw [Rec.join_cons, List.append_assoc, drain_eq, nextRecord_bytes]
      dsimp only
      rw [ih, total_cons, ← Nat.add_assoc]
      rfl

/-- Part of a record is a tear, and no part of it is the end of the file. -/
theorem drain_cut (r : Rec) {n : Nat} (hn : n < r.size) (start : Nat) :
    (n = 0 ∧ drain { rest := r.bytes.take n, offset := start } =
        ([], ScanOutcome.eof)) ∨
      (0 < n ∧ exists detail,
        drain { rest := r.bytes.take n, offset := start } =
          ([], ScanOutcome.torn start detail)) := by
  have hlength : (r.bytes.take n).length = n := by
    rw [List.length_take]
    exact Nat.min_eq_left (Nat.le_of_lt hn)
  cases n with
  | zero =>
      refine Or.inl ⟨rfl, ?_⟩
      rw [List.take_zero, drain_eq, nextRecord_nil]
  | succ n =>
      refine Or.inr ⟨Nat.succ_pos n, ?_⟩
      have hne : r.bytes.take (n + 1) ≠ [] := by
        intro hnil
        rw [hnil] at hlength
        cases hlength
      rcases nextRecord_torn r (List.take_prefix _ _) hne (by rwa [hlength]) start
        with ⟨detail, hnext⟩
      refine ⟨detail, ?_⟩
      rw [drain_eq, hnext]

end Scanner

/-- Offset, length, key, timestamp and tombstone flag. -/
def Scanned.report (found : Scanned) : Nat × Nat × Bytes × UInt64 × Bool :=
  (found.offset, found.len.toNat, found.key, found.header.tstamp,
    found.header.isTombstone)

def Rec.report (start : Nat) (r : Rec) : Nat × Nat × Bytes × UInt64 × Bool :=
  (start, r.bytes.length, r.key, r.tstamp, r.value.isNone)

theorem Rec.report_scanned (start : Nat) (r : Rec) :
    (r.scanned start).report = r.report start := by
  unfold Scanned.report Rec.report scanned
  dsimp only
  rw [r.toNat_length_bytes, r.isTombstone_header]
  rfl

theorem drop_take_join {before kept rest : List Rec} {n : Nat}
    (hkept : total Rec.size (before ++ kept) <= n) :
    ((Rec.join (before ++ kept ++ rest)).take n).drop (total Rec.size before) =
      Rec.join kept ++
        (Rec.join rest).take (n - total Rec.size (before ++ kept)) := by
  rw [Rec.total_size] at hkept ⊢
  rw [Rec.total_size, Rec.join_append _ rest, List.take_append,
    List.take_of_length_le hkept, Rec.join_append, List.append_assoc,
    List.drop_left]

/-- Where a cut is part of the way through a record, the scanner stops at that
record, and otherwise at the end. -/
theorem Scanner.drain_rest {rest : List Rec} {k : Nat}
    (hk : k <= (Rec.join rest).length)
    (hrest : forall r more, rest = r :: more -> k < r.size) (start : Nat) :
    (k = 0 ∧ drain { rest := (Rec.join rest).take k, offset := start } =
        ([], ScanOutcome.eof)) ∨
      (0 < k ∧ exists detail,
        drain { rest := (Rec.join rest).take k, offset := start } =
          ([], ScanOutcome.torn start detail)) := by
  cases rest with
  | nil =>
      refine Or.inl ⟨Nat.le_zero.mp hk, ?_⟩
      rw [Rec.join_nil, List.take_nil, drain_eq, nextRecord_nil]
  | cons r more =>
      have hlt := hrest r more rfl
      rw [Rec.join_cons, List.take_append_of_le_length (Nat.le_of_lt hlt)]
      exact drain_cut r hlt start

/-- From a boundary of a file that was cut anywhere, the scanner finds the records
that are whole, and then either the end or a tear at the last boundary. -/
theorem scanner_tiles {dir : Dir} {id : FileId} {rs : List Rec} {n o : Nat}
    (hfile : dir.disk.contents id = (Rec.join rs).take n)
    (hn : n <= (Rec.join rs).length) (ho : Boundary Rec.size rs o) (hle : o <= n) :
    (Scanner.openAt dir id o).drain.1.map Scanned.report =
        (within Rec.size o n rs).map (fun (start, r) => r.report start) ∧
      (Boundary Rec.size rs n ->
        (Scanner.openAt dir id o).drain.2 = ScanOutcome.eof) ∧
      (¬ Boundary Rec.size rs n ->
        exists last detail,
          (Scanner.openAt dir id o).drain.2 = ScanOutcome.torn last detail ∧
            IsGreatest {place | Boundary Rec.size rs place ∧ place <= n} last) := by
  rcases ho with ⟨before, hbefore, rfl⟩
  rcases exists_cut Rec.size rs n with ⟨whole, rest, rfl, hwhole, hrest⟩
  rcases prefix_of_total_le Rec.size hrest hbefore hle with ⟨kept, rfl⟩
  have hgreatest := isGreatest_boundary Rec.size hwhole hrest
  have hplace : total Rec.size before + total Rec.size kept =
      total Rec.size (before ++ kept) :=
    (total_append Rec.size before kept).symm
  have hdrain : (Scanner.openAt dir id (total Rec.size before)).drain =
      Scanner.drain
        { rest := Rec.join kept ++
            (Rec.join rest).take (n - total Rec.size (before ++ kept))
          offset := total Rec.size before } := by
    rw [Scanner.openAt, hfile, drop_take_join hwhole]
  have hlength : n - total Rec.size (before ++ kept) <= (Rec.join rest).length := by
    rw [Rec.join_append, List.length_append, ← Rec.total_size] at hn
    omega
  have hcut := Scanner.drain_rest hlength
    (fun r more h => by
      have hlt := hrest r more h
      omega)
    (total Rec.size (before ++ kept))
  rw [Scanner.drain_join, hplace] at hdrain
  have hreports : ((laid Rec.size (total Rec.size before) kept).map
      (fun (start, r) => r.scanned start)).map Scanned.report =
        (laid Rec.size (total Rec.size before) kept).map
          (fun (start, r) => r.report start) := by
    rw [List.map_map]
    exact List.map_congr_left (fun (start, r) _ => r.report_scanned start)
  rw [hdrain, within_eq Rec.size Rec.size_pos hwhole hrest]
  dsimp only
  rcases hcut with ⟨hzero, heof⟩ | ⟨hpos, detail, htorn⟩
  · rw [heof, List.append_nil]
    refine ⟨hreports, fun _ => rfl, ?_⟩
    intro hinside
    have hend : total Rec.size (before ++ kept) = n := by omega
    exact absurd ⟨before ++ kept, List.prefix_append _ _, hend⟩ hinside
  · rw [htorn, List.append_nil]
    refine ⟨hreports, ?_, fun _ => ⟨_, detail, rfl, hgreatest⟩⟩
    intro hboundary
    have hlast := hgreatest.2 ⟨hboundary, Nat.le_refl n⟩
    omega

/-- An empty value, a tombstone, and a value that starts as a record would. -/
def tiledRecords : List Rec :=
  [⟨[97], some [], 5, by decide, by decide⟩,
    ⟨[97], none, 6, by decide, by decide⟩,
    ⟨[98], some [0, 0, 0, 0, 5], 7, by decide, by decide⟩]

def tiledDir : Dir where
  disk := { data := AList.insert 3 { bytes := (Rec.join tiledRecords).take 60 } ∅ }

/-- A cut inside the third record, seen from the end of the first. -/
theorem scanner_tiles_cut :
    (Scanner.openAt tiledDir 3 22).drain.1.map Scanned.report =
        [(22, 22, [97], 6, true)] ∧
      exists last detail, (Scanner.openAt tiledDir 3 22).drain.2 =
        ScanOutcome.torn last detail ∧ 44 <= last := by
  have hfile : tiledDir.disk.contents 3 = (Rec.join tiledRecords).take 60 := by
    unfold tiledDir Disk.contents
    rw [AList.lookup_insert]
    rfl
  have hstart : Boundary Rec.size tiledRecords 22 := by
    decide +kernel
  have hinside : ¬ Boundary Rec.size tiledRecords 60 := by
    decide +kernel
  have hlast : Boundary Rec.size tiledRecords 44 := by
    decide +kernel
  rcases scanner_tiles hfile (by decide +kernel) hstart (by decide) with
    ⟨hfound, _, htorn⟩
  rcases htorn hinside with ⟨last, detail, hout, hgreatest⟩
  refine ⟨?_, last, detail, hout, hgreatest.2 ⟨hlast, by decide⟩⟩
  rw [hfound]
  decide +kernel

end Minicask
