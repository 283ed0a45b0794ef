import Minicask.CatchingUp
import Minicask.Replicated.Basic
import Minicask.Store.Restoring

/-!
# What replication does to the store's map

A command is a record, so a committed entry is one write to the map.  A snapshot
is the map itself, one record for each key in key order, and both ways of
restoring make the store that map.
-/

namespace Minicask
namespace Replicated

open Raft Replay

/-!
# Commands
-/

def Op.write : Op -> Write Bytes Bytes
  | Op.put key value => { key := key, value := some value }
  | Op.delete key => { key := key, value := none }

theorem Op.decode_encode {op : Op} {now : UInt64} {bytes : Bytes}
    (h : op.encode now = Except.ok bytes) : Op.decode bytes = Except.ok op := by
  have hparts : forall {key : Bytes} {value : Option Bytes},
      Minicask.encode key value now = Except.ok bytes ->
      Op.decode bytes = Except.ok
        (if value.isNone then Op.delete key
          else Op.put key (value.getD [])) := by
    intro key value hencode
    rcases encode_parts hencode with
      ⟨header, rfl, hkey, hvalue, hverify, htombstone⟩
    have hlength : (header.encode ++ (key ++ value.getD [])).length =
        headerLen + (key.length + (value.getD []).length) := by
      simp
    have htake : (header.encode ++ (key ++ value.getD [])).take headerLen =
        header.encode := by
      simp
    have hdrop : (header.encode ++ (key ++ value.getD [])).drop headerLen =
        key ++ value.getD [] := by
      simp
    unfold Op.decode
    rw [if_neg (by omega)]
    simp only [htake, hdrop, Header.decode_encode, Header.recordLen, hkey,
      hvalue, hlength, Nat.add_assoc, List.take_left, List.drop_left, hverify,
      htombstone]
    cases value <;> simp
  cases op with
  | put key value => exact hparts h
  | delete key => exact hparts h

theorem Op.encode_rec {op : Op} {now : UInt64} {bytes : Bytes}
    (h : op.encode now = Except.ok bytes) (hshort : bytes.length < 2 ^ 32) :
    exists r : Rec, r.bytes = bytes ∧ r.write = op.write := by
  cases op with
  | put key value =>
      rcases encode_eq_ok h hshort with ⟨r, hkey, hvalue, _, hbytes⟩
      refine ⟨r, hbytes, ?_⟩
      rw [Rec.write, hkey, hvalue]
      rfl
  | delete key =>
      rcases encode_eq_ok h hshort with ⟨r, hkey, hvalue, _, hbytes⟩
      refine ⟨r, hbytes, ?_⟩
      rw [Rec.write, hkey, hvalue]
      rfl

/-!
# Snapshots
-/

/-- A snapshot holds one live record for each key of a map, in key order. -/
def Encodes (data : Bytes) (m : Contents) : Prop :=
  exists rs : List Rec, data = Rec.join rs ∧ Ascending (rs.map Rec.key) ∧
    (forall r, r ∈ rs -> r.value ≠ none) ∧
    replay empty (rs.map Rec.write) = m

theorem encodes_nil : Encodes [] empty :=
  ⟨[], rfl, List.Pairwise.nil, fun _ hr => absurd hr List.not_mem_nil, rfl⟩

def unstamped (r : Rec) : Rec :=
  { r with tstamp := 0 }

theorem foldlM_encode {rs : List Rec} (hlive : forall r, r ∈ rs ->
    r.value ≠ none) (out : MemSnapshot) :
    rs.foldlM (fun (out : MemSnapshot) r =>
      (encode r.key (some r.payload) 0).map out.writeAll) out =
      Except.ok (out.writeAll (Rec.join (rs.map unstamped))) := by
  induction rs generalizing out with
  | nil => simp [MemSnapshot.writeAll, pure, Except.pure]
  | cons r rs ih =>
      have hencode : encode r.key (some r.payload) 0 =
          Except.ok (unstamped r).bytes := by
        rw [← encode_rec]
        cases hvalue : r.value with
        | none => exact absurd hvalue (hlive r List.mem_cons_self)
        | some value =>
            rw [r.value_eq_some hvalue]
            simp [unstamped, hvalue]
      rw [List.foldlM_cons, hencode]
      refine (ih (fun r' hr' => hlive r' (List.mem_cons_of_mem r hr')) _).trans ?_
      simp [MemSnapshot.writeAll]

/-- The records that a snapshot of a map is made of: one for each live key, in key
order, and no timestamp. -/
structure Canonical (rs : List Rec) (m : Contents) : Prop where
  ascending : Ascending (rs.map Rec.key)
  values : forall r, r ∈ rs -> r.value = m r.key ∧ r.value ≠ none
  live : forall k, m k ≠ none -> k ∈ rs.map Rec.key
  tstamps : forall r, r ∈ rs -> r.tstamp = 0

/-- What is written of a view are the records of the map it shows. -/
theorem writeSnapshot_canonical {view : StoreView} {dir : Dir} {m : Contents}
    (h : view.Shows dir m) :
    exists rs, Canonical rs m ∧
      forall out, writeSnapshot view dir out =
        Except.ok (out.writeAll (Rec.join rs)) := by
  rcases h.records with ⟨rs, hrecorded, hvalues⟩
  have hkeys : (rs.map unstamped).map Rec.key = view.entries.map Prod.fst := by
    rw [← hrecorded.keys, List.map_map]
    rfl
  exists rs.map unstamped
  constructor
  · constructor
    · rw [hkeys]
      exact h.ascending
    · intro r hr
      rcases List.mem_map.mp hr with ⟨r', hr', rfl⟩
      exact hvalues r' hr'
    · intro k hk
      rw [hkeys]
      exact h.live k hk
    · intro r hr
      rcases List.mem_map.mp hr with ⟨r', _, rfl⟩
      rfl
  · intro out
    exact (hrecorded.forEach _ out).trans
      (foldlM_encode (fun r hr => (hvalues r hr).2) out)

theorem Canonical.encodes {rs : List Rec} {m : Contents} (h : Canonical rs m) :
    Encodes (Rec.join rs) m :=
  ⟨rs, rfl, h.ascending, fun r hr => (h.values r hr).2,
    replay_copies h.ascending.nodup (fun r hr => (h.values r hr).1)
      (fun k hk => List.mem_map.mp (h.live k hk))⟩

theorem writeSnapshot_encodes {view : StoreView} {dir : Dir} {m : Contents}
    (h : view.Shows dir m) {sink : MemSnapshot} (hempty : sink.data = []) :
    exists done, writeSnapshot view dir sink = Except.ok done ∧
      done.about = sink.about ∧ done.members = sink.members ∧
      Encodes done.data m := by
  rcases writeSnapshot_canonical h with ⟨rs, hcanonical, hwrite⟩
  refine ⟨_, hwrite sink, rfl, rfl, ?_⟩
  unfold MemSnapshot.writeAll
  rw [hempty, List.nil_append]
  exact hcanonical.encodes

namespace SnapshotRecords

/-- What was encoded is read back, however long it is. -/
theorem nextRecord_encoded {key value bytes : Bytes} {tstamp : UInt64}
    (h : encode key (some value) tstamp = Except.ok bytes) (rest : Bytes)
    (offset : Nat) {previous : Option Bytes}
    (hprevious : forall p, previous = some p -> p < key) :
    nextRecord
        { reader := bytes ++ rest, offset := offset, previous := previous } =
      Except.ok (some ((key, value),
        { reader := rest
          offset := offset + bytes.length
          previous := some key })) := by
  rcases encode_parts h with
    ⟨header, hbytes, hkeyLen, hvalueLen, hverify, htombstone⟩
  rw [Option.getD_some] at hbytes hvalueLen hverify
  have hreader : bytes ++ rest = header.encode ++ (key ++ (value ++ rest)) := by
    rw [hbytes, List.append_assoc, List.append_assoc]
  have hkey : (key ++ (value ++ rest)).take header.keyLen.toNat = key := by
    rw [hkeyLen, List.take_left]
  have hbody : (key ++ (value ++ rest)).drop header.keyLen.toNat =
      value ++ rest := by
    rw [hkeyLen, List.drop_left]
  have hvalue : (value ++ rest).take header.valueLen.toNat = value := by
    rw [hvalueLen, List.take_left]
  have hrest : (value ++ rest).drop header.valueLen.toNat = rest := by
    rw [hvalueLen, List.drop_left]
  have horder : previous.any (fun p => decide (key <= p)) = false := by
    cases previous with
    | none => rfl
    | some p =>
        have hnot := List.not_le.mpr (hprevious p rfl)
        simp [hnot]
  have hshort : ¬ (key.length < header.keyLen.toNat ∨
      value.length < header.valueLen.toNat) := by
    rw [hkeyLen, hvalueLen]
    omega
  have hlength : header.recordLen = bytes.length := by
    rw [Header.recordLen, hkeyLen, hvalueLen, hbytes, List.length_append,
      Header.length_encode, List.length_append, Nat.add_assoc]
  unfold nextRecord
  simp only [hreader, List.take_left' (Header.length_encode header),
    List.drop_left' (Header.length_encode header), Header.length_encode,
    Header.decode_encode, hkey, hbody, hvalue, hrest, hverify, htombstone,
    horder, hlength]
  rw [if_neg (by decide), if_neg (by decide), if_neg hshort]
  rfl

theorem nextRecord_bytes (r : Rec) (hlive : r.value ≠ none) (rest : Bytes)
    (offset : Nat) {previous : Option Bytes}
    (hprevious : forall p, previous = some p -> p < r.key) :
    nextRecord
        { reader := r.bytes ++ rest, offset := offset, previous := previous } =
      Except.ok (some ((r.key, r.payload),
        { reader := rest
          offset := offset + r.bytes.length
          previous := some r.key })) := by
  have hpayload : r.value = some r.payload := by
    unfold Rec.payload
    cases hvalue : r.value with
    | none => exact absurd hvalue hlive
    | some value => rfl
  have hencode := encode_rec r
  rw [hpayload] at hencode
  exact nextRecord_encoded hencode rest offset hprevious

theorem forEach_join {acc : Type}
    (f : acc -> Bytes -> Bytes -> Except Error acc) {rs : List Rec}
    (hascending : Ascending (rs.map Rec.key))
    (hlive : forall r, r ∈ rs -> r.value ≠ none) {turns : Nat}
    (hturns : rs.length < turns) (offset : Nat) {previous : Option Bytes}
    (hprevious : forall p, previous = some p -> forall r, r ∈ rs -> p < r.key)
    (start : acc) :
    forEach f turns
        { reader := Rec.join rs, offset := offset, previous := previous }
        start =
      rs.foldlM (fun found r => f found r.key r.payload) start := by
  induction rs generalizing turns offset previous start with
  | nil =>
      cases turns with
      | zero => rfl
      | succ turns => rfl
  | cons r rs ih =>
      cases turns with
      | zero => cases hturns
      | succ turns =>
          rw [List.map_cons, Ascending, List.pairwise_cons] at hascending
          rw [forEach, Rec.join_cons, nextRecord_bytes r
            (hlive r List.mem_cons_self) (Rec.join rs) offset
            (fun p hp => hprevious p hp r List.mem_cons_self)]
          rw [List.foldlM_cons]
          show (f start r.key r.payload >>= _) = (f start r.key r.payload >>= _)
          refine bind_congr (fun found => ?_)
          apply ih hascending.2
            (fun r' hr' => hlive r' (List.mem_cons_of_mem r hr'))
            (Nat.lt_of_succ_lt_succ hturns)
          intro p hp r' hr'
          cases hp
          exact hascending.1 r'.key (List.mem_map_of_mem hr')

theorem readAll_join {acc : Type}
    (f : acc -> Bytes -> Bytes -> Except Error acc) {rs : List Rec}
    (hascending : Ascending (rs.map Rec.key))
    (hlive : forall r, r ∈ rs -> r.value ≠ none) (start : acc) :
    readAll (Rec.join rs) f start =
      rs.foldlM (fun found r => f found r.key r.payload) start := by
  apply forEach_join f hascending hlive
  · exact Nat.lt_succ_of_le (length_le_join rs)
  · intro p hp
    cases hp

end SnapshotRecords

/-- Reading some bytes visits one live record for each key of a map, in key order. -/
def Streams (data : Bytes) (m : Contents) : Prop :=
  exists rs : List Rec,
    (forall {acc : Type} (f : acc -> Bytes -> Bytes -> Except Error acc) start,
      SnapshotRecords.readAll data f start =
        rs.foldlM (fun found r => f found r.key r.payload) start) ∧
    Ascending (rs.map Rec.key) ∧ (forall r, r ∈ rs -> r.value ≠ none) ∧
    replay empty (rs.map Rec.write) = m

theorem Encodes.streams {data : Bytes} {m : Contents} (h : Encodes data m) :
    Streams data m := by
  rcases h with ⟨rs, hdata, hascending, hlive, hreplay⟩
  refine ⟨rs, ?_, hascending, hlive, hreplay⟩
  intro acc f start
  rw [hdata, SnapshotRecords.readAll_join f hascending hlive]

/-!
# Restoring in the background
-/

theorem foldlM_push {rs : List Rec} (hlive : forall r, r ∈ rs ->
    r.value ≠ none) {job : Minicask.RestoreJob} {pushed : List Rec}
    (h : job.Of pushed) :
    exists done, rs.foldlM (fun (job : Minicask.RestoreJob) r =>
        job.push r.key r.payload) job = Except.ok done ∧
      done.Of (pushed ++ rs.map unstamped) ∧ done.id = job.id ∧
      done.oldIds = job.oldIds := by
  induction rs generalizing job pushed with
  | nil => exact ⟨job, rfl, by simpa using h, rfl, rfl⟩
  | cons r rs ih =>
      have hvalue : (unstamped r).value = some r.payload := by
        cases hv : r.value with
        | none => exact absurd hv (hlive r List.mem_cons_self)
        | some value =>
            rw [r.value_eq_some hv]
            exact hv
      rcases h.push (r := unstamped r) rfl hvalue with
        ⟨job', hpush, hof, hid, hold⟩
      rcases ih (fun r' hr' => hlive r' (List.mem_cons_of_mem r hr')) hof with
        ⟨done, hloop, hof', hid', hold'⟩
      refine ⟨done, ?_, by simpa using hof', hid'.trans hid, hold'.trans hold⟩
      rw [List.foldlM_cons]
      show (job.push (unstamped r).key r.payload >>= _) = _
      rw [hpush]
      exact hloop

/-- A restore job runs to its end, and what it leaves in its slot stands for the
snapshot's map. -/
theorem RestoreJob.run_spec {job : RestoreJob} {m : Contents}
    (hstreams : Streams job.reader m) {s : Store}
    (hslot : s.Reserved job.job.id job.job.oldIds) (hof : job.job.Of []) :
    exists done dir bytes, job.run s.dir = Except.ok (done, dir) ∧
      s.dir.Placed job.job.id bytes dir ∧ done.file.id = job.job.id ∧
      done.index = job.index ∧ done.file.Ok { s with dir := dir } m := by
  rcases hstreams with ⟨rs, hread, hascending, hlive, hreplay⟩
  rcases foldlM_push hlive hof with ⟨pushed, hloop, hof', hid, hold⟩
  rw [List.nil_append] at hof'
  have hkeys : ((rs.map unstamped).map Rec.key) = rs.map Rec.key := by
    rw [List.map_map]
    rfl
  have hwrites : ((rs.map unstamped).map Rec.write) = rs.map Rec.write := by
    rw [List.map_map]
    rfl
  rcases hof'.finish (s := s) (hid ▸ hold ▸ hslot)
    (by rw [hkeys]; exact hascending.nodup)
    (by
      intro r hr
      rcases List.mem_map.mp hr with ⟨r', hr', rfl⟩
      exact hlive r' hr') with ⟨hplaced, hfile, hok⟩
  rw [hwrites, hreplay] at hok
  refine ⟨{ file := (pushed.finish s.dir).1, index := job.index },
    (pushed.finish s.dir).2, pushed.file, ?_, hid ▸ hplaced,
    hfile.trans hid, rfl, hok⟩
  unfold RestoreJob.run
  rw [hread, hloop]
  rfl

/-!
# Writing to the store
-/

/-- A store that takes writes and stands for a map. -/
structure Takes (s : Store) (m : Contents) : Prop where
  ok : s.Ok
  indexes : s.Indexes m
  restoring : s.restoring = false

theorem Takes.putDeferred {s : Store} {m : Contents} (h : Takes s m) (r : Rec)
    {value : Bytes} (hvalue : r.value = some value) (now later : UInt64) :
    exists s', s.putDeferred r.key value now later = Except.ok s' ∧
      Takes s' (act m r.write) ∧ s.Later s' := by
  have hshort := r.short
  rw [hvalue] at hshort
  rcases Store.putWith_spec h.ok h.indexes h.restoring r.nonempty hshort
    Reach.buffer now later with ⟨s', r', hput, _, hwrote, hindexes⟩
  have hwrite : r.write = { key := r.key, value := some value } := by
    rw [Rec.write, hvalue]
  rw [hwrite]
  exact ⟨s', hput, ⟨hwrote.ok h.ok, hindexes,
    hwrote.restoring.trans h.restoring⟩, hwrote.later h.ok⟩

theorem Takes.deleteDeferred {s : Store} {m : Contents} (h : Takes s m)
    (key : Bytes) (now later : UInt64) :
    exists s' was, s.deleteDeferred key now later = Except.ok (s', was) ∧
      Takes s' (act m { key := key, value := none }) ∧ s.Later s' := by
  rcases Store.deleteWith_spec h.ok h.indexes h.restoring key Reach.buffer now
    later with ⟨s', hdelete, hindexes, ⟨hsame, _⟩ | ⟨r, _, hwrote⟩⟩
  · refine ⟨s', _, hdelete, ⟨hsame ▸ h.ok, hindexes, hsame ▸ h.restoring⟩, ?_⟩
    rw [hsame]
    exact Store.Later.refl s
  · exact ⟨s', _, hdelete, ⟨hwrote.ok h.ok, hindexes,
      hwrote.restoring.trans h.restoring⟩, hwrote.later h.ok⟩

theorem Takes.sync {s : Store} {m : Contents} (h : Takes s m) :
    Takes s.sync m ∧ s.Later s.sync := by
  have hadvanced := Store.advanced_sync h.ok
  exact ⟨⟨hadvanced.ok h.ok,
    h.indexes.carried (hadvanced.carries h.ok) rfl, h.restoring⟩,
    Store.later_sync h.ok⟩

theorem Takes.writeApplied {s : Store} {m : Contents} (h : Takes s m)
    (index : Nat) :
    Takes (writeApplied s index) m ∧ s.Later (writeApplied s index) := by
  refine ⟨⟨h.ok.flagged rfl rfl rfl, h.indexes.flagged rfl rfl rfl rfl,
    h.restoring⟩, ?_⟩
  exact ⟨⟨Nat.le_refl _, fun _ _ => List.prefix_refl _⟩, fun _ _ => rfl,
    fun _ _ => Iff.rfl, fun _ _ hlookup => Or.inl hlookup, rfl, rfl⟩

/-!
# Restoring inline
-/

def deletions (keys : List Bytes) : List (Write Bytes Bytes) :=
  keys.map (fun key => { key := key, value := none })

theorem replay_deletions (m : Contents) (keys : List Bytes) (k : Bytes) :
    replay m (deletions keys) k = if k ∈ keys then none else m k := by
  induction keys generalizing m with
  | nil => simp [deletions]
  | cons key keys ih =>
      show replay (act m { key := key, value := none }) (deletions keys) k = _
      rw [ih]
      by_cases hk : k = key
      · subst hk
        simp [act]
      · simp [act_of_ne m { key := key, value := none } hk, hk]

theorem Takes.deleteAll (env : Env) {s : Store} {m : Contents}
    (h : Takes s m) (stale : List Bytes) :
    exists s', stale.foldlM (fun (store : Store) stale =>
        (store.deleteDeferred stale (env.clock store).1
          (env.clock store).2).map Prod.fst) s = Except.ok s' ∧
      Takes s' (replay m (deletions stale)) ∧ s.Later s' := by
  induction stale generalizing s m with
  | nil => exact ⟨s, rfl, h, Store.Later.refl s⟩
  | cons key stale ih =>
      rcases h.deleteDeferred key (env.clock s).1 (env.clock s).2 with
        ⟨s', was, hdelete, htakes, hlater⟩
      rcases ih htakes with ⟨s'', hloop, htakes', hlater'⟩
      refine ⟨s'', ?_, htakes', hlater.trans hlater'⟩
      rw [List.foldlM_cons, hdelete]
      exact hloop

theorem mem_takeWhile_lt {held : List Bytes} (h : Ascending held)
    (key k : Bytes) :
    k ∈ held.takeWhile (· < key) ↔ k ∈ held ∧ k < key := by
  induction held with
  | nil => simp
  | cons head held ih =>
      rcases List.pairwise_cons.mp h with ⟨hhead, htail⟩
      by_cases hlt : head < key
      · rw [List.takeWhile_cons_of_pos (by simpa using hlt), List.mem_cons,
          ih htail, List.mem_cons]
        constructor
        · rintro (rfl | ⟨hin, hk⟩)
          · exact ⟨Or.inl rfl, hlt⟩
          · exact ⟨Or.inr hin, hk⟩
        · rintro ⟨rfl | hin, hk⟩
          · exact Or.inl rfl
          · exact Or.inr ⟨hin, hk⟩
      · rw [List.takeWhile_cons_of_neg (by simpa using hlt), List.mem_cons]
        constructor
        · intro hmem
          cases hmem
        · rintro ⟨rfl | hin, hk⟩
          · exact absurd hk hlt
          · exact absurd (List.lt_trans (hhead k hin) hk) hlt

theorem mem_dropWhile_lt {held : List Bytes} (h : Ascending held)
    (key k : Bytes) :
    k ∈ (if (held.dropWhile (· < key)).head? = some key then
        (held.dropWhile (· < key)).tail else held.dropWhile (· < key)) ↔
      k ∈ held ∧ key < k := by
  induction held with
  | nil => simp
  | cons head held ih =>
      rcases List.pairwise_cons.mp h with ⟨hhead, htail⟩
      by_cases hlt : head < key
      · rw [List.dropWhile_cons_of_pos (by simpa using hlt), ih htail,
          List.mem_cons]
        constructor
        · rintro ⟨hin, hk⟩
          exact ⟨Or.inr hin, hk⟩
        · rintro ⟨rfl | hin, hk⟩
          · exact absurd (List.lt_trans hlt hk) (List.lt_irrefl _)
          · exact ⟨hin, hk⟩
      · rw [List.dropWhile_cons_of_neg (by simpa using hlt), List.head?_cons,
          List.tail_cons, List.mem_cons]
        by_cases heq : head = key
        · subst heq
          rw [if_pos rfl]
          constructor
          · intro hin
            exact ⟨Or.inr hin, hhead k hin⟩
          · rintro ⟨rfl | hin, hk⟩
            · exact absurd hk (List.lt_irrefl _)
            · exact hin
        · have hgt : key < head := by
            by_contra hnot
            exact heq (List.le_antisymm (List.not_lt.mp hnot)
              (List.not_lt.mp hlt))
          rw [if_neg (by simpa using heq), List.mem_cons]
          constructor
          · rintro (rfl | hin)
            · exact ⟨Or.inl rfl, hgt⟩
            · exact ⟨Or.inr hin, List.lt_trans hgt (hhead k hin)⟩
          · exact And.left

theorem ascending_dropWhile {held : List Bytes} (h : Ascending held)
    (key : Bytes) :
    Ascending (if (held.dropWhile (· < key)).head? = some key then
      (held.dropWhile (· < key)).tail else held.dropWhile (· < key)) := by
  have hdrop : Ascending (held.dropWhile (· < key)) :=
    List.Pairwise.sublist (List.dropWhile_sublist _) h
  split
  · exact List.Pairwise.sublist (List.tail_sublist _) hdrop
  · exact hdrop

/-- How far a restore has got: a key that neither the rest of the snapshot nor
the rest of the store's keys has yet to come to is as the snapshot has it, and one
that only the store has is not in the snapshot. -/
structure Midway (target : Contents) (rs : List Rec) (held : List Bytes)
    (m : Contents) : Prop where
  ascending : Ascending held
  settled : forall k, k ∉ rs.map Rec.key -> k ∉ held -> m k = target k
  stale : forall k, k ∈ held -> k ∉ rs.map Rec.key -> target k = none

theorem restoreRecord_spec (env : Env) {target : Contents} {r : Rec}
    {rs : List Rec} (hascending : Ascending ((r :: rs).map Rec.key))
    (hvalue : r.value = target r.key) (hlive : r.value ≠ none)
    {s : Store} {held : List Bytes} {m : Contents} (h : Takes s m)
    (hmidway : Midway target (r :: rs) held m) :
    exists s' held' m', restoreRecord env (s, held) r.key r.payload =
        Except.ok (s', held') ∧
      Takes s' m' ∧ Midway target rs held' m' ∧ s.Later s' := by
  rcases List.pairwise_cons.mp hascending with ⟨hfirst, _⟩
  have hpayload : r.value = some r.payload := by
    cases hv : r.value with
    | none => exact absurd hv hlive
    | some value => rw [r.value_eq_some hv]
  have hstale := mem_takeWhile_lt hmidway.ascending r.key
  have hdrop := mem_dropWhile_lt hmidway.ascending r.key
  have hheld := ascending_dropWhile hmidway.ascending r.key
  generalize hstaleKeys : held.takeWhile (· < r.key) = stale at hstale
  generalize hheld' : (if (held.dropWhile (· < r.key)).head? = some r.key then
    (held.dropWhile (· < r.key)).tail else held.dropWhile (· < r.key)) =
      held' at hdrop hheld
  rcases h.deleteAll env stale with ⟨s', hdeletes, htakes, hlater⟩
  -- Whether or not the value is written again, it is there afterwards.
  have hwrite : exists s'', (s'.get r.key).bind (fun found =>
        if found ≠ some r.payload then
          (s'.putDeferred r.key r.payload (env.clock s').1
            (env.clock s').2).map (fun store => (store, held'))
        else Except.ok (s', held')) = Except.ok (s'', held') ∧
      Takes s'' (act (replay m (deletions stale)) r.write) ∧ s'.Later s'' := by
    rw [Store.get_eq htakes.ok htakes.indexes]
    by_cases hsame : replay m (deletions stale) r.key = some r.payload
    · refine ⟨s', by simp [Except.bind, hsame], ?_, Store.Later.refl s'⟩
      rw [act_eq_self (hsame.trans hpayload.symm)]
      exact htakes
    · rcases htakes.putDeferred r hpayload (env.clock s').1
        (env.clock s').2 with ⟨s'', hput, htakes', hlater'⟩
      refine ⟨s'', ?_, htakes', hlater'⟩
      simp [Except.bind, hsame, hput, Except.map]
  rcases hwrite with ⟨s'', hwrite, htakes', hlater'⟩
  refine ⟨s'', held', _, ?_, htakes', ⟨hheld, ?_, ?_⟩, hlater.trans hlater'⟩
  · unfold restoreRecord
    simp only [hstaleKeys, hheld']
    rw [hdeletes]
    exact hwrite
  · intro k hrs hnot
    by_cases hk : k = r.key
    · rw [hk]
      exact (act_self _ r.write).trans hvalue
    · rw [act_of_ne _ r.write hk, replay_deletions]
      have hnotin : k ∉ (r :: rs).map Rec.key := by
        simpa [hk] using hrs
      by_cases hin : k ∈ held
      · rw [hmidway.stale k hin hnotin, if_pos]
        rw [hstale]
        refine ⟨hin, ?_⟩
        by_contra hlt
        rw [hdrop] at hnot
        apply hnot
        refine ⟨hin, ?_⟩
        by_contra hgt
        exact hk (List.le_antisymm (List.not_lt.mp hgt) (List.not_lt.mp hlt))
      · rw [if_neg (fun hmem => hin ((hstale k).mp hmem).1)]
        exact hmidway.settled k hnotin hin
  · intro k hk hrs
    rcases (hdrop k).mp hk with ⟨hin, hgt⟩
    apply hmidway.stale k hin
    rw [List.map_cons, List.mem_cons, not_or]
    refine ⟨?_, hrs⟩
    rintro rfl
    exact List.lt_irrefl _ hgt

theorem foldlM_restoreRecord (env : Env) {target : Contents} {rs : List Rec}
    (hascending : Ascending (rs.map Rec.key))
    (hvalues : forall r, r ∈ rs -> r.value = target r.key ∧ r.value ≠ none)
    {s : Store} {held : List Bytes} {m : Contents} (h : Takes s m)
    (hmidway : Midway target rs held m) :
    exists s' held' m', rs.foldlM (fun state r =>
        restoreRecord env state r.key r.payload) (s, held) =
        Except.ok (s', held') ∧
      Takes s' m' ∧ Midway target [] held' m' ∧ s.Later s' := by
  induction rs generalizing s held m with
  | nil => exact ⟨s, held, m, rfl, h, hmidway, Store.Later.refl s⟩
  | cons r rs ih =>
      rcases hvalues r List.mem_cons_self with ⟨hvalue, hlive⟩
      rcases restoreRecord_spec env hascending hvalue hlive h hmidway with
        ⟨s', held', m', hrecord, htakes, hmidway', hlater⟩
      rcases ih (List.pairwise_cons.mp hascending).2
        (fun r' hr' => hvalues r' (List.mem_cons_of_mem r hr')) htakes
        hmidway' with ⟨s'', held'', m'', hloop, htakes', hmidway'', hlater'⟩
      refine ⟨s'', held'', m'', ?_, htakes', hmidway'', hlater.trans hlater'⟩
      rw [List.foldlM_cons, hrecord]
      exact hloop

theorem ascending_keys (s : Store) :
    Ascending (s.keys.insertionSort (· <= ·)) := by
  apply ascending_of_le
  · exact List.pairwise_insertionSort _ _
  · exact (List.perm_insertionSort _ _).nodup_iff.mpr
      (AList.keys_nodup s.keydir)

/-- A restore makes the store exactly the node's snapshot. -/
theorem restore_spec (env : Env) {r : ReplicatedStore} {m target : Contents}
    (h : Takes r.store m) (hstreams : Streams r.node.storage.snapshot target) :
    exists s', r.restore env = Except.ok
        { r with
          store := s'
          applied := r.snapshotIndex } ∧
      Takes s' target ∧ r.store.Later s' := by
  rcases hstreams with ⟨rs, hread, hascending, hlive, hreplay⟩
  have hnodup : ((rs.map Rec.write).map Write.key).Nodup := by
    rw [List.map_map]
    exact hascending.nodup
  have hvalues : forall record, record ∈ rs ->
      record.value = target record.key ∧ record.value ≠ none := by
    intro record hrecord
    rw [← hreplay]
    exact ⟨(replay_of_nodup hnodup (List.mem_map_of_mem hrecord) empty).symm,
      hlive record hrecord⟩
  have habsent : forall k, k ∉ rs.map Rec.key -> target k = none := by
    intro k hk
    rw [← hreplay, replay_of_forall_ne]
    · rfl
    · intro w hw heq
      rcases List.mem_map.mp hw with ⟨record, hrecord, rfl⟩
      exact hk (List.mem_map.mpr ⟨record, hrecord, heq⟩)
  have hstart : Midway target rs (r.store.keys.insertionSort (· <= ·)) m := by
    refine ⟨ascending_keys r.store, ?_, fun k _ hk => habsent k hk⟩
    intro k hk hnot
    rw [List.mem_insertionSort, Store.mem_keys_iff h.indexes] at hnot
    rw [habsent k hk]
    simpa using hnot
  rcases foldlM_restoreRecord env hascending hvalues h hstart with
    ⟨s', held, m', hloop, htakes, hmidway, hlater⟩
  rcases htakes.deleteAll env held with ⟨s'', hdeletes, htakes', hlater'⟩
  have htarget : replay m' (deletions held) = target := by
    funext k
    rw [replay_deletions]
    split
    · next hk => exact (hmidway.stale k hk List.not_mem_nil).symm
    · next hk => exact hmidway.settled k List.not_mem_nil hk
  rw [htarget] at htakes'
  rcases htakes'.sync with ⟨hsynced, hlater''⟩
  rcases hsynced.writeApplied r.snapshotIndex with ⟨hwritten, hlater'''⟩
  refine ⟨writeApplied s''.sync r.snapshotIndex, ?_, hwritten,
    ((hlater.trans hlater').trans hlater'').trans hlater'''⟩
  unfold ReplicatedStore.restore
  simp only [hread, hloop, Except.bind, hdeletes]

/-- A restore that succeeds has read all records, and deleted what was left. -/
theorem ReplicatedStore.restore_eq_ok {env : Env} {r done : ReplicatedStore}
    (h : r.restore env = Except.ok done) :
    exists state s,
      SnapshotRecords.readAll r.node.storage.snapshot (restoreRecord env)
        (r.store, r.store.keys.insertionSort (· <= ·)) = Except.ok state ∧
      state.2.foldlM (fun (store : Store) stale =>
        (store.deleteDeferred stale (env.clock store).1
          (env.clock store).2).map Prod.fst) state.1 = Except.ok s ∧
      done = { r with
        store := writeApplied s.sync r.snapshotIndex
        applied := r.snapshotIndex } := by
  unfold ReplicatedStore.restore at h
  dsimp only at h
  rcases Fallible.bind_eq_ok h with ⟨state, hread, h⟩
  rcases Fallible.bind_eq_ok h with ⟨s, hdeletes, h⟩
  cases h
  exact ⟨state, s, hread, hdeletes, rfl⟩

/-!
# Applying
-/

/-- The committed log: an entry at each index, and the operation it carries. -/
structure Committed where
  entry : Nat -> Entry
  op : Nat -> Option Op
  index : forall i, (entry i).index = i
  carries : forall i,
    match (entry i).command with
    | Command.data bytes =>
        exists op' now, op i = some op' ∧ op'.encode now = Except.ok bytes
    | _ => op i = none

namespace Committed

def contents (c : Committed) (applied : Nat) : Contents :=
  replay empty (((List.range' 1 applied).filterMap c.op).map Op.write)

/-- Every command is shorter than a record's length can say. -/
def Short (c : Committed) : Prop :=
  forall i bytes, (c.entry i).command = Command.data bytes ->
    bytes.length < 2 ^ 32

theorem contents_succ (c : Committed) (i : Nat) :
    c.contents (i + 1) =
      replay (c.contents i) ((c.op (i + 1)).toList.map Op.write) := by
  unfold contents
  rw [List.range'_concat, List.filterMap_append, List.map_append,
    replay_append]
  congr 2
  rw [Nat.one_mul, Nat.add_comm 1 i]
  cases hop : c.op (i + 1) with
  | none => simp [hop]
  | some op => simp [hop]

theorem steps (c : Committed) :
    Steps c.contents (fun i => (c.op i).toList.map Op.write) :=
  c.contents_succ

/-- What may stand at an index: key by key what the log comes to there, or at some
later index up to `high`. -/
def Stands (c : Committed) (high i : Nat) (m : Contents) : Prop :=
  Between c.contents i (max i high) m

theorem stands_contents (c : Committed) (high i : Nat) :
    c.Stands high i (c.contents i) :=
  Between.self _ (Nat.le_refl i) (Nat.le_max_left i high)

theorem Stands.exact {c : Committed} {high i : Nat} {m : Contents}
    (h : c.Stands high i m) (hle : high <= i) : m = c.contents i :=
  Between.exact h (Nat.max_le.mpr ⟨Nat.le_refl i, hle⟩)

theorem Stands.mono {c : Committed} {high high' i i' : Nat} {m : Contents}
    (h : c.Stands high i m) (hindex : i' <= i) (hhigh : high <= high')
    (hreached : i <= max i' high') : c.Stands high' i' m :=
  Between.mono h hindex (Nat.max_le.mpr
    ⟨hreached, Nat.le_trans hhigh (Nat.le_max_right _ _)⟩)

theorem Stands.next {c : Committed} {high i : Nat} {m : Contents}
    (h : c.Stands high i m) :
    c.Stands high (i + 1) (replay m ((c.op (i + 1)).toList.map Op.write)) := by
  have hwide : Between c.contents i (max (i + 1) high) m :=
    Between.mono h (Nat.le_refl i)
      (by omega)
  exact hwide.replay c.steps (Nat.le_max_left (i + 1) high)

end Committed

/-- One entry more, whatever the store has come to. -/
theorem applyEntry_spec (env : Env) {c : Committed} (hshort : c.Short)
    {s : Store} {m : Contents} (h : Takes s m) (i : Nat) :
    exists s', applyEntry env (s, i) (c.entry (i + 1)) =
        Except.ok (s', i + 1) ∧
      Takes s' (replay m ((c.op (i + 1)).toList.map Op.write)) ∧
      s.Later s' := by
  have hindex := c.index (i + 1)
  have hcarries := c.carries (i + 1)
  have hfresh : ¬ i + 1 <= i := Nat.not_succ_le_self i
  unfold applyEntry
  simp only [hindex, if_neg hfresh]
  cases hcommand : (c.entry (i + 1)).command with
  | noop =>
      rw [hcommand] at hcarries
      rw [hcarries]
      exact ⟨s, rfl, h, Store.Later.refl s⟩
  | config members =>
      rw [hcommand] at hcarries
      rw [hcarries]
      exact ⟨s, rfl, h, Store.Later.refl s⟩
  | data bytes =>
      rw [hcommand] at hcarries
      rcases hcarries with ⟨op, now, hop, hencode⟩
      simp only [hop, Op.decode_encode hencode]
      show exists s', _ ∧ Takes s' (act m op.write) ∧ _
      rcases Op.encode_rec hencode (hshort _ _ hcommand) with
        ⟨r, hbytes, hwrite⟩
      rw [← hwrite]
      cases op with
      | put key value =>
          have hkey : r.key = key := congrArg Write.key hwrite
          have hvalue : r.value = some value := congrArg Write.value hwrite
          subst hkey
          rcases h.putDeferred r hvalue (env.clock s).1 (env.clock s).2 with
            ⟨s', hput, htakes, hlater⟩
          refine ⟨s', ?_, htakes, hlater⟩
          simp [Except.bind, hput, Except.map]
      | delete key =>
          rcases h.deleteDeferred key (env.clock s).1 (env.clock s).2 with
            ⟨s', was, hdelete, htakes, hlater⟩
          refine ⟨s', ?_, hwrite.symm ▸ htakes, hlater⟩
          simp [Except.bind, hdelete, Except.map]

/-- Entries that have been applied before change nothing. -/
theorem foldlM_applyEntry_old (env : Env) {entries : List Entry} {s : Store}
    {applied : Nat} (h : forall entry, entry ∈ entries ->
      entry.index <= applied) :
    entries.foldlM (applyEntry env) (s, applied) = Except.ok (s, applied) := by
  induction entries with
  | nil => rfl
  | cons entry entries ih =>
      have hold : applyEntry env (s, applied) entry =
          Except.ok (s, applied) := by
        unfold applyEntry
        dsimp only
        rw [if_pos (h entry List.mem_cons_self)]
      rw [List.foldlM_cons, hold]
      exact ih (fun other hin => h other (List.mem_cons_of_mem entry hin))

theorem foldlM_applyEntry (env : Env) {c : Committed} (hshort : c.Short)
    (count : Nat) {high : Nat} {s : Store} {i : Nat} {m : Contents}
    (hstands : c.Stands high i m) (h : Takes s m) :
    exists s' m', ((List.range' (i + 1) count).map c.entry).foldlM
        (applyEntry env) (s, i) = Except.ok (s', i + count) ∧
      c.Stands high (i + count) m' ∧ Takes s' m' ∧ s.Later s' := by
  induction count generalizing s i m with
  | zero => exact ⟨s, m, rfl, hstands, h, Store.Later.refl s⟩
  | succ count ih =>
      rcases applyEntry_spec env hshort h i with ⟨s', happly, htakes, hlater⟩
      rcases ih hstands.next htakes with
        ⟨s'', m', hloop, hstands', htakes', hlater'⟩
      have hcount : i + 1 + count = i + (count + 1) := by omega
      rw [hcount] at hloop hstands'
      refine ⟨s'', m', ?_, hstands', htakes', hlater.trans hlater'⟩
      rw [List.range'_succ, List.map_cons, List.foldlM_cons, happly]
      exact hloop

theorem index_of_batch (c : Committed) {last count : Nat} {entry : Entry}
    (h : entry ∈ (List.range' (last + 1) count).map c.entry) :
    last < entry.index ∧ entry.index <= last + count := by
  rcases List.mem_map.mp h with ⟨i, hi, rfl⟩
  rw [List.mem_range'_1] at hi
  rw [c.index]
  omega

theorem foldlM_batch (env : Env) {c : Committed} (hshort : c.Short)
    {high : Nat} {s : Store} {i last : Nat} {m : Contents}
    (hlast : last <= i) (count : Nat) (hstands : c.Stands high i m)
    (h : Takes s m) :
    exists s' m', ((List.range' (last + 1) count).map c.entry).foldlM
        (applyEntry env) (s, i) = Except.ok (s', max i (last + count)) ∧
      c.Stands high (max i (last + count)) m' ∧ Takes s' m' ∧ s.Later s' := by
  by_cases hold : last + count <= i
  · rw [Nat.max_eq_left hold]
    refine ⟨s, m, foldlM_applyEntry_old env ?_, hstands, h,
      Store.Later.refl s⟩
    intro entry hentry
    exact Nat.le_trans (index_of_batch c hentry).2 hold
  · have hsplit : List.range' (last + 1) count =
        List.range' (last + 1) (i - last) ++
          List.range' (i + 1) (last + count - i) := by
      have hnext : i + 1 = last + 1 + 1 * (i - last) := by omega
      have hcount : count = (i - last) + (last + count - i) := by omega
      rw [hnext, List.range'_append, ← hcount]
    have hskipped : forall entry,
        entry ∈ (List.range' (last + 1) (i - last)).map c.entry ->
          entry.index <= i := by
      intro entry hentry
      have hindex := (index_of_batch c hentry).2
      rwa [Nat.add_sub_cancel' hlast] at hindex
    have hreached : i + (last + count - i) = last + count := by omega
    rcases foldlM_applyEntry env hshort (last + count - i) hstands h with
      ⟨s', m', hloop, hstands', htakes, hlater⟩
    rw [hreached] at hloop hstands'
    rw [Nat.max_eq_right (Nat.le_of_not_le hold)]
    refine ⟨s', m', ?_, hstands', htakes, hlater⟩
    rw [hsplit, List.map_append, List.foldlM_append,
      foldlM_applyEntry_old env hskipped]
    exact hloop

end Replicated
end Minicask
