import Minicask.Store.Compaction

/-!
# A store is a map

Calls on a store, in any order and with any options, answer as calls on a map
would.  Closing and opening again is one of them.
-/

namespace Minicask

open Replay

inductive Call where
  | put (key value : Bytes) (now later : UInt64)
  | putDeferred (key value : Bytes) (now later : UInt64)
  | delete (key : Bytes) (now later : UInt64)
  | deleteDeferred (key : Bytes) (now later : UInt64)
  | sync
  | compact
  | reopen (opts : Options)
deriving Repr, DecidableEq

namespace Store

/-- A call that fails leaves the store as it was.  A delete answers whether the
key was there. -/
def call (s : Store) : Call -> Store × Except Error (Option Bool)
  | Call.put key value now later =>
      match s.put key value now later with
      | Except.ok s' => (s', Except.ok none)
      | Except.error e => (s, Except.error e)
  | Call.putDeferred key value now later =>
      match s.putDeferred key value now later with
      | Except.ok s' => (s', Except.ok none)
      | Except.error e => (s, Except.error e)
  | Call.delete key now later =>
      match s.delete key now later with
      | Except.ok (s', was) => (s', Except.ok (some was))
      | Except.error e => (s, Except.error e)
  | Call.deleteDeferred key now later =>
      match s.deleteDeferred key now later with
      | Except.ok (s', was) => (s', Except.ok (some was))
      | Except.error e => (s, Except.error e)
  | Call.sync => (s.sync, Except.ok none)
  | Call.compact =>
      match s.compact with
      | Except.ok s' => (s', Except.ok none)
      | Except.error e => (s, Except.error e)
  | Call.reopen opts =>
      match openWith s.close opts with
      | Except.ok s' => (s', Except.ok none)
      | Except.error e => (s, Except.error e)

def after (s : Store) (calls : List Call) : Store :=
  calls.foldl (fun s c => (s.call c).1) s

end Store

namespace Call

/-- A put's record is shorter than its length field can say. -/
def Short : Call -> Prop
  | put key value _ _ => headerLen + key.length + value.length < 2 ^ 32
  | putDeferred key value _ _ => headerLen + key.length + value.length < 2 ^ 32
  | _ => True

instance (c : Call) : Decidable c.Short :=
  match c with
  | put key value _ _ =>
      inferInstanceAs
        (Decidable (headerLen + key.length + value.length < 2 ^ 32))
  | putDeferred key value _ _ =>
      inferInstanceAs
        (Decidable (headerLen + key.length + value.length < 2 ^ 32))
  | delete _ _ _ => isTrue trivial
  | deleteDeferred _ _ _ => isTrue trivial
  | sync => isTrue trivial
  | compact => isTrue trivial
  | reopen _ => isTrue trivial

/-- What a call writes to the map.  A put with an empty key fails and writes
nothing. -/
def write : Call -> Option (Write Bytes Bytes)
  | put key value _ _ =>
      if key.isEmpty then none else some { key := key, value := some value }
  | putDeferred key value _ _ =>
      if key.isEmpty then none else some { key := key, value := some value }
  | delete key _ _ => some { key := key, value := none }
  | deleteDeferred key _ _ => some { key := key, value := none }
  | sync => none
  | compact => none
  | reopen _ => none

def answer (m : Contents) : Call -> Except Error (Option Bool)
  | put key _ _ _ =>
      if key.isEmpty then
        Except.error (Error.invalidKey "keys may not be empty")
      else Except.ok none
  | putDeferred key _ _ _ =>
      if key.isEmpty then
        Except.error (Error.invalidKey "keys may not be empty")
      else Except.ok none
  | delete key _ _ => Except.ok (some (m key).isSome)
  | deleteDeferred key _ _ => Except.ok (some (m key).isSome)
  | sync => Except.ok none
  | compact => Except.ok none
  | reopen _ => Except.ok none

end Call

/-- The map after some calls: for each key the value of the last put of it that
succeeded, if no delete of it came after. -/
def written (calls : List Call) : Contents :=
  replay empty (calls.filterMap Call.write)

/-!
# One call
-/

/-- A store that is taking calls: its index and its files both stand for the
map. -/
def Store.Serves (s : Store) (m : Contents) : Prop :=
  s.Ok ∧ s.Indexes m ∧ s.compacting = false ∧ s.restoring = false ∧
    exists chart, Charted s chart ∧ recorded chart s.writer.fileId = m

namespace Store

theorem Serves.wrote {s s' : Store} {m : Contents} {r : Rec}
    (h : s.Serves m) (hwrote : s.Wrote r s')
    (hindexes : s'.Indexes (act m r.write)) : s'.Serves (act m r.write) := by
  rcases h with ⟨hok, _, hcompacting, hrestoring, chart, hcharted, hrecorded⟩
  rcases hcharted.wrote hok hwrote with ⟨hcharted', hrecorded'⟩
  refine ⟨hwrote.ok hok, hindexes, hwrote.compacting.trans hcompacting,
    hwrote.restoring.trans hrestoring, _, hcharted', ?_⟩
  rw [hrecorded', hrecorded]

theorem Serves.putWith {s : Store} {m : Contents} (h : s.Serves m)
    {key value : Bytes} (hkey : key ≠ [])
    (hshort : headerLen + key.length + value.length < 2 ^ 32) (reach : Reach)
    (now later : UInt64) :
    exists s', s.putWith key value reach now later = Except.ok s' ∧
      s'.Serves (act m { key := key, value := some value }) := by
  rcases putWith_spec h.1 h.2.1 h.2.2.2.1 hkey hshort reach now later with
    ⟨s', r, hput, hwrite, hwrote, hindexes⟩
  rw [← hwrite] at hindexes ⊢
  exact ⟨s', hput, h.wrote hwrote hindexes⟩

theorem Serves.deleteWith {s : Store} {m : Contents} (h : s.Serves m)
    (key : Bytes) (reach : Reach) (now later : UInt64) :
    exists s', s.deleteWith key reach now later =
        Except.ok (s', (m key).isSome) ∧
      s'.Serves (act m { key := key, value := none }) := by
  rcases deleteWith_spec h.1 h.2.1 h.2.2.2.1 key reach now later with
    ⟨s', hdelete, hindexes, ⟨hsame, hnone⟩ | ⟨r, hwrite, hwrote⟩⟩
  · refine ⟨s', hdelete, ?_⟩
    rw [hsame, act_eq_self hnone]
    exact h
  · refine ⟨s', hdelete, ?_⟩
    rw [← hwrite] at hindexes ⊢
    exact h.wrote hwrote hindexes

theorem Serves.sync {s : Store} {m : Contents} (h : s.Serves m) :
    s.sync.Serves m := by
  rcases h with
    ⟨hok, hindexes, hcompacting, hrestoring, chart, hcharted, hrecorded⟩
  have hadvanced := advanced_sync hok
  refine ⟨hadvanced.ok hok, hindexes.carried (hadvanced.carries hok) rfl,
    hcompacting, hrestoring, chart, hcharted.sync hok, ?_⟩
  rw [hadvanced.appended.fileId]
  exact hrecorded

theorem Serves.compact {s : Store} {m : Contents} (h : s.Serves m) :
    exists s', s.compact = Except.ok s' ∧ s'.Serves m := by
  rcases h with ⟨hok, hindexes, hcompacting, hrestoring, chart, hcharted, _⟩
  rcases compact_spec hok hindexes hcompacting hrestoring with
    ⟨s', rs, hcompact, hok', hindexes', _, _, _, hcompacting', hrestoring', _,
      hrecorded', hcharted'⟩
  exact ⟨s', hcompact, hok', hindexes', hcompacting', hrestoring', _,
    hcharted' chart hcharted, hrecorded'⟩

theorem Serves.reopen {s : Store} {m : Contents} (h : s.Serves m)
    (opts : Options) :
    exists s', openWith s.close opts = Except.ok s' ∧ s'.Serves m := by
  rcases h with ⟨hok, _, _, _, chart, hcharted, hrecorded⟩
  rcases hcharted.reopen hok opts with ⟨s', hopen, hopened, hid⟩
  have hrecorded' : recorded chart s'.writer.fileId = m := by
    rw [hid]
    exact hrecorded
  exact ⟨s', hopen, hopened.ok, hrecorded' ▸ hopened.indexes,
    hopened.compacting, hopened.restoring, chart, hopened.charted, hrecorded'⟩

theorem Serves.call {s : Store} {m : Contents} (h : s.Serves m) {c : Call}
    (hshort : c.Short) :
    (s.call c).1.Serves (replay m c.write.toList) ∧
      (s.call c).2 = c.answer m := by
  cases c with
  | put key value now later =>
      cases key with
      | nil =>
          have herror : s.put [] value now later =
              Except.error (Error.invalidKey "keys may not be empty") := by
            rw [put, Store.putWith, if_neg (by simp [h.2.2.2.1]), encode_nil]
          rw [Store.call, herror]
          exact ⟨h, rfl⟩
      | cons head tail =>
          rcases h.putWith (List.cons_ne_nil head tail) hshort s.reach now
            later with ⟨s', hput, hserves⟩
          rw [Store.call, put, hput]
          exact ⟨hserves, rfl⟩
  | putDeferred key value now later =>
      cases key with
      | nil =>
          have herror : s.putDeferred [] value now later =
              Except.error (Error.invalidKey "keys may not be empty") := by
            rw [putDeferred, Store.putWith, if_neg (by simp [h.2.2.2.1]),
              encode_nil]
          rw [Store.call, herror]
          exact ⟨h, rfl⟩
      | cons head tail =>
          rcases h.putWith (List.cons_ne_nil head tail) hshort Reach.buffer now
            later with ⟨s', hput, hserves⟩
          rw [Store.call, putDeferred, hput]
          exact ⟨hserves, rfl⟩
  | delete key now later =>
      rcases h.deleteWith key s.reach now later with ⟨s', hdelete, hserves⟩
      rw [Store.call, delete, hdelete]
      exact ⟨hserves, rfl⟩
  | deleteDeferred key now later =>
      rcases h.deleteWith key Reach.buffer now later with
        ⟨s', hdelete, hserves⟩
      rw [Store.call, deleteDeferred, hdelete]
      exact ⟨hserves, rfl⟩
  | sync => exact ⟨h.sync, rfl⟩
  | compact =>
      rcases h.compact with ⟨s', hcompact, hserves⟩
      rw [Store.call, hcompact]
      exact ⟨hserves, rfl⟩
  | reopen opts =>
      rcases h.reopen opts with ⟨s', hopen, hserves⟩
      rw [Store.call, hopen]
      exact ⟨hserves, rfl⟩

/-!
# Any number of calls
-/

theorem openable_nothing : Openable {} (fun _ => []) [] where
  absent _ _ := rfl
  files id h := absurd h (AList.notMem_empty id)
  torn := Or.inl rfl
  sealed id h := absurd h (AList.notMem_empty id)
  synced id h := by cases h
  hints id _ h := absurd h (AList.notMem_empty id)

theorem serves_open (opts : Options) :
    exists s, openWith {} opts = Except.ok s ∧ s.Serves empty := by
  have hopenable : Openable ({} : Dir).disk (fun _ => []) [] :=
    openable_nothing
  rcases openWith_opened hopenable opts with ⟨s, hopen, hopened, _⟩
  have hempty : recorded (fun _ => []) s.writer.fileId = empty := by
    have : logged (fun _ => []) s.writer.fileId = [] := by
      rw [logged, List.flatMap_eq_nil_iff]
      exact fun _ _ => rfl
    rw [recorded, this]
    rfl
  exact ⟨s, hopen, hopened.ok, hempty ▸ hopened.indexes, hopened.compacting,
    hopened.restoring, _, hopened.charted, hempty⟩

theorem Serves.after {s : Store} {m : Contents} (h : s.Serves m)
    {calls : List Call} (hshort : forall c, c ∈ calls -> c.Short) :
    (s.after calls).Serves (replay m (calls.filterMap Call.write)) := by
  induction calls generalizing s m with
  | nil => exact h
  | cons c calls ih =>
      have hcall := (h.call (hshort c List.mem_cons_self)).1
      have hrest := ih hcall (fun c' hc' => hshort c' (List.mem_cons_of_mem c hc'))
      rw [← replay_append] at hrest
      cases hwrite : c.write with
      | none =>
          rw [List.filterMap_cons_none hwrite]
          rw [hwrite] at hrest
          exact hrest
      | some w =>
          rw [List.filterMap_cons_some hwrite]
          rw [hwrite] at hrest
          exact hrest

def sampleCalls : List Call :=
  [Call.put [97] [1] 5 6,
    Call.putDeferred [98] [2] 7 8,
    Call.delete [97] 9 9,
    Call.put [] [3] 9 9,
    Call.compact,
    Call.putDeferred [99] [4] 9 9,
    Call.reopen { verifyOnOpen := true },
    Call.delete [97] 9 9]

/-- After any calls a store reads as the map does, lists exactly its live keys,
once each, and answers the next call as the map would. -/
theorem map_survives_reopening (opts : Options) (calls : List Call)
    (hshort : forall c, c ∈ calls -> c.Short) :
    exists s, openWith {} opts = Except.ok s ∧
      (forall k, (s.after calls).get k = Except.ok (written calls k)) ∧
      (s.after calls).keys.Nodup ∧
      (forall k, k ∈ (s.after calls).keys ↔ (written calls k).isSome) ∧
      (forall c : Call, c.Short ->
        ((s.after calls).call c).2 = c.answer (written calls)) := by
  rcases serves_open opts with ⟨s, hopen, hserves⟩
  have hafter := hserves.after hshort
  exact ⟨s, hopen, get_eq hafter.1 hafter.2.1, AList.keys_nodup _,
    mem_keys_iff hafter.2.1, fun c hc => (hafter.call hc).2⟩

/-- A put, a buffered one, a delete, a compaction and a reopening that scans
every file, with a rollover after each record. -/
theorem map_survives_reopening_sample :
    exists s, openWith {} { maxFileBytes := 30 } = Except.ok s ∧
      (forall k, (s.after sampleCalls).get k =
        Except.ok (written sampleCalls k)) ∧
      (s.after sampleCalls).keys.Nodup ∧
      (forall k, k ∈ (s.after sampleCalls).keys ↔
        (written sampleCalls k).isSome) ∧
      (forall c : Call, c.Short ->
        ((s.after sampleCalls).call c).2 = c.answer (written sampleCalls)) :=
  map_survives_reopening { maxFileBytes := 30 } sampleCalls (by decide)

end Store

end Minicask
