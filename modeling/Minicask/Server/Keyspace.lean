import Mathlib.Data.Finset.Sort
import Mathlib.Data.List.Lex
import Minicask.Server.GroupCommit

/-!
# What a client sees

`server.rs` serves a finite map.  Commands on it are commands on a keyspace, which
knows nothing of files, buffers or logs: how a command is carried out, call by call on
the store, and in what order, is nothing that a reply shows.
-/

namespace Minicask
namespace Server

open Replay Resp

/-!
# Keyspaces
-/

/-- Finitely many keys and their values. -/
structure Keyspace where
  value : Contents
  keys : Finset Bytes
  mem_keys : forall k, k ∈ keys ↔ (value k).isSome

namespace Keyspace

theorem ext {m m' : Keyspace} (h : m.value = m'.value) : m = m' := by
  have hkeys : m.keys = m'.keys := by
    ext k
    rw [m.mem_keys, m'.mem_keys, h]
  cases m
  cases m'
  cases h
  cases hkeys
  rfl

def nothing : Keyspace where
  value := empty
  keys := ∅
  mem_keys k := by simp [empty]

def put (m : Keyspace) (key value : Bytes) : Keyspace where
  value := Function.update m.value key (some value)
  keys := insert key m.keys
  mem_keys k := by
    rw [Finset.mem_insert, Function.update_apply]
    split
    · next heq => simp [heq]
    · next hne => simp [hne, m.mem_keys k]

def remove (m : Keyspace) (gone : Finset Bytes) : Keyspace where
  value k := if k ∈ gone then none else m.value k
  keys := m.keys \ gone
  mem_keys k := by
    rw [Finset.mem_sdiff]
    split
    · next hgone => simp [hgone]
    · next hkept => simp [hkept, m.mem_keys k]

theorem remove_nil (m : Keyspace) : m.remove ∅ = m := by
  apply ext
  funext k
  simp [remove]

theorem remove_remove (m : Keyspace) (gone more : Finset Bytes) :
    (m.remove gone).remove more = m.remove (gone ∪ more) := by
  apply ext
  funext k
  by_cases hmore : k ∈ more
  · simp [remove, hmore]
  · simp [remove, hmore]

theorem remove_keys (m : Keyspace) : m.remove m.keys = nothing := by
  apply ext
  funext k
  by_cases hk : k ∈ m.keys
  · simp [remove, nothing, empty, hk]
  · have hnone := (m.mem_keys k).not.mp hk
    rw [Option.not_isSome_iff_eq_none] at hnone
    simp [remove, nothing, empty, hnone]

def counts (m : Keyspace) (keys : Finset Bytes) : Nat :=
  (keys ∩ m.keys).card

theorem counts_insert (m : Keyspace) (key : Bytes) (keys : Finset Bytes) :
    m.counts (insert key keys) =
      (m.remove {key}).counts keys + (if (m.value key).isSome then 1 else 0) := by
  have hrest : keys ∩ (m.remove {key}).keys = (insert key keys ∩ m.keys).erase key := by
    ext k
    simp only [remove, Finset.mem_inter, Finset.mem_sdiff, Finset.mem_singleton,
      Finset.mem_erase, Finset.mem_insert]
    constructor
    · rintro ⟨hk, hin, hne⟩
      exact ⟨hne, Or.inr hk, hin⟩
    · rintro ⟨hne, heq | hk, hin⟩
      · exact absurd heq hne
      · exact ⟨hk, hin, hne⟩
  unfold counts
  rw [hrest]
  by_cases hkey : key ∈ m.keys
  · have hmem : key ∈ insert key keys ∩ m.keys :=
      Finset.mem_inter.mpr ⟨Finset.mem_insert_self key keys, hkey⟩
    rw [if_pos ((m.mem_keys key).mp hkey), Finset.card_erase_add_one hmem]
  · have hnot : key ∉ insert key keys ∩ m.keys :=
      fun hmem => hkey (Finset.mem_inter.mp hmem).2
    rw [if_neg ((m.mem_keys key).not.mp hkey), Finset.erase_eq_of_notMem hnot]
    rfl

/-!
# Commands on a keyspace
-/

def noKey : Reply :=
  Reply.err (Error.invalidKey "keys may not be empty").display

def answerPut (m : Keyspace) (key value : Bytes) : Reply × Keyspace :=
  if key = [] then (noKey, m) else (Reply.ok, m.put key value)

/-- Pairs are put until one has an empty key. -/
def answerPuts (m : Keyspace) : List Bytes -> Reply × Keyspace
  | key :: value :: pairs =>
      if key = [] then (noKey, m) else answerPuts (m.put key value) pairs
  | _ => (Reply.ok, m)

/-- Nothing is put where `NX` finds the key or `XX` does not. -/
def answerSet (m : Keyspace) (key value : Bytes) (options : List Bytes) :
    Reply × Keyspace :=
  match setOptions options (false, false) with
  | none => (Reply.err "syntax error", m)
  | some (true, true) => (Reply.err "syntax error", m)
  | some (true, false) =>
      if key ∈ m.keys then (Reply.null, m) else m.answerPut key value
  | some (false, true) =>
      if key ∈ m.keys then m.answerPut key value else (Reply.null, m)
  | some (false, false) => m.answerPut key value

def answer (m : Keyspace) (name : String) (verb : Verb) (args : List Bytes) :
    Reply × Keyspace :=
  match verb, args with
  | Verb.ping, [] => (Reply.simple "PONG", m)
  | Verb.ping, [msg] => (Reply.bulk msg, m)
  | Verb.echo, [msg] => (Reply.bulk msg, m)
  | Verb.get, [key] => (bulkOrNull (m.value key), m)
  | Verb.set, key :: value :: options => m.answerSet key value options
  | Verb.del, key :: keys =>
      (Reply.integer (Int64.ofNat (m.counts (key :: keys).toFinset)),
        m.remove (key :: keys).toFinset)
  | Verb.exists, key :: keys =>
      (Reply.integer (Int64.ofNat ((key :: keys).countP (· ∈ m.keys))), m)
  | Verb.mget, key :: keys =>
      (Reply.array ((key :: keys).map (fun k => bulkOrNull (m.value k))), m)
  | Verb.mset, key :: value :: pairs =>
      if pairs.length % 2 = 0 then m.answerPuts (key :: value :: pairs)
      else (wrongArity name, m)
  | Verb.keys, [pattern] =>
      (Reply.array ((((m.keys.filter (fun k => globMatch pattern k)).sort
        (· ≤ ·))).map Reply.bulk), m)
  | Verb.dbsize, [] => (Reply.integer (Int64.ofNat m.keys.card), m)
  | Verb.flush, _ => (Reply.ok, nothing)
  | Verb.select, [db] =>
      (if db = [48] then Reply.ok else Reply.err "DB index is out of range", m)
  | Verb.command, _ => (Reply.array [], m)
  | Verb.client, _ => (Reply.ok, m)
  | Verb.quit, _ => (Reply.ok, m)
  | _, _ => (wrongArity name, m)

/-- A command and its arguments. -/
def serve (m : Keyspace) (command : Bytes) (args : List Bytes) :
    Reply × Keyspace :=
  match verbs.lookup (commandName command) with
  | none =>
      (Reply.err ("unknown command '" ++
        Text.toAsciiLowercase (commandName command) ++ "'"), m)
  | some verb => m.answer (commandName command) verb args

end Keyspace

/-!
# The writes that a command is made of
-/

def putWrites : List Bytes -> List (Write Bytes Bytes)
  | key :: value :: pairs =>
      if key = [] then []
      else { key := key, value := some value } :: putWrites pairs
  | _ => []

def goneWrites (keys : List Bytes) : List (Write Bytes Bytes) :=
  keys.map (fun key => { key := key, value := none })

namespace Keyspace

/-- A known command writes these, in this order.  The keys of a flush go in any
order. -/
def Writes (m : Keyspace) (verb : Verb) (args : List Bytes)
    (writes : List (Write Bytes Bytes)) : Prop :=
  match verb, args with
  | Verb.set, key :: value :: options =>
      (m.answerSet key value options).1 = Reply.ok ∧ writes = putWrites [key, value] ∨
        (m.answerSet key value options).1 ≠ Reply.ok ∧ writes = []
  | Verb.del, keys => writes = goneWrites keys
  | Verb.mset, pairs =>
      writes = if pairs.length % 2 = 0 then putWrites pairs else []
  | Verb.flush, _ =>
      exists keys, keys.Nodup ∧ keys.toFinset = m.keys ∧ writes = goneWrites keys
  | _, _ => writes = []

def Made (m : Keyspace) (command : Bytes) (args : List Bytes)
    (writes : List (Write Bytes Bytes)) : Prop :=
  match verbs.lookup (commandName command) with
  | none => writes = []
  | some verb => m.Writes verb args writes

end Keyspace

/-!
# Calls on the store
-/

/-- A call that appends, or has nothing to append. -/
def Appends (c : Call) : Prop :=
  c.Plain ∧ c.Short

/-- Keys and values that fit in a record together. -/
def Fitting (args : List Bytes) : Prop :=
  forall key, key ∈ args -> forall value, value ∈ args ->
    headerLen + key.length + value.length < 2 ^ 32

/-- What an operation of the server comes to, done by some calls that make these
writes. -/
structure Did (s : Store) (m : Keyspace) (writes : List (Write Bytes Bytes))
    (m' : Keyspace) (calls : List Call) (s' : Store) : Prop where
  appends : forall c, c ∈ calls -> Appends c
  store : s' = s.after calls
  made : calls.filterMap Call.write = writes
  contents : m'.value = replay m.value writes
  serves : s'.Serves m'.value

theorem after_append (s : Store) (calls more : List Call) :
    s.after (calls ++ more) = (s.after calls).after more :=
  List.foldl_append

namespace Did

variable {s s' s'' : Store} {m m' m'' : Keyspace} {calls more : List Call}
  {writes rest : List (Write Bytes Bytes)}

theorem nothing (h : s.Serves m.value) : Did s m [] m [] s where
  appends _ hc := absurd hc List.not_mem_nil
  store := rfl
  made := rfl
  contents := rfl
  serves := h

theorem trans (h : Did s m writes m' calls s') (h' : Did s' m' rest m'' more s'') :
    Did s m (writes ++ rest) m'' (calls ++ more) s'' where
  appends c hc := by
    rcases List.mem_append.mp hc with hfirst | hlater
    · exact h.appends c hfirst
    · exact h'.appends c hlater
  store := by
    rw [h'.store, h.store, after_append]
  made := by
    rw [List.filterMap_append, h.made, h'.made]
  contents := by
    rw [h'.contents, h.contents, replay_append]
  serves := h'.serves

theorem one (h : s.Serves m.value) {c : Call} (hc : Appends c)
    (hwrites : c.write.toList = writes)
    (hcontents : m'.value = replay m.value writes) :
    Did s m writes m' [c] (s.call c).1 where
  appends c' hc' := by
    rw [List.mem_singleton.mp hc']
    exact hc
  store := rfl
  made := by
    rw [← hwrites]
    cases hwrite : c.write with
    | none => exact List.filterMap_cons_none hwrite
    | some w => exact List.filterMap_cons_some hwrite
  contents := hcontents
  serves := by
    rw [hcontents, ← hwrites]
    exact (h.call hc.2).1

end Did

def Answers.putCall (os : Answers) (turn : Nat) (s : Store)
    (key value : Bytes) : Call :=
  if s.opts.sync = SyncPolicy.everyWrite then
    Call.putDeferred key value (os.clock (2 * turn)) (os.clock (2 * turn + 1))
  else Call.put key value (os.clock (2 * turn)) (os.clock (2 * turn + 1))

def Answers.deleteCall (os : Answers) (turn : Nat) (s : Store)
    (key : Bytes) : Call :=
  if s.opts.sync = SyncPolicy.everyWrite then
    Call.deleteDeferred key (os.clock (2 * turn)) (os.clock (2 * turn + 1))
  else Call.delete key (os.clock (2 * turn)) (os.clock (2 * turn + 1))

section Keys

variable {s : Store} {m : Keyspace}

theorem keys_toFinset (h : s.Serves m.value) : s.keys.toFinset = m.keys := by
  ext k
  rw [List.mem_toFinset, Store.mem_keys_iff h.2.1, m.mem_keys]

theorem keys_nodup (s : Store) : s.keys.Nodup :=
  s.keydir.nodupKeys

theorem containsKey_keys (h : s.keys.toFinset = m.keys) (key : Bytes) :
    s.containsKey key = decide (key ∈ m.keys) := by
  have hmem : key ∈ m.keys ↔ key ∈ s.keys := by
    rw [← h, List.mem_toFinset]
  rw [Bool.eq_iff_iff, decide_eq_true_iff, hmem, Store.containsKey,
    AList.lookup_isSome, AList.mem_keys]
  rfl

theorem exists_keyspace {contents : Contents} (h : s.Serves contents) :
    exists m : Keyspace, m.value = contents := by
  refine ⟨⟨contents, s.keys.toFinset, fun k => ?_⟩, rfl⟩
  rw [List.mem_toFinset, Store.mem_keys_iff h.2.1]

theorem length_keys (h : s.keys.toFinset = m.keys) :
    s.keys.length = m.keys.card := by
  rw [← h, List.toFinset_card_of_nodup (keys_nodup s)]

theorem sorted_keys (h : s.keys.toFinset = m.keys) (pattern : Bytes) :
    (s.keys.filter (globMatch pattern)).mergeSort (fun a b => decide (a <= b)) =
      (m.keys.filter (fun k => globMatch pattern k)).sort (· ≤ ·) := by
  have htotal : forall a b : Bytes,
      (decide (a <= b) || decide (b <= a)) = true := by
    intro a b
    simp [List.le_total a b]
  have htrans : forall a b c : Bytes, decide (a <= b) = true ->
      decide (b <= c) = true -> decide (a <= c) = true := by
    intro a b c hab hbc
    exact decide_eq_true (List.le_trans (of_decide_eq_true hab)
      (of_decide_eq_true hbc))
  have hperm := List.mergeSort_perm (s.keys.filter (globMatch pattern))
    (fun a b => decide (a <= b))
  have hsorted := List.pairwise_mergeSort htrans htotal
    (s.keys.filter (globMatch pattern))
  have hsame : m.keys.filter (fun k => globMatch pattern k) =
      ((s.keys.filter (globMatch pattern)).mergeSort
        (fun a b => decide (a <= b))).toFinset := by
    rw [List.toFinset_eq_of_perm _ _ hperm, List.toFinset_filter, h]
  rw [hsame, (List.toFinset_sort _ (hperm.nodup_iff.mpr
    ((keys_nodup s).filter _))).mpr]
  exact hsorted.imp fun hle => of_decide_eq_true hle

end Keys

section Operations

variable {os : Answers} (hgranted : forall turn, os.refused turn = none)
  {s : Store} {m : Keyspace}

include hgranted

theorem put_call (s : Store) (turn : Nat) (key value : Bytes) :
    os.put turn s key value =
      ((s.call (os.putCall turn s key value)).2.map (fun _ => ()),
        (s.call (os.putCall turn s key value)).1) := by
  unfold Answers.put Answers.putCall
  rw [hgranted turn]
  dsimp only
  by_cases hpolicy : s.opts.sync = SyncPolicy.everyWrite
  · rw [if_pos hpolicy, if_pos hpolicy]
    unfold Store.call
    dsimp only
    cases s.putDeferred key value (os.clock (2 * turn)) (os.clock (2 * turn + 1)) <;>
      rfl
  · rw [if_neg hpolicy, if_neg hpolicy]
    unfold Store.call
    dsimp only
    cases s.put key value (os.clock (2 * turn)) (os.clock (2 * turn + 1)) <;> rfl

theorem delete_call (s : Store) (turn : Nat) (key : Bytes) :
    os.delete turn s key =
      ((s.call (os.deleteCall turn s key)).2.map (fun was => was.getD false),
        (s.call (os.deleteCall turn s key)).1) := by
  unfold Answers.delete Answers.deleteCall
  rw [hgranted turn]
  dsimp only
  by_cases hpolicy : s.opts.sync = SyncPolicy.everyWrite
  · rw [if_pos hpolicy, if_pos hpolicy]
    unfold Store.call
    dsimp only
    cases s.deleteDeferred key (os.clock (2 * turn)) (os.clock (2 * turn + 1)) <;>
      rfl
  · rw [if_neg hpolicy, if_neg hpolicy]
    unfold Store.call
    dsimp only
    cases s.delete key (os.clock (2 * turn)) (os.clock (2 * turn + 1)) <;> rfl

theorem put_did (h : s.Serves m.value) (turn : Nat) {key value : Bytes}
    (hshort : headerLen + key.length + value.length < 2 ^ 32) :
    exists calls s',
      os.put turn s key value =
        ((if key = [] then
          Except.error (Error.invalidKey "keys may not be empty")
        else Except.ok ()), s') ∧
      Did s m (putWrites [key, value]) (m.answerPut key value).2 calls s' := by
  have happends : Appends (os.putCall turn s key value) := by
    unfold Answers.putCall
    split
    · exact ⟨trivial, hshort⟩
    · exact ⟨trivial, hshort⟩
  have hwrite : (os.putCall turn s key value).write =
      if key.isEmpty then none else some { key := key, value := some value } := by
    unfold Answers.putCall
    split <;> rfl
  have hanswer : (os.putCall turn s key value).answer m.value =
      if key.isEmpty then
        Except.error (Error.invalidKey "keys may not be empty")
      else Except.ok none := by
    unfold Answers.putCall
    split <;> rfl
  refine ⟨[os.putCall turn s key value], _, ?_, Did.one h happends ?_ ?_⟩
  · rw [put_call hgranted, (h.call happends.2).2, hanswer]
    cases key <;> rfl
  · rw [hwrite]
    cases key <;> rfl
  · unfold Keyspace.answerPut
    cases key <;> rfl

theorem delete_did (h : s.Serves m.value) (turn : Nat) (key : Bytes) :
    exists calls s',
      os.delete turn s key = (Except.ok (m.value key).isSome, s') ∧
      Did s m (goneWrites [key]) (m.remove {key}) calls s' := by
  have happends : Appends (os.deleteCall turn s key) := by
    unfold Answers.deleteCall
    split
    · exact ⟨trivial, trivial⟩
    · exact ⟨trivial, trivial⟩
  have hwrite : (os.deleteCall turn s key).write =
      some { key := key, value := none } := by
    unfold Answers.deleteCall
    split <;> rfl
  have hanswer : (os.deleteCall turn s key).answer m.value =
      Except.ok (some (m.value key).isSome) := by
    unfold Answers.deleteCall
    split <;> rfl
  refine ⟨[os.deleteCall turn s key], _, ?_, Did.one h happends ?_ ?_⟩
  · rw [delete_call hgranted, (h.call happends.2).2, hanswer]
    rfl
  · rw [hwrite]
    rfl
  · funext k
    show (if k ∈ ({key} : Finset Bytes) then none else m.value k) =
      Function.update m.value key none k
    rw [Function.update_apply]
    simp only [Finset.mem_singleton]

/-- Deleting keys one after another counts each that was there once. -/
theorem deleteAll_did (keys : List Bytes) (h : s.Serves m.value) (turn : Nat) :
    exists calls s',
      deleteAll os turn s keys = (Except.ok (m.counts keys.toFinset), s') ∧
      Did s m (goneWrites keys) (m.remove keys.toFinset) calls s' := by
  induction keys generalizing s m turn with
  | nil =>
      refine ⟨[], s, ?_, ?_⟩
      · unfold deleteAll Keyspace.counts
        simp
      · rw [List.toFinset_nil, Keyspace.remove_nil]
        exact Did.nothing h
  | cons key keys ih =>
      rcases delete_did hgranted h turn key with ⟨calls, s₁, hdelete, hdid⟩
      rcases ih hdid.serves (turn + 1) with ⟨more, s', hrest, hdid'⟩
      refine ⟨calls ++ more, s', ?_, ?_⟩
      · unfold deleteAll
        rw [hdelete]
        dsimp only
        rw [hrest, List.toFinset_cons, Keyspace.counts_insert]
        dsimp only [Except.map]
        cases (m.value key).isSome <;> rfl
      · have htrans := hdid.trans hdid'
        rw [Keyspace.remove_remove, ← Finset.insert_eq, ← List.toFinset_cons]
          at htrans
        exact htrans

theorem putAll_did {args : List Bytes} (hfits : Fitting args) (pairs : List Bytes)
    (hpairs : forall arg, arg ∈ pairs -> arg ∈ args) (h : s.Serves m.value)
    (turn : Nat) :
    replyOf ((putAll os turn s pairs).1.map (fun _ => Reply.ok)) =
        (m.answerPuts pairs).1 ∧
      exists calls, Did s m (putWrites pairs) (m.answerPuts pairs).2 calls
        (putAll os turn s pairs).2 := by
  induction m, pairs using Keyspace.answerPuts.induct generalizing s turn with
  | case1 m value pairs =>
      have hin : forall arg, arg ∈ ([] : Bytes) :: value :: pairs -> arg ∈ args :=
        hpairs
      have hshort := hfits [] (hin _ List.mem_cons_self) value
        (hin _ (List.mem_cons_of_mem _ List.mem_cons_self))
      rcases put_did hgranted h turn hshort with ⟨calls, s', hput, hdid⟩
      unfold Keyspace.answerPut at hdid
      rw [if_pos rfl] at hput hdid
      unfold putAll Keyspace.answerPuts putWrites
      rw [hput, if_pos rfl, if_pos rfl]
      exact ⟨rfl, calls, hdid⟩
  | case2 m key value pairs hkey ih =>
      have hshort := hfits key (hpairs _ List.mem_cons_self) value
        (hpairs _ (List.mem_cons_of_mem _ List.mem_cons_self))
      rcases put_did hgranted h turn hshort with ⟨calls, s₁, hput, hdid⟩
      unfold Keyspace.answerPut at hdid
      rw [if_neg hkey] at hput hdid
      rcases ih (fun arg harg => hpairs arg (List.mem_cons_of_mem _
        (List.mem_cons_of_mem _ harg))) hdid.serves (turn + 1) with
        ⟨hreply, more, hdid'⟩
      have hwrites : putWrites [key, value] ++ putWrites pairs =
          putWrites (key :: value :: pairs) := by
        simp only [putWrites, if_neg hkey]
        rfl
      unfold putAll Keyspace.answerPuts
      rw [hput, if_neg hkey, ← hwrites]
      exact ⟨hreply, calls ++ more, hdid.trans hdid'⟩
  | case3 pairs m hshort =>
      have hdone : putAll os turn s pairs = (Except.ok (), s) ∧
          m.answerPuts pairs = (Reply.ok, m) ∧ putWrites pairs = [] := by
        cases pairs with
        | nil => exact ⟨rfl, rfl, rfl⟩
        | cons key rest =>
            cases rest with
            | nil => exact ⟨rfl, rfl, rfl⟩
            | cons value rest => exact (hshort key value rest rfl).elim
      rw [hdone.1, hdone.2.1, hdone.2.2]
      exact ⟨rfl, [], Did.nothing h⟩

theorem set_did (h : s.Serves m.value) {key value : Bytes}
    (hshort : headerLen + key.length + value.length < 2 ^ 32)
    (options : List Bytes) :
    replyOf (set os s key value options).1 =
        (m.answerSet key value options).1 ∧
      exists writes calls, m.Writes Verb.set (key :: value :: options) writes ∧
        Did s m writes (m.answerSet key value options).2 calls
          (set os s key value options).2 := by
  have hput : replyOf ((os.put 0 s key value).1.map (fun _ => Reply.ok)) =
      (m.answerPut key value).1 ∧
        exists writes calls,
          ((m.answerPut key value).1 = Reply.ok ∧ writes = putWrites [key, value] ∨
            (m.answerPut key value).1 ≠ Reply.ok ∧ writes = []) ∧
          Did s m writes (m.answerPut key value).2 calls (os.put 0 s key value).2 := by
    rcases put_did hgranted h 0 hshort with ⟨calls, s', hput, hdid⟩
    rw [hput]
    refine ⟨?_, putWrites [key, value], calls, ?_, hdid⟩
    · unfold Keyspace.answerPut
      split <;> rfl
    · unfold Keyspace.answerPut putWrites
      split
      · exact Or.inr ⟨nofun, rfl⟩
      · exact Or.inl ⟨rfl, rfl⟩
  have hkept : forall reply, reply ≠ Reply.ok ->
      exists (writes : List (Write Bytes Bytes)) (calls : List Call),
        (reply = Reply.ok ∧ writes = putWrites [key, value] ∨
          reply ≠ Reply.ok ∧ writes = []) ∧ Did s m writes m calls s :=
    fun _ hreply => ⟨[], [], Or.inr ⟨hreply, rfl⟩, Did.nothing h⟩
  have hpresent := containsKey_keys (keys_toFinset h) key
  unfold Keyspace.Writes
  dsimp only
  unfold set Keyspace.answerSet
  cases setOptions options (false, false) with
  | none => exact ⟨rfl, hkept _ nofun⟩
  | some found =>
      rcases found with ⟨missing, present⟩
      dsimp only
      rw [hpresent]
      by_cases hkey : key ∈ m.keys
      · rw [decide_eq_true hkey]
        cases missing with
        | true => cases present <;> simp only [if_pos hkey] <;>
            exact ⟨rfl, hkept _ nofun⟩
        | false => cases present <;> simp only [if_pos hkey] <;> exact hput
      · rw [decide_eq_false hkey]
        cases present with
        | true => cases missing <;> simp only [if_neg hkey] <;>
            exact ⟨rfl, hkept _ nofun⟩
        | false => cases missing <;> simp only [if_neg hkey] <;> exact hput

theorem collect_gets (h : s.Serves m.value) (keys : List Bytes) :
    collect (keys.mapIdx (fun turn key => os.get turn s key)) =
      Except.ok (keys.map m.value) := by
  have hget : forall turn key, os.get turn s key = Except.ok (m.value key) := by
    intro turn key
    unfold Answers.get
    rw [hgranted turn]
    exact Store.get_eq h.1 h.2.1 key
  rw [collect_eq_ok_iff, List.map_map]
  apply List.ext_getElem
  · simp
  · intro i hi hi'
    simp [hget]

end Operations

/-!
# A command
-/

/-- A command on the store is one on the keyspace. -/
theorem run_did {os : Answers} (hgranted : forall turn, os.refused turn = none)
    {s : Store} {m : Keyspace} (h : s.Serves m.value)
    (durableBy : Option Point) (name : String) (verb : Verb) {args : List Bytes}
    (hfits : Fitting args) :
    replyOf (run os s durableBy name verb args).1 = (m.answer name verb args).1 ∧
      exists writes calls, m.Writes verb args writes ∧
        Did s m writes (m.answer name verb args).2 calls
          (run os s durableBy name verb args).2.1 := by
  have hkept : exists writes calls, writes = [] ∧ Did s m writes m calls s :=
    ⟨[], [], rfl, Did.nothing h⟩
  cases verb with
  | ping => rcases args with _ | ⟨msg, _ | ⟨_, _⟩⟩ <;> exact ⟨rfl, hkept⟩
  | echo => rcases args with _ | ⟨msg, _ | ⟨_, _⟩⟩ <;> exact ⟨rfl, hkept⟩
  | get =>
      rcases args with _ | ⟨key, _ | ⟨_, _⟩⟩
      · exact ⟨rfl, hkept⟩
      · have hget : os.get 0 s key = Except.ok (m.value key) := by
          unfold Answers.get
          rw [hgranted 0]
          exact Store.get_eq h.1 h.2.1 key
        refine ⟨?_, hkept⟩
        unfold run
        dsimp only
        rw [hget]
        rfl
      · exact ⟨rfl, hkept⟩
  | set =>
      rcases args with _ | ⟨key, _ | ⟨value, options⟩⟩
      · exact ⟨rfl, hkept⟩
      · exact ⟨rfl, hkept⟩
      · exact set_did hgranted h (hfits key List.mem_cons_self value
          (List.mem_cons_of_mem _ List.mem_cons_self)) options
  | del =>
      rcases args with _ | ⟨key, keys⟩
      · exact ⟨rfl, hkept⟩
      · rcases deleteAll_did hgranted (key :: keys) h 0 with
          ⟨calls, s', hdelete, hdid⟩
        unfold run
        dsimp only
        rw [hdelete]
        exact ⟨rfl, _, calls, rfl, hdid⟩
  | «exists» =>
      rcases args with _ | ⟨key, keys⟩
      · exact ⟨rfl, hkept⟩
      · refine ⟨?_, hkept⟩
        have hpresent := containsKey_keys (keys_toFinset h)
        show Reply.integer (Int64.ofNat
          ((key :: keys).filter s.containsKey).length) = _
        rw [← List.countP_eq_length_filter, funext hpresent]
        rfl
  | mget =>
      rcases args with _ | ⟨key, keys⟩
      · exact ⟨rfl, hkept⟩
      · refine ⟨?_, hkept⟩
        unfold run
        dsimp only
        rw [collect_gets hgranted h, Except.map]
        show Reply.array (((key :: keys).map m.value).map bulkOrNull) = _
        rw [List.map_map]
        rfl
  | mset =>
      rcases args with _ | ⟨key, _ | ⟨value, pairs⟩⟩
      · exact ⟨rfl, hkept⟩
      · exact ⟨rfl, hkept⟩
      · have hputs := putAll_did hgranted hfits (key :: value :: pairs)
          (fun _ harg => harg) h 0
        have hlength : (key :: value :: pairs).length % 2 = pairs.length % 2 :=
          Nat.add_mod_right pairs.length 2
        unfold run Keyspace.answer Keyspace.Writes
        dsimp only
        by_cases heven : pairs.length % 2 = 0
        · rw [if_pos heven, if_neg (not_not.mpr (hlength.trans heven)),
            if_pos (hlength.trans heven)]
          rcases hputs with ⟨hreply, calls, hdid⟩
          exact ⟨hreply, _, calls, rfl, hdid⟩
        · have hodd : ¬(key :: value :: pairs).length % 2 = 0 :=
            fun heq => heven (hlength.symm.trans heq)
          rw [if_neg heven, if_pos hodd, if_neg hodd]
          exact ⟨rfl, hkept⟩
  | keys =>
      rcases args with _ | ⟨pattern, _ | ⟨_, _⟩⟩
      · exact ⟨rfl, hkept⟩
      · refine ⟨?_, hkept⟩
        unfold run
        dsimp only
        rw [sorted_keys (keys_toFinset h)]
        rfl
      · exact ⟨rfl, hkept⟩
  | dbsize =>
      rcases args with _ | ⟨_, _⟩
      · refine ⟨?_, hkept⟩
        show Reply.integer (Int64.ofNat s.keys.length) = _
        rw [length_keys (keys_toFinset h)]
        rfl
      · exact ⟨rfl, hkept⟩
  | flush =>
      rcases deleteAll_did hgranted s.keys h 0 with ⟨calls, s', hdelete, hdid⟩
      rw [keys_toFinset h, Keyspace.remove_keys] at hdid
      unfold run
      dsimp only
      rw [hdelete]
      exact ⟨rfl, _, calls, ⟨s.keys, keys_nodup s, keys_toFinset h, rfl⟩, hdid⟩
  | select => rcases args with _ | ⟨db, _ | ⟨_, _⟩⟩ <;> exact ⟨rfl, hkept⟩
  | command => exact ⟨rfl, hkept⟩
  | client => exact ⟨rfl, hkept⟩
  | quit => exact ⟨rfl, hkept⟩

/-- Whatever its arguments are, as long as they fit in records: the reply is that of
the keyspace, and what is left is the store of the keyspace that is left. -/
theorem dispatch_did {os : Answers} (hgranted : forall turn, os.refused turn = none)
    {s : Store} {m : Keyspace} (h : s.Serves m.value)
    (durableBy : Option Point) (command : Bytes) {args : List Bytes}
    (hfits : Fitting args) :
    (dispatch os s durableBy command args).1 = (m.serve command args).1 ∧
      exists writes calls, m.Made command args writes ∧
        Did s m writes (m.serve command args).2 calls
          (dispatch os s durableBy command args).2.1 := by
  unfold dispatch Keyspace.serve Keyspace.Made
  dsimp only
  cases verbs.lookup (commandName command) with
  | none => exact ⟨rfl, [], [], rfl, Did.nothing h⟩
  | some verb =>
      have hrun := run_did hgranted h durableBy (commandName command) verb hfits
      dsimp only
      rcases hresult : run os s durableBy (commandName command) verb args with
        ⟨result, s', durableBy'⟩
      rw [hresult] at hrun
      cases result with
      | ok reply => exact hrun
      | error e => exact hrun

end Server
end Minicask
