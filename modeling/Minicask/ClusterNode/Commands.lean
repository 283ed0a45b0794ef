import Minicask.ClusterNode.Answers
import Minicask.Server.Keyspace

/-!
# Commands to a cluster

`dispatch` of `cluster.rs`: what the thread of a client does with a command.  A read asks
for a read index and looks at the replica when it is ready, a write is proposed, and a
change of the membership edits the one in force.
-/

namespace Minicask

/-- `u64::from_str`: a plus sign, if there is one, and digits. -/
def Text.parseU64 (s : String) : Option Nat :=
  let digits :=
    match s.toList with
    | '+' :: digits => digits
    | digits => digits
  (Text.parseDigits digits).bind (fun n => if n < 2 ^ 64 then some n else none)

namespace ClusterNode

open Replicated Resp Replay
open Raft hiding Event
open Server (Keyspace commandName wrongArity bulkOrNull globMatch)

/-!
# The commands
-/

inductive Verb where
  | ping | echo | quit | command | client | select | get | mget | exists | dbsize
  | keys | set | del | add | remove | info
deriving Repr, DecidableEq

def verbs : List (String × Verb) :=
  [("PING", Verb.ping), ("ECHO", Verb.echo), ("QUIT", Verb.quit),
    ("COMMAND", Verb.command), ("CLIENT", Verb.client), ("SELECT", Verb.select),
    ("GET", Verb.get), ("MGET", Verb.mget), ("EXISTS", Verb.exists),
    ("DBSIZE", Verb.dbsize), ("KEYS", Verb.keys), ("SET", Verb.set),
    ("DEL", Verb.del), ("RAFT.ADD", Verb.add), ("RAFT.REMOVE", Verb.remove),
    ("RAFT", Verb.info), ("INFO", Verb.info)]

/-- What a command has the thread do: it is answered at once, by a look at the replica
once a read is ready, by a proposal, or by a look at the replica as it is. -/
inductive Errand where
  | reply (reply : Reply)
  | read (f : ReplicatedStore -> Reply)
  | write (op : Op)
  | change (edit : List Member -> Except String (List Member))
  | look (f : ReplicatedStore -> Reply)

def parseId (bytes : Bytes) : Option NodeId :=
  (Text.fromUtf8 bytes).bind Text.parseU64

def addMember (id : NodeId) (context : Bytes) (members : List Member) :
    Except String (List Member) :=
  if members.any (fun m => m.id == id) then
    Except.error ("node " ++ toString id ++ " is already a member")
  else
    let added : Member := { id := id, context := context, learner := true }
    Except.ok ((members ++ [added]).mergeSort (fun m m' => decide (m.id <= m'.id)))

def removeMember (id : NodeId) (members : List Member) :
    Except String (List Member) :=
  let left := members.filter (fun m => m.id != id)
  if left.length = members.length then
    Except.error ("node " ++ toString id ++ " is not a member")
  else Except.ok left

def roleName : Role -> String
  | Role.leader => "leader"
  | Role.candidate => "candidate"
  | Role.preCandidate => "pre-candidate"
  | Role.follower => "follower"

def infoText (r : ReplicatedStore) : String :=
  let ids := fun (members : List Member) =>
    String.intercalate "," (members.map (fun m => toString m.id))
  "id:" ++ toString r.node.id ++ "\r\nrole:" ++ roleName r.node.role ++
    "\r\nterm:" ++ toString r.node.term ++
    "\r\nleader:" ++ (r.node.leaderId.map toString).getD "none" ++
    "\r\ncommit_index:" ++ toString r.node.commitIndex ++
    "\r\napplied_index:" ++ toString r.applied ++
    "\r\nlast_index:" ++ toString r.node.storage.lastIndex ++
    "\r\nsnapshot_index:" ++ toString r.snapshotIndex ++
    "\r\nkeys:" ++ toString r.store.keys.length ++
    "\r\nmembers:" ++ ids r.node.members ++
    "\r\nvoters:" ++ ids (r.node.members.filter (fun m => !m.learner)) ++ "\r\n"

def getReply (r : ReplicatedStore) (key : Bytes) : Reply :=
  match r.get key with
  | Except.ok value => bulkOrNull value
  | Except.error e => Reply.err e.display

/-- A key that cannot be read is no different from one that is not there. -/
def mgetReply (r : ReplicatedStore) (keys : List Bytes) : Reply :=
  Reply.array (keys.map (fun key =>
    match r.get key with
    | Except.ok (some value) => Reply.bulk value
    | _ => Reply.null))

def existsReply (r : ReplicatedStore) (keys : List Bytes) : Reply :=
  Reply.integer (Int64.ofNat (keys.filter r.store.containsKey).length)

def keysReply (r : ReplicatedStore) (pattern : Bytes) : Reply :=
  Reply.array (((r.store.keys.filter (globMatch pattern)).mergeSort
    (fun a b => decide (a <= b))).map Reply.bulk)

def task (name : String) (verb : Verb) (args : List Bytes) : Errand :=
  let arity := Errand.reply (wrongArity name)
  match verb, args with
  | Verb.ping, [] => Errand.reply (Reply.simple "PONG")
  | Verb.ping, [msg] => Errand.reply (Reply.bulk msg)
  | Verb.ping, _ => arity
  | Verb.echo, [msg] => Errand.reply (Reply.bulk msg)
  | Verb.echo, _ => arity
  | Verb.quit, _ => Errand.reply Reply.ok
  | Verb.command, _ => Errand.reply (Reply.array [])
  | Verb.client, _ => Errand.reply Reply.ok
  | Verb.select, [db] =>
      Errand.reply (if db = [48] then Reply.ok
        else Reply.err "DB index is out of range")
  | Verb.select, _ => arity
  | Verb.get, [key] => Errand.read (fun r => getReply r key)
  | Verb.get, _ => arity
  | Verb.mget, [] => arity
  | Verb.mget, keys => Errand.read (fun r => mgetReply r keys)
  | Verb.exists, [] => arity
  | Verb.exists, keys => Errand.read (fun r => existsReply r keys)
  | Verb.dbsize, [] =>
      Errand.read (fun r => Reply.integer (Int64.ofNat r.store.keys.length))
  | Verb.dbsize, _ => arity
  | Verb.keys, [pattern] => Errand.read (fun r => keysReply r pattern)
  | Verb.keys, _ => arity
  | Verb.set, [key, value] => Errand.write (Op.put key value)
  | Verb.set, _ :: _ :: _ =>
      Errand.reply (Reply.err "this cluster's SET takes no options")
  | Verb.set, _ => arity
  | Verb.del, [] => arity
  | Verb.del, [key] => Errand.write (Op.delete key)
  | Verb.del, _ => Errand.reply (Reply.err "this cluster's DEL takes one key")
  | Verb.add, [id, raftAddr, clientAddr] =>
      match parseId id with
      | none => Errand.reply (Reply.err "RAFT.ADD wants a numeric node id")
      | some id =>
          match Text.fromUtf8 raftAddr, Text.fromUtf8 clientAddr with
          | some raftAddr, some clientAddr =>
              Errand.change (addMember id (memberContext raftAddr clientAddr))
          | _, _ => Errand.reply (Reply.err "addresses must be text")
  | Verb.add, _ => arity
  | Verb.remove, [id] =>
      match parseId id with
      | none => Errand.reply (Reply.err "RAFT.REMOVE wants a numeric node id")
      | some id => Errand.change (removeMember id)
  | Verb.remove, _ => arity
  | Verb.info, _ =>
      Errand.look (fun r => Reply.bulk (Text.asBytes (infoText r)))

def dispatch (command : Bytes) (args : List Bytes) : Errand :=
  let name := commandName command
  match verbs.lookup name with
  | none =>
      Errand.reply (Reply.err ("unknown command '" ++ Text.toAsciiLowercase name ++ "'"))
  | some verb => task name verb args

/-!
# What they come to on a keyspace
-/

theorem mem_of_lookup {name : String} {verb : Verb}
    (h : verbs.lookup name = some verb) : (name, verb) ∈ verbs := by
  rcases List.lookup_eq_some_iff.mp h with ⟨first, rest, heq, _⟩
  rw [heq]
  exact List.mem_append_right _ List.mem_cons_self

def serverVerb : Verb -> Option Server.Verb
  | Verb.get => some Server.Verb.get
  | Verb.mget => some Server.Verb.mget
  | Verb.exists => some Server.Verb.exists
  | Verb.dbsize => some Server.Verb.dbsize
  | Verb.keys => some Server.Verb.keys
  | Verb.set => some Server.Verb.set
  | Verb.del => some Server.Verb.del
  | _ => none

theorem lookup_serverVerb {name : String} {verb : Verb} {same : Server.Verb}
    (h : verbs.lookup name = some verb) (hsame : serverVerb verb = some same) :
    Server.verbs.lookup name = some same := by
  have hmem := mem_of_lookup h
  cases verb <;> cases hsame <;> simp [verbs] at hmem <;> rw [hmem] <;> rfl

theorem serve_eq {command : Bytes} {verb : Verb} {same : Server.Verb}
    (h : verbs.lookup (commandName command) = some verb)
    (hsame : serverVerb verb = some same) (m : Keyspace) (args : List Bytes) :
    m.serve command args = m.answer (commandName command) same args := by
  unfold Keyspace.serve
  rw [lookup_serverVerb h hsame]

inductive Reads : Verb -> List Bytes -> (ReplicatedStore -> Reply) -> Prop where
  | get (key : Bytes) : Reads Verb.get [key] (fun r => getReply r key)
  | mget (key : Bytes) (keys : List Bytes) :
      Reads Verb.mget (key :: keys) (fun r => mgetReply r (key :: keys))
  | present (key : Bytes) (keys : List Bytes) :
      Reads Verb.exists (key :: keys) (fun r => existsReply r (key :: keys))
  | dbsize : Reads Verb.dbsize []
      (fun r => Reply.integer (Int64.ofNat r.store.keys.length))
  | keys (pattern : Bytes) : Reads Verb.keys [pattern] (fun r => keysReply r pattern)

inductive Puts : Verb -> List Bytes -> Op -> Prop where
  | set (key value : Bytes) : Puts Verb.set [key, value] (Op.put key value)
  | del (key : Bytes) : Puts Verb.del [key] (Op.delete key)

theorem task_cases (name : String) (verb : Verb) (args : List Bytes) :
    match task name verb args with
    | Errand.read f => Reads verb args f
    | Errand.write op => Puts verb args op
    | _ => True := by
  cases verb with
  | get =>
      rcases args with _ | ⟨key, _ | ⟨_, _⟩⟩
      · trivial
      · exact Reads.get key
      · trivial
  | mget =>
      rcases args with _ | ⟨key, keys⟩
      · trivial
      · exact Reads.mget key keys
  | «exists» =>
      rcases args with _ | ⟨key, keys⟩
      · trivial
      · exact Reads.present key keys
  | dbsize =>
      rcases args with _ | ⟨_, _⟩
      · exact Reads.dbsize
      · trivial
  | keys =>
      rcases args with _ | ⟨pattern, _ | ⟨_, _⟩⟩
      · trivial
      · exact Reads.keys pattern
      · trivial
  | set =>
      rcases args with _ | ⟨key, _ | ⟨value, _ | ⟨_, _⟩⟩⟩
      · trivial
      · trivial
      · exact Puts.set key value
      · trivial
  | del =>
      rcases args with _ | ⟨key, _ | ⟨_, _⟩⟩
      · trivial
      · exact Puts.del key
      · trivial
  | ping => rcases args with _ | ⟨_, _ | ⟨_, _⟩⟩ <;> trivial
  | echo => rcases args with _ | ⟨_, _ | ⟨_, _⟩⟩ <;> trivial
  | select => rcases args with _ | ⟨_, _ | ⟨_, _⟩⟩ <;> trivial
  | add =>
      rcases args with _ | ⟨id, _ | ⟨raftAddr, _ | ⟨clientAddr, _ | ⟨_, _⟩⟩⟩⟩
      · trivial
      · trivial
      · trivial
      · unfold task
        dsimp only
        cases parseId id with
        | none => trivial
        | some id =>
            cases Text.fromUtf8 raftAddr with
            | none => trivial
            | some raftAddr => cases Text.fromUtf8 clientAddr <;> trivial
      · trivial
  | remove =>
      rcases args with _ | ⟨id, _ | ⟨_, _⟩⟩
      · trivial
      · unfold task
        dsimp only
        cases parseId id <;> trivial
      · trivial
  | _ => trivial

theorem dispatch_known {command : Bytes} {verb : Verb}
    (h : verbs.lookup (commandName command) = some verb) (args : List Bytes) :
    dispatch command args = task (commandName command) verb args := by
  unfold dispatch
  dsimp only
  rw [h]

theorem dispatch_cases {command : Bytes} {args : List Bytes} {errand : Errand}
    (h : dispatch command args = errand) (hlater : forall reply,
      errand ≠ Errand.reply reply) :
    exists verb, verbs.lookup (commandName command) = some verb ∧
      task (commandName command) verb args = errand := by
  cases hverb : verbs.lookup (commandName command) with
  | some verb =>
      rw [dispatch_known hverb] at h
      exact ⟨verb, rfl, h⟩
  | none =>
      unfold dispatch at h
      dsimp only at h
      rw [hverb] at h
      exact absurd h.symm (hlater _)

theorem dispatch_read {command : Bytes} {args : List Bytes}
    {f : ReplicatedStore -> Reply} (h : dispatch command args = Errand.read f) :
    exists verb, verbs.lookup (commandName command) = some verb ∧
      Reads verb args f := by
  rcases dispatch_cases h (by simp) with ⟨verb, hverb, htask⟩
  have hcases := task_cases (commandName command) verb args
  rw [htask] at hcases
  exact ⟨verb, hverb, hcases⟩

theorem dispatch_write {command : Bytes} {args : List Bytes} {op : Op}
    (h : dispatch command args = Errand.write op) :
    exists verb, verbs.lookup (commandName command) = some verb ∧
      Puts verb args op := by
  rcases dispatch_cases h (by simp) with ⟨verb, hverb, htask⟩
  have hcases := task_cases (commandName command) verb args
  rw [htask] at hcases
  exact ⟨verb, hverb, hcases⟩

/-- A read is answered as the keyspace answers it. -/
theorem read_answers {r : ReplicatedStore} {m : Keyspace}
    (hget : forall key, r.get key = Except.ok (m.value key))
    (hkeys : r.store.keys.toFinset = m.keys) {command : Bytes} {args : List Bytes}
    {f : ReplicatedStore -> Reply} (h : dispatch command args = Errand.read f) :
    m.serve command args = (f r, m) := by
  rcases dispatch_read h with ⟨verb, hverb, hreads⟩
  cases hreads with
  | get key =>
      rw [serve_eq hverb rfl]
      show (bulkOrNull (m.value key), m) = (getReply r key, m)
      unfold getReply
      rw [hget]
  | mget key keys =>
      rw [serve_eq hverb rfl]
      refine congrArg (fun replies => (Reply.array replies, m)) ?_
      refine List.map_congr_left fun key _ => ?_
      rw [hget]
      cases m.value key <;> rfl
  | present key keys =>
      rw [serve_eq hverb rfl]
      refine congrArg (fun count => (Reply.integer (Int64.ofNat count), m)) ?_
      rw [List.countP_eq_length_filter]
      refine congrArg List.length (List.filter_congr fun key _ => ?_)
      exact (Server.containsKey_keys hkeys key).symm
  | dbsize =>
      rw [serve_eq hverb rfl]
      show (Reply.integer (Int64.ofNat m.keys.card), m) = _
      rw [← Server.length_keys hkeys]
  | keys pattern =>
      rw [serve_eq hverb rfl]
      show (Reply.array (List.map Reply.bulk _), m) =
        (Reply.array (List.map Reply.bulk _), m)
      rw [Server.sorted_keys hkeys]

/-- A write leaves what the keyspace is left with. -/
theorem write_answers {command : Bytes} {args : List Bytes} {op : Op} {now : UInt64}
    {bytes : Bytes} (h : dispatch command args = Errand.write op)
    (hencode : op.encode now = Except.ok bytes) (m : Keyspace) :
    (m.serve command args).2.value = replay m.value [op.write] := by
  rcases dispatch_write h with ⟨verb, hverb, hputs⟩
  cases hputs with
  | set key value =>
      have hkey : key ≠ [] := by
        rintro rfl
        change Minicask.encode [] (some value) now = _ at hencode
        rw [encode_nil] at hencode
        cases hencode
      rw [serve_eq hverb rfl]
      show (m.answerPut key value).2.value = _
      unfold Keyspace.answerPut
      rw [if_neg hkey]
      rfl
  | del key =>
      rw [serve_eq hverb rfl]
      funext k
      show (if k ∈ [key].toFinset then none else m.value k) =
        Function.update m.value key none k
      rw [Function.update_apply, List.toFinset_cons, List.toFinset_nil,
        insert_empty_eq]
      simp only [Finset.mem_singleton]

end ClusterNode
end Minicask
