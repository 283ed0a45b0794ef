import Minicask.Server.Resp
import Minicask.Store.Basic

/-!
# Commands

`server.rs`: one command against the store and its reply.  What the operating system
answers in the course of a command is an argument.
-/

namespace Minicask

def Error.display : Error -> String
  | Error.io why => "io error: " ++ why
  | Error.corrupt fileId offset detail =>
      "corrupt record in " ++
        String.ofList ((toString fileId).toList.leftpad 10 '0') ++
        ".log at offset " ++ toString offset ++ ": " ++ detail
  | Error.invalidKey why => "invalid key: " ++ why
  | Error.valueTooLarge len =>
      "value of " ++ toString len ++ " bytes exceeds the u32 length prefix"

namespace Server

open Resp

/-- The readings of the clock, and the operations that the disk refuses: with its
message and with the store as it is then. -/
structure Answers where
  clock : Nat -> UInt64
  refused : Nat -> Option (String × Store)

def appendPoint (s : Store) : FileId × Nat :=
  (s.writer.fileId, s.writer.offset)

namespace Answers

def get (os : Answers) (turn : Nat) (s : Store) (key : Bytes) :
    Except Error (Option Bytes) :=
  match os.refused turn with
  | some (why, _) => Except.error (Error.io why)
  | none => s.get key

/-- A write goes into the buffer if its reply waits for the disk. -/
def put (os : Answers) (turn : Nat) (s : Store) (key value : Bytes) :
    Except Error Unit × Store :=
  match os.refused turn with
  | some (why, left) => (Except.error (Error.io why), left)
  | none =>
      let now := os.clock (2 * turn)
      let later := os.clock (2 * turn + 1)
      match
        if s.opts.sync = SyncPolicy.everyWrite then
          s.putDeferred key value now later
        else s.put key value now later
      with
      | Except.error e => (Except.error e, s)
      | Except.ok written => (Except.ok (), written)

def delete (os : Answers) (turn : Nat) (s : Store) (key : Bytes) :
    Except Error Bool × Store :=
  match os.refused turn with
  | some (why, left) => (Except.error (Error.io why), left)
  | none =>
      let now := os.clock (2 * turn)
      let later := os.clock (2 * turn + 1)
      match
        if s.opts.sync = SyncPolicy.everyWrite then
          s.deleteDeferred key now later
        else s.delete key now later
      with
      | Except.error e => (Except.error e, s)
      | Except.ok (deleted, was) => (Except.ok was, deleted)

end Answers

/-- The reply to a write waits for the disk to get here. -/
def mustReach (s : Store) (durableBy : Option (FileId × Nat)) :
    Option (FileId × Nat) :=
  if s.opts.sync = SyncPolicy.everyWrite then
    let point := appendPoint s
    match durableBy with
    | none => some point
    | some p =>
        if p.1 < point.1 ∨ (p.1 = point.1 ∧ p.2 < point.2) then some point
        else some p
  else durableBy

/-!
# The commands

Each is its arguments' number and kinds, and what it does to the store.  A write goes
into the buffer, and its reply waits for the disk.
-/

inductive Verb where
  | ping | echo | get | set | del | exists | mget | mset | keys | dbsize
  | flush | select | command | client | quit
deriving Repr, DecidableEq

def verbs : List (String × Verb) :=
  [("PING", Verb.ping), ("ECHO", Verb.echo), ("GET", Verb.get),
    ("SET", Verb.set), ("DEL", Verb.del), ("EXISTS", Verb.exists),
    ("MGET", Verb.mget), ("MSET", Verb.mset), ("KEYS", Verb.keys),
    ("DBSIZE", Verb.dbsize), ("FLUSHDB", Verb.flush), ("FLUSHALL", Verb.flush),
    ("SELECT", Verb.select), ("COMMAND", Verb.command),
    ("CLIENT", Verb.client), ("QUIT", Verb.quit)]

def wrongArity (name : String) : Reply :=
  Reply.err ("wrong number of arguments for '" ++ Text.toAsciiLowercase name ++
    "' command")

def bulkOrNull : Option Bytes -> Reply
  | none => Reply.null
  | some value => Reply.bulk value

def collect {α : Type} : List (Except Error α) -> Except Error (List α)
  | [] => Except.ok []
  | Except.error e :: _ => Except.error e
  | Except.ok a :: rest => (collect rest).map (fun answers => a :: answers)

def deleteAll (os : Answers) :
    Nat -> Store -> List Bytes -> Except Error Nat × Store
  | _, s, [] => (Except.ok 0, s)
  | turn, s, key :: keys =>
      match os.delete turn s key with
      | (Except.error e, s) => (Except.error e, s)
      | (Except.ok was, s) =>
          let (count, s) := deleteAll os (turn + 1) s keys
          (count.map (fun n => if was then n + 1 else n), s)

/-- Keys and values in turn. -/
def putAll (os : Answers) :
    Nat -> Store -> List Bytes -> Except Error Unit × Store
  | turn, s, key :: value :: pairs =>
      match os.put turn s key value with
      | (Except.error e, s) => (Except.error e, s)
      | (Except.ok (), s) => putAll os (turn + 1) s pairs
  | _, s, _ => (Except.ok (), s)

def setOptions : List Bytes -> Bool × Bool -> Option (Bool × Bool)
  | [], found => some found
  | option :: options, found =>
      let upper := option.map (fun byte =>
        if 97 <= byte && byte <= 122 then byte - 32 else byte)
      if upper = [78, 88] then setOptions options (true, found.2)
      else if upper = [88, 88] then setOptions options (found.1, true)
      else none

def set (os : Answers) (s : Store) (key value : Bytes) (options : List Bytes) :
    Except Error Reply × Store :=
  match setOptions options (false, false) with
  | none => (Except.ok (Reply.err "syntax error"), s)
  | some (onlyIfMissing, onlyIfPresent) =>
      if onlyIfMissing && onlyIfPresent then
        (Except.ok (Reply.err "syntax error"), s)
      else
        let present := s.containsKey key
        if (onlyIfMissing && present) || (onlyIfPresent && !present) then
          (Except.ok Reply.null, s)
        else
          let (written, s) := os.put 0 s key value
          (written.map (fun _ => Reply.ok), s)

def globMatch : Bytes -> Bytes -> Bool
  | [], [] => true
  | [], _ :: _ => false
  | p :: rest, [] => p = 42 && globMatch rest []
  | p :: rest, t :: text =>
      if p = 42 then globMatch rest (t :: text) || globMatch (p :: rest) text
      else if p = 63 then globMatch rest text
      else
        match rest with
        | q :: rest =>
            if p = 92 then q = t && globMatch rest text
            else p = t && globMatch (q :: rest) text
        | [] => p = t && globMatch [] text
termination_by pattern text => pattern.length + text.length

def run (os : Answers) (s : Store) (durableBy : Option (FileId × Nat))
    (name : String) (verb : Verb) (args : List Bytes) :
    Except Error Reply × Store × Option (FileId × Nat) :=
  let arity := (Except.ok (wrongArity name), s, durableBy)
  match verb, args with
  | Verb.ping, [] => (Except.ok (Reply.simple "PONG"), s, durableBy)
  | Verb.ping, [msg] => (Except.ok (Reply.bulk msg), s, durableBy)
  | Verb.ping, _ => arity
  | Verb.echo, [msg] => (Except.ok (Reply.bulk msg), s, durableBy)
  | Verb.echo, _ => arity
  | Verb.get, [key] => ((os.get 0 s key).map bulkOrNull, s, durableBy)
  | Verb.get, _ => arity
  | Verb.set, key :: value :: options =>
      let (reply, s) := set os s key value options
      (reply, s, mustReach s durableBy)
  | Verb.set, _ => arity
  | Verb.del, [] => arity
  | Verb.del, keys =>
      let (count, s) := deleteAll os 0 s keys
      (count.map (fun n => Reply.integer (Int64.ofNat n)), s,
        mustReach s durableBy)
  | Verb.exists, [] => arity
  | Verb.exists, keys =>
      (Except.ok (Reply.integer
        (Int64.ofNat (keys.filter s.containsKey).length)), s, durableBy)
  | Verb.mget, [] => arity
  | Verb.mget, keys =>
      ((collect (keys.mapIdx (fun turn key => os.get turn s key))).map
        (fun values => Reply.array (values.map bulkOrNull)), s, durableBy)
  | Verb.mset, [] => arity
  | Verb.mset, pairs =>
      if pairs.length % 2 ≠ 0 then arity
      else
        let (written, s) := putAll os 0 s pairs
        (written.map (fun _ => Reply.ok), s, mustReach s durableBy)
  | Verb.keys, [pattern] =>
      (Except.ok (Reply.array (((s.keys.filter (globMatch pattern)).mergeSort
        (fun a b => decide (a <= b))).map Reply.bulk)), s, durableBy)
  | Verb.keys, _ => arity
  | Verb.dbsize, [] =>
      (Except.ok (Reply.integer (Int64.ofNat s.keys.length)), s, durableBy)
  | Verb.dbsize, _ => arity
  | Verb.flush, _ =>
      let (count, s) := deleteAll os 0 s s.keys
      (count.map (fun _ => Reply.ok), s, mustReach s durableBy)
  | Verb.select, [db] =>
      (Except.ok (if db = [48] then Reply.ok
        else Reply.err "DB index is out of range"), s, durableBy)
  | Verb.select, _ => arity
  | Verb.command, _ => (Except.ok (Reply.array []), s, durableBy)
  | Verb.client, _ => (Except.ok Reply.ok, s, durableBy)
  | Verb.quit, _ => (Except.ok Reply.ok, s, durableBy)

def commandName (command : Bytes) : String :=
  Text.toAsciiUppercase (Text.fromUtf8Lossy command)

def dispatch (os : Answers) (s : Store) (durableBy : Option (FileId × Nat))
    (command : Bytes) (args : List Bytes) :
    Reply × Store × Option (FileId × Nat) :=
  let name := commandName command
  match verbs.lookup name with
  | none =>
      (Reply.err ("unknown command '" ++ Text.toAsciiLowercase name ++ "'"), s,
        durableBy)
  | some verb =>
      match run os s durableBy name verb args with
      | (Except.ok reply, s, durableBy) => (reply, s, durableBy)
      | (Except.error e, s, durableBy) =>
          (Reply.err e.display, s, durableBy)

end Server
end Minicask
