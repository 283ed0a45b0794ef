import Minicask.Crc
import Minicask.Reader
import Minicask.Raft.Members
import Minicask.Raft.Message

/-!
# Messages on a socket

The frames of `raft/wire.rs`: a magic number, the length of what follows it, the
checksum of the body, the sender, and the body.
-/

namespace Minicask
namespace Raft
namespace Wire

open Crc

def magic : Nat := 0x4d435246

def prefixLen : Nat := 20

/-- A frame beyond this is garbage or a hostile peer, not a message. -/
def maxFrame : Nat := 64 * 1024 * 1024

def requestVoteTag : UInt8 := 1
def requestVoteReplyTag : UInt8 := 2
def appendEntriesTag : UInt8 := 3
def appendEntriesReplyTag : UInt8 := 4
def preVoteTag : UInt8 := 5
def preVoteReplyTag : UInt8 := 6
def installSnapshotTag : UInt8 := 7
def installSnapshotReplyTag : UInt8 := 8
def readIndexTag : UInt8 := 9
def readIndexReplyTag : UInt8 := 10

def entryNoop : UInt8 := 0
def entryData : UInt8 := 1
def entryConfig : UInt8 := 2

/-!
# Writing
-/

def putU64 (values : List Nat) : Bytes :=
  values.flatMap (leBytes 8)

def putBool (flag : Bool) : Bytes :=
  [if flag then 1 else 0]

/-- A flag for whether there is a membership, then its length and bytes. -/
def putMembers : Option (List Member) -> Bytes
  | some members =>
      [1] ++ putU64 [(encodeMembers members).length] ++ encodeMembers members
  | none => [0]

/-- The number is there with the flag down as well. -/
def putConflictTerm : Option Nat -> Bytes
  | some t => [1] ++ putU64 [t]
  | none => [0] ++ putU64 [0]

def putEntry (e : Entry) : Bytes :=
  putU64 [e.term, e.index] ++
    match e.command with
    | Command.noop => [entryNoop] ++ putU64 [0]
    | Command.data bytes => [entryData] ++ putU64 [bytes.length] ++ bytes
    | Command.config members =>
        [entryConfig] ++ putU64 [(encodeMembers members).length] ++
          encodeMembers members

def encode : Message -> Bytes
  | Message.preVote term lastLogIndex lastLogTerm =>
      [preVoteTag] ++ putU64 [term, lastLogIndex, lastLogTerm]
  | Message.preVoteReply term granted =>
      [preVoteReplyTag] ++ putU64 [term] ++ putBool granted
  | Message.requestVote term lastLogIndex lastLogTerm =>
      [requestVoteTag] ++ putU64 [term, lastLogIndex, lastLogTerm]
  | Message.requestVoteReply term granted =>
      [requestVoteReplyTag] ++ putU64 [term] ++ putBool granted
  | Message.appendEntries term prevLogIndex prevLogTerm entries leaderCommit
      seq =>
      [appendEntriesTag] ++
        putU64 [term, prevLogIndex, prevLogTerm, leaderCommit, seq,
          entries.length] ++
        entries.flatMap putEntry
  | Message.installSnapshot term lastIndex lastTerm offset data done seq
      members =>
      [installSnapshotTag] ++
        putU64 [term, lastIndex, lastTerm, offset, seq, data.length] ++ data ++
        putBool done ++ putMembers members
  | Message.installSnapshotReply term lastIndex nextOffset done seq =>
      [installSnapshotReplyTag] ++ putU64 [term, lastIndex, nextOffset, seq] ++
        putBool done
  | Message.appendEntriesReply term success matchIndex conflictIndex conflictTerm
      seq =>
      [appendEntriesReplyTag] ++ putU64 [term, matchIndex, conflictIndex, seq] ++
        putBool success ++ putConflictTerm conflictTerm
  | Message.readIndex term id =>
      [readIndexTag] ++ putU64 [term, id]
  | Message.readIndexReply term id index =>
      [readIndexReplyTag] ++ putU64 [term, id] ++ putBool index.isSome ++
        putU64 [index.getD 0]

def frame (sender : NodeId) (message : Message) : Bytes :=
  let body := encode message
  leBytes 4 magic ++ leBytes 4 (body.length + 12) ++
    leBytes 4 (crc32Parts [body]).toNat ++ leBytes 8 sender ++ body

def writeMessage (w : Bytes) (sender : NodeId) (message : Message) : Bytes :=
  w ++ frame sender message

/-!
# Reading
-/

def bytes (len : Nat) : Reader UInt8 Bytes :=
  takeBytes len

def u8 : Reader UInt8 UInt8 := do
  let slice ← bytes 1
  return slice.headD 0

def bool : Reader UInt8 Bool := do
  let flag ← u8
  if flag = 0 then return false
  else if flag = 1 then return true
  else Reader.fail

def u64 : Reader UInt8 Nat := do
  let slice ← bytes 8
  return fromLe slice

def membersOf (len : Nat) : Reader UInt8 (List Member) := do
  let encoded ← bytes len
  Reader.ofOption (decodeMembers encoded)

/-- `some none` for no membership, and a failure for a malformed one. -/
def members : Reader UInt8 (Option (List Member)) := do
  if ← bool then
    let len ← u64
    let members ← membersOf len
    return some members
  else return none

/-- The length of an empty command is read and not looked at. -/
def command (kind : UInt8) (len : Nat) : Reader UInt8 Command :=
  if kind = entryNoop then return Command.noop
  else if kind = entryData then do
    let slice ← bytes len
    return Command.data slice
  else if kind = entryConfig then do
    let members ← membersOf len
    return Command.config members
  else Reader.fail

def entry : Reader UInt8 Entry := do
  let term ← u64
  let index ← u64
  let kind ← u8
  let len ← u64
  let command ← command kind len
  return { term := term, index := index, command := command }

def entries : Nat -> Reader UInt8 (List Entry)
  | 0 => return []
  | count + 1 => do
      let e ← entry
      let es ← entries count
      return e :: es

/-- A count beyond the bytes of the body is not believed. -/
def appendEntries (room : Nat) : Reader UInt8 Message := do
  let term ← u64
  let prevLogIndex ← u64
  let prevLogTerm ← u64
  let leaderCommit ← u64
  let seq ← u64
  let count ← u64
  if count > room then Reader.fail
  else
    let entries ← entries count
    return Message.appendEntries term prevLogIndex prevLogTerm entries
      leaderCommit seq

def installSnapshot : Reader UInt8 Message := do
  let term ← u64
  let lastIndex ← u64
  let lastTerm ← u64
  let offset ← u64
  let seq ← u64
  let len ← u64
  let data ← bytes len
  let done ← bool
  let members ← members
  return Message.installSnapshot term lastIndex lastTerm offset data done seq
    members

def payload (room : Nat) (tag : UInt8) : Reader UInt8 Message :=
  if tag = preVoteTag then do
    let term ← u64
    let lastLogIndex ← u64
    let lastLogTerm ← u64
    return Message.preVote term lastLogIndex lastLogTerm
  else if tag = preVoteReplyTag then do
    let term ← u64
    let granted ← bool
    return Message.preVoteReply term granted
  else if tag = requestVoteTag then do
    let term ← u64
    let lastLogIndex ← u64
    let lastLogTerm ← u64
    return Message.requestVote term lastLogIndex lastLogTerm
  else if tag = requestVoteReplyTag then do
    let term ← u64
    let granted ← bool
    return Message.requestVoteReply term granted
  else if tag = appendEntriesTag then appendEntries room
  else if tag = installSnapshotTag then installSnapshot
  else if tag = installSnapshotReplyTag then do
    let term ← u64
    let lastIndex ← u64
    let nextOffset ← u64
    let seq ← u64
    let done ← bool
    return Message.installSnapshotReply term lastIndex nextOffset done seq
  else if tag = appendEntriesReplyTag then do
    let term ← u64
    let matchIndex ← u64
    let conflictIndex ← u64
    let seq ← u64
    let success ← bool
    let hasTerm ← bool
    let conflict ← u64
    return Message.appendEntriesReply term success matchIndex conflictIndex
      (if hasTerm then some conflict else none) seq
  else if tag = readIndexTag then do
    let term ← u64
    let id ← u64
    return Message.readIndex term id
  else if tag = readIndexReplyTag then do
    let term ← u64
    let id ← u64
    let hasIndex ← bool
    let index ← u64
    return Message.readIndexReply term id
      (if hasIndex then some index else none)
  else Reader.fail

def message (room : Nat) : Reader UInt8 Message := do
  let tag ← u8
  payload room tag

/-- A body with anything left over is one this code does not understand. -/
def decode (body : Bytes) : Option Message :=
  (message body.length body).bind (fun (message, rest) =>
    if rest.isEmpty then some message else none)

inductive ReadError where
  | unexpectedEof
  | invalid (detail : String)
deriving Repr, DecidableEq

/-- What is made of a prefix and of the stream behind it. -/
def readFrame (first len crc : Nat) (sender : NodeId) (stream : Bytes) :
    Except ReadError (Option ((NodeId × Message) × Bytes)) :=
  if first ≠ magic then
    Except.error (ReadError.invalid "not a minicask raft stream")
  else if ¬ (12 <= len ∧ len <= maxFrame) then
    Except.error (ReadError.invalid "implausible frame length")
  else
    match takeBytes (len - 12) stream with
    | none => Except.error ReadError.unexpectedEof
    | some (body, rest) =>
        if (crc32Parts [body]).toNat ≠ crc then
          Except.error (ReadError.invalid "checksum mismatch on a raft message")
        else
          match decode body with
          | none => Except.error (ReadError.invalid "malformed raft message")
          | some message => Except.ok (some ((sender, message), rest))

/-- Read one message, and what is left of the stream behind it.  `none` at an end of
the stream before a whole prefix. -/
def readMessage (stream : Bytes) :
    Except ReadError (Option ((NodeId × Message) × Bytes)) :=
  if stream.length < prefixLen then Except.ok none
  else
    readFrame (fromLe (slice stream 0 4)) (fromLe (slice stream 4 8))
      (fromLe (slice stream 8 12)) (fromLe (slice stream 12 20))
      (stream.drop prefixLen)

theorem readFrame_some {first len crc : Nat} {sender : NodeId} {stream : Bytes}
    {pair : NodeId × Message} {rest : Bytes}
    (h : readFrame first len crc sender stream = Except.ok (some (pair, rest))) :
    first = magic ∧ 12 <= len ∧ len <= maxFrame ∧ pair.1 = sender ∧
      exists body, stream = body ++ rest ∧ body.length = len - 12 ∧
        (crc32Parts [body]).toNat = crc ∧ decode body = some pair.2 := by
  unfold readFrame at h
  split at h
  case isTrue => cases h
  case isFalse hmagic =>
      split at h
      case isTrue => cases h
      case isFalse hlen =>
          obtain ⟨hlow, hhigh⟩ := not_not.mp hlen
          cases htake : takeBytes (len - 12) stream with
          | none =>
              rw [htake] at h
              cases h
          | some taken =>
              obtain ⟨body, left⟩ := taken
              obtain ⟨hstream, hbody⟩ := takeBytes_some htake
              rw [htake] at h
              dsimp only at h
              split at h
              case isTrue => cases h
              case isFalse hcrc =>
                  cases hdecode : decode body with
                  | none =>
                      rw [hdecode] at h
                      cases h
                  | some message =>
                      rw [hdecode] at h
                      injection h with h
                      obtain ⟨rfl, rfl⟩ := Prod.mk.inj (Option.some.inj h)
                      exact ⟨not_not.mp hmagic, hlow, hhigh, rfl, body, hstream,
                        hbody, not_not.mp hcrc, hdecode⟩

theorem readMessage_shorter {stream : Bytes} {pair : NodeId × Message}
    {rest : Bytes} (h : readMessage stream = Except.ok (some (pair, rest))) :
    rest.length < stream.length := by
  unfold readMessage at h
  split at h
  case isTrue => cases h
  case isFalse hlong =>
      obtain ⟨_, _, _, _, body, hstream, _⟩ := readFrame_some h
      have hlength := congrArg List.length hstream
      rw [List.length_drop, List.length_append] at hlength
      unfold prefixLen at hlong hlength
      omega

/-- The messages a connection delivers, and the error that ended it. -/
def readFromPeer (stream : Bytes) : List (NodeId × Message) × Option ReadError :=
  match _h : readMessage stream with
  | Except.error e => ([], some e)
  | Except.ok none => ([], none)
  | Except.ok (some (pair, rest)) =>
      let (pairs, e) := readFromPeer rest
      (pair :: pairs, e)
termination_by stream.length
decreasing_by exact readMessage_shorter _h

end Wire
end Raft
end Minicask
