import Minicask.Raft.Log

/-!
# Messages

The requests and replies of `raft/message.rs`.  The sender is not in the message;
it travels beside it.
-/

namespace Minicask
namespace Raft

inductive Message where
  | preVote (term lastLogIndex lastLogTerm : Nat)
  | preVoteReply (term : Nat) (granted : Bool)
  | requestVote (term lastLogIndex lastLogTerm : Nat)
  | requestVoteReply (term : Nat) (granted : Bool)
  | appendEntries (term prevLogIndex prevLogTerm : Nat) (entries : List Entry)
      (leaderCommit seq : Nat)
  | installSnapshot (term lastIndex lastTerm offset : Nat) (data : Bytes)
      (done : Bool) (seq : Nat) (members : Option (List Member))
  | installSnapshotReply (term lastIndex nextOffset : Nat) (done : Bool)
      (seq : Nat)
  | appendEntriesReply (term : Nat) (success : Bool)
      (matchIndex conflictIndex : Nat) (conflictTerm : Option Nat) (seq : Nat)
  | readIndex (term id : Nat)
  | readIndexReply (term id : Nat) (index : Option Nat)
deriving Repr, DecidableEq

namespace Message

def term : Message -> Nat
  | preVote term _ _ => term
  | preVoteReply term _ => term
  | requestVote term _ _ => term
  | requestVoteReply term _ => term
  | appendEntries term _ _ _ _ _ => term
  | installSnapshot term _ _ _ _ _ _ _ => term
  | installSnapshotReply term _ _ _ _ => term
  | appendEntriesReply term _ _ _ _ _ => term
  | readIndex term _ => term
  | readIndexReply term _ _ => term

def isVoteRequest : Message -> Bool
  | preVote _ _ _ => true
  | requestVote _ _ _ => true
  | _ => false

def isRequest : Message -> Bool
  | preVote _ _ _ => true
  | requestVote _ _ _ => true
  | appendEntries _ _ _ _ _ _ => true
  | installSnapshot _ _ _ _ _ _ _ _ => true
  | readIndex _ _ => true
  | _ => false

def carriesBytes : Message -> Bool
  | appendEntries _ _ _ _ _ _ => true
  | installSnapshot _ _ _ _ _ _ _ _ => true
  | _ => false

end Message

structure Action where
  dest : NodeId
  message : Message
deriving Repr, DecidableEq

end Raft
end Minicask
