import Mathlib.Data.Finset.Card
import Mathlib.Data.List.Sort
import Minicask.Raft.Message

/-!
# The consensus state machine

`raft/node.rs`: a node has no clock and no sockets, so every operation is a
function of its state and its input.  An operation that wants messages sent
returns them beside the new state, in the order the source pushes them.
-/

namespace Minicask
namespace Raft

inductive Role where
  | follower
  | preCandidate
  | candidate
  | leader
deriving Repr, DecidableEq

structure Config where
  heartbeatTicks : Nat := 2
  electionTimeoutMin : Nat := 10
  electionTimeoutMax : Nat := 20
  maxAppendBytes : Nat := 1024 * 1024
  maxEntryBytes : Nat := 16 * 1024 * 1024
deriving Repr, DecidableEq

inductive ProposeError where
  | notLeader (leader : Option NodeId)
  | tooLarge (len max : Nat)
  | membership (why : String)
deriving Repr, DecidableEq

inductive ReadRequest where
  | localRead (term seq index : Nat)
  | forwarded (id : Nat) (leader : NodeId)
  | refused
deriving Repr, DecidableEq

inductive ReadState where
  | pending
  | ready (index : Nat)
  | failed
deriving Repr, DecidableEq

/-- What a follower has heard back about a read it forwarded. -/
inductive Answer where
  | waiting
  | ready (index : Nat)
  | refused
deriving Repr, DecidableEq

structure RemoteRead where
  sender : NodeId
  id : Nat
  seq : Nat
  index : Nat
deriving Repr, DecidableEq

/-- The xorshift generator behind the election timeouts. -/
structure Rng where
  state : UInt64
deriving Repr, DecidableEq

namespace Rng

def new (seed : NodeId) : Rng :=
  { state := (UInt64.ofNat seed * 6364136223846793005 +
      1442695040888963407) ||| 1 }

def next (rng : Rng) : UInt64 × Rng :=
  let x := rng.state
  let x := x ^^^ (x <<< 13)
  let x := x ^^^ (x >>> 7)
  let x := x ^^^ (x <<< 17)
  (x, { state := x })

end Rng

def randomTimeout (rng : Rng) (config : Config) : Nat × Rng :=
  let span := config.electionTimeoutMax - config.electionTimeoutMin
  if span = 0 then (config.electionTimeoutMin, rng)
  else
    let (x, rng) := rng.next
    (config.electionTimeoutMin + x.toNat % (span + 1), rng)

abbrev Table (value : Type) := Nat -> Option value

namespace Table

def empty : Table value := fun _ => none

def insert (t : Table value) (key : Nat) (x : value) : Table value :=
  fun k => if k = key then some x else t k

def remove (t : Table value) (key : Nat) : Table value :=
  fun k => if k = key then none else t k

def orInsert (t : Table value) (key : Nat) (x : value) : Table value :=
  match t key with
  | some _ => t
  | none => t.insert key x

def retain (t : Table value) (keep : Nat -> Bool) : Table value :=
  fun k => if keep k then t k else none

end Table

structure Node where
  id : NodeId
  bootstrap : List Member
  members : List Member
  membershipIndex : Nat
  voters : List NodeId
  peers : List NodeId
  replicas : List NodeId
  config : Config
  storage : MemStorage
  role : Role
  leaderId : Option NodeId
  commitIndex : Nat
  lastApplied : Nat
  votes : Finset NodeId
  leaderStart : Nat
  active : Finset NodeId
  snapshotProgress : Table (Nat × Nat)
  incoming : Option (NodeId × MemSnapshot)
  nextIndex : Table Nat
  matchIndex : Table Nat
  seq : Nat
  acked : Table Nat
  autoPromote : Bool
  remoteReads : List RemoteRead
  forwarded : Table Answer
  nextRead : Nat
  electionElapsed : Nat
  heartbeatElapsed : Nat
  electionTimeout : Nat
  rng : Rng

namespace Node

def term (n : Node) : Nat :=
  n.storage.hardState.term

def isVoter (n : Node) : Bool :=
  n.voters.contains n.id

def lastIndex (n : Node) : Nat :=
  n.storage.lastIndex

def readyToServe (n : Node) : Bool :=
  n.role == Role.leader && n.commitIndex >= n.leaderStart

def quorum (n : Node) : Nat :=
  n.voters.length / 2 + 1

def hasQuorum (n : Node) (ids : Finset NodeId) : Bool :=
  !n.voters.isEmpty && n.quorum <= (n.voters.filter (· ∈ ids)).length

def resetElectionTimer (n : Node) : Node :=
  let (timeout, rng) := randomTimeout n.rng n.config
  { n with electionElapsed := 0, electionTimeout := timeout, rng := rng }

/-!
# Membership
-/

def sortDedup (ids : List NodeId) : List NodeId :=
  (ids.insertionSort (· <= ·)).dedup

/-- The newest membership entry among some indices, with its index. -/
def newestConfig (s : MemStorage) (range : List Nat)
    (start : List Member × Nat) : List Member × Nat :=
  range.foldl (fun current i =>
    match s.entry i with
    | some { command := Command.config members, .. } => (members, i)
    | _ => current) start

def membersAt (n : Node) (index : Nat) : List Member :=
  (newestConfig n.storage
    (MemStorage.indices n.storage.firstIndex (min index n.storage.lastIndex))
    (n.storage.snapshotMembers.getD n.bootstrap, 0)).1

/-- The membership the log says is in force, and the index that set it. -/
def membershipInForce (n : Node) : List Member × Nat :=
  newestConfig n.storage
    (MemStorage.indices n.storage.firstIndex n.storage.lastIndex)
    (match n.storage.snapshotMembers with
      | some members => (members, n.storage.snapshotMeta.index)
      | none => (n.bootstrap, 0))

def votersOf (members : List Member) : List NodeId :=
  sortDedup ((members.filter (fun m => !m.learner)).map Member.id)

/-- Every other member, and while the membership is uncommitted whoever it
drops. -/
def replicasOf (n : Node) (members : List Member) (since : Nat) : List NodeId :=
  let others := (members.map Member.id).filter (fun id => id != n.id)
  let departing :=
    if since > n.commitIndex then
      ((n.membersAt (since - 1)).map Member.id).filter (fun id =>
        id != n.id && !others.contains id)
    else []
  sortDedup (others ++ departing)

def reloadMembership (n : Node) : Node :=
  let (members, since) := n.membershipInForce
  let voters := votersOf members
  let replicas := n.replicasOf members since
  let n := { n with
    peers := voters.filter (fun v => v != n.id)
    voters := voters
    replicas := replicas
    members := members
    membershipIndex := since }
  if n.role = Role.leader then
    let next := n.storage.lastIndex + 1
    let nextIndex := n.replicas.foldl (fun t p => t.orInsert p next) n.nextIndex
    let matchIndex := n.replicas.foldl (fun t p => t.orInsert p 0) n.matchIndex
    { n with
      nextIndex := nextIndex.retain n.replicas.contains
      matchIndex := matchIndex.retain n.replicas.contains
      snapshotProgress := n.snapshotProgress.retain n.replicas.contains }
  else n

def withMembers (id : NodeId) (bootstrap : List Member) (config : Config)
    (storage : MemStorage) : Node :=
  let snapshot := storage.snapshotMeta.index
  let (electionTimeout, rng) := randomTimeout (Rng.new id) config
  reloadMembership
    { id := id
      bootstrap := bootstrap
      members := []
      membershipIndex := 0
      voters := []
      peers := []
      replicas := []
      config := config
      storage := storage
      role := Role.follower
      leaderId := none
      commitIndex := snapshot
      lastApplied := snapshot
      votes := ∅
      leaderStart := 0
      active := ∅
      snapshotProgress := Table.empty
      incoming := none
      nextIndex := Table.empty
      matchIndex := Table.empty
      seq := 0
      acked := Table.empty
      autoPromote := true
      remoteReads := []
      forwarded := Table.empty
      nextRead := 0
      electionElapsed := 0
      heartbeatElapsed := 0
      electionTimeout := electionTimeout
      rng := rng }

/-!
# Replication, the leader's side
-/

def nextFor (n : Node) (peer : NodeId) : Nat :=
  (n.nextIndex peer).getD (n.storage.lastIndex + 1)

/-- What to send a peer next: entries, or a piece of the snapshot. -/
def appendMessageFor (n : Node) (peer : NodeId) : Action :=
  let next := n.nextFor peer
  let snapshot := n.storage.snapshotMeta
  if next <= snapshot.index then
    let offset :=
      match n.snapshotProgress peer with
      | some (index, offset) => if index = snapshot.index then offset else 0
      | none => 0
    let data := n.storage.readSnapshot offset (max n.config.maxAppendBytes 1)
    let done := offset + data.length >= n.storage.snapshotLen
    { dest := peer
      message := Message.installSnapshot n.term snapshot.index snapshot.term
        offset data done n.seq n.storage.snapshotMembers }
  else
    { dest := peer
      message := Message.appendEntries n.term (next - 1)
        ((n.storage.termAt (next - 1)).getD 0)
        (n.storage.entriesWithin next n.config.maxAppendBytes)
        n.commitIndex n.seq }

def broadcastAppend (n : Node) : Node × List Action :=
  let departing := n.replicas.any (fun r =>
    !n.members.any (fun m => m.id == r))
  let n :=
    if departing && n.membershipIndex <= n.commitIndex then n.reloadMembership
    else n
  (n, n.replicas.map n.appendMessageFor)

def voterIndex (n : Node) (v : NodeId) : Nat :=
  if v = n.id then n.storage.lastIndex else (n.matchIndex v).getD 0

def majorityIndex (n : Node) : Nat :=
  let sorted := (n.voters.map n.voterIndex).insertionSort (· >= ·)
  (sorted[n.quorum - 1]?).getD 0

def maybeCommit (n : Node) : Node :=
  if n.voters.isEmpty then n
  else if n.majorityIndex > n.commitIndex ∧
      n.storage.termAt n.majorityIndex = some n.term then
    { n with commitIndex := n.majorityIndex }
  else n

def appendLocal (n : Node) (command : Command) : Node × Nat :=
  let index := n.storage.lastIndex + 1
  let n := { n with
    storage := n.storage.append
      [{ term := n.term, index := index, command := command }] }
  let n := if command.isConfig then n.reloadMembership else n
  (n.maybeCommit, index)

/-!
# Elections
-/

def becomeFollower (n : Node) (term : Nat) (leader : Option NodeId) : Node :=
  let n' := { n with
    role := Role.follower
    leaderId := leader
    votes := ∅
    active := ∅
    remoteReads := []
    storage :=
      if term = n.term then n.storage
      else n.storage.saveHardState { term := term, votedFor := none } }
  n'.resetElectionTimer

def becomeLeader (n : Node) : Node × List Action :=
  let next := n.storage.lastIndex + 1
  let n := { n with
    role := Role.leader
    leaderId := some n.id
    heartbeatElapsed := 0
    electionElapsed := 0
    active := ∅
    snapshotProgress := Table.empty
    acked := Table.empty
    remoteReads := []
    nextIndex := n.replicas.foldl (fun t p => t.insert p next) Table.empty
    matchIndex := n.replicas.foldl (fun t p => t.insert p 0) Table.empty }
  let (n, start) := n.appendLocal Command.noop
  { n with leaderStart := start }.broadcastAppend

def becomeCandidate (n : Node) : Node × List Action :=
  let term := n.term + 1
  let n := { n with
    role := Role.candidate
    leaderId := none
    remoteReads := []
    storage := n.storage.saveHardState
      { term := term, votedFor := some n.id }
    votes := {n.id} }
  let n := n.resetElectionTimer
  if n.hasQuorum n.votes then n.becomeLeader
  else
    (n, n.peers.map (fun peer =>
      { dest := peer
        message := Message.requestVote term n.storage.lastIndex
          n.storage.lastTerm }))

def becomePreCandidate (n : Node) : Node × List Action :=
  let n := { n with
    role := Role.preCandidate
    leaderId := none
    remoteReads := []
    votes := {n.id} }
  let n := n.resetElectionTimer
  if n.hasQuorum n.votes then n.becomeCandidate
  else
    (n, n.peers.map (fun peer =>
      { dest := peer
        message := Message.preVote (n.term + 1) n.storage.lastIndex
          n.storage.lastTerm }))

def handlePreVote (n : Node) (sender : NodeId)
    (proposedTerm lastLogIndex lastLogTerm : Nat) : List Action :=
  let granted := proposedTerm > n.term &&
    n.storage.isUpToDate lastLogIndex lastLogTerm
  [{ dest := sender
     message := Message.preVoteReply
      (if granted then proposedTerm else n.term) granted }]

def handlePreVoteReply (n : Node) (sender : NodeId) (term : Nat)
    (granted : Bool) : Node × List Action :=
  if granted then
    if n.role = Role.preCandidate ∧ term = n.term + 1 then
      let n := { n with votes := insert sender n.votes }
      if n.hasQuorum n.votes then n.becomeCandidate else (n, [])
    else (n, [])
  else if term > n.term then (n.becomeFollower term none, [])
  else (n, [])

def handleRequestVote (n : Node) (sender : NodeId)
    (lastLogIndex lastLogTerm : Nat) : Node × List Action :=
  let state := n.storage.hardState
  let freeToVote :=
    match state.votedFor with
    | none => true
    | some v => v == sender
  let granted := freeToVote && n.storage.isUpToDate lastLogIndex lastLogTerm
  let n :=
    if granted then
      resetElectionTimer { n with
        storage := n.storage.saveHardState
          { term := state.term, votedFor := some sender } }
    else n
  (n, [{ dest := sender, message := Message.requestVoteReply n.term granted }])

def handleVoteReply (n : Node) (sender : NodeId) (term : Nat)
    (granted : Bool) : Node × List Action :=
  if n.role ≠ Role.candidate ∨ term ≠ n.term then (n, [])
  else if granted then
    let n := { n with votes := insert sender n.votes }
    if n.hasQuorum n.votes then n.becomeLeader else (n, [])
  else (n, [])

/-!
# Replication, the follower's side
-/

/-- How many leading entries the log already holds with the same term, and the
index of the first that it holds with another. -/
def matching (s : MemStorage) (index : Nat) : List Entry -> Nat × Option Nat
  | [] => (0, none)
  | e :: rest =>
      match s.termAt index with
      | some t =>
          if t = e.term then
            let (held, conflict) := matching s (index + 1) rest
            (held + 1, conflict)
          else (0, some index)
      | none => (0, none)

/-- The entries of an accepted message go into the log, over whatever conflicts
with them. -/
def acceptEntries (n : Node) (prevLogIndex : Nat) (entries : List Entry) :
    Node :=
  let (appendFrom, conflict) := matching n.storage (prevLogIndex + 1) entries
  let storage :=
    match conflict with
    | some index => n.storage.truncateFrom index
    | none => n.storage
  let fresh := entries.drop appendFrom
  let n := { n with storage := storage.append fresh }
  if conflict.isSome || fresh.any (fun e => e.command.isConfig) then
    n.reloadMembership
  else n

/-- The part of a message that lies past the follower's snapshot, or `none` if
nothing of it does. -/
def pastSnapshot (s : MemStorage) (prevLogIndex prevLogTerm : Nat)
    (entries : List Entry) : Option (Nat × Nat × List Entry) :=
  let snapshot := s.snapshotMeta
  if prevLogIndex < snapshot.index then
    let skip := snapshot.index - prevLogIndex
    if skip >= entries.length then none
    else some (snapshot.index, snapshot.term, entries.drop skip)
  else some (prevLogIndex, prevLogTerm, entries)

def handleAppendEntries (n : Node) (sender : NodeId)
    (prevLogIndex prevLogTerm : Nat) (entries : List Entry)
    (leaderCommit seq : Nat) : Node × List Action :=
  let n := resetElectionTimer { n with
    role := Role.follower
    leaderId := some sender }
  let term := n.term
  let reply := fun (success : Bool) (matchIndex conflictIndex : Nat)
      (conflictTerm : Option Nat) =>
    { dest := sender
      message := Message.appendEntriesReply term success matchIndex
        conflictIndex conflictTerm seq : Action }
  match pastSnapshot n.storage prevLogIndex prevLogTerm entries with
  | none => (n, [reply true n.storage.snapshotMeta.index 0 none])
  | some (prevLogIndex, prevLogTerm, entries) =>
      let localTerm := n.storage.termAt prevLogIndex
      if localTerm ≠ some prevLogTerm then
        match localTerm with
        | none => (n, [reply false 0 (n.storage.lastIndex + 1) none])
        | some t =>
            (n, [reply false 0 (n.storage.firstIndexOfTerm t) (some t)])
      else
        let n := n.acceptEntries prevLogIndex entries
        let lastCovered := prevLogIndex + entries.length
        let n :=
          if leaderCommit > n.commitIndex then
            { n with commitIndex := min leaderCommit lastCovered }
          else n
        (n, [reply true lastCovered 0 none])

/-!
# Reads
-/

def roundConfirmed (n : Node) (seq : Nat) : Bool :=
  let answered := (n.peers.filter (fun p =>
    match n.acked p with
    | some a => a >= seq
    | none => false)).toFinset
  n.hasQuorum (insert n.id answered)

def openReadRound (n : Node) : Node × List Action × Nat × Nat :=
  let n := { n with seq := n.seq + 1 }
  let index := max n.commitIndex n.leaderStart
  let snapshot := n.storage.snapshotMeta.index
  let actions := (n.replicas.filter (fun peer =>
    !(n.nextFor peer <= snapshot))).map (fun peer =>
      { dest := peer
        message := Message.appendEntries n.term (n.nextFor peer - 1)
          ((n.storage.termAt (n.nextFor peer - 1)).getD 0) []
          n.commitIndex n.seq })
  (n, actions, n.seq, index)

def handleReadIndex (n : Node) (sender : NodeId) (id : Nat) :
    Node × List Action :=
  if n.role ≠ Role.leader then
    (n, [{ dest := sender, message := Message.readIndexReply n.term id none }])
  else
    let (n, actions, seq, index) := n.openReadRound
    ({ n with remoteReads := n.remoteReads ++
        [{ sender := sender, id := id, seq := seq, index := index }] }, actions)

/-- Answer every follower whose read's round a majority has now seen. -/
def releaseReads (n : Node) : Node × List Action :=
  let (confirmed, waiting) :=
    n.remoteReads.partition (fun read => n.roundConfirmed read.seq)
  ({ n with remoteReads := waiting }, confirmed.map (fun read =>
    { dest := read.sender
      message := Message.readIndexReply n.term read.id (some read.index) }))

/-- A reply of either kind in this leader's term answers a round.  `none` is a
reply that belongs to another term or reached a node no longer leading. -/
def heardRound (n : Node) (sender : NodeId) (term seq : Nat) :
    Option (Node × List Action) :=
  if n.role ≠ Role.leader ∨ term ≠ n.term then none
  else
    let acked := (n.acked sender).getD 0
    let n := { n with
      active := insert sender n.active
      acked := n.acked.orInsert sender 0 }
    if seq > acked then
      some (releaseReads { n with acked := n.acked.insert sender seq })
    else some (n, [])

def readIndex (n : Node) : Node × ReadRequest × List Action :=
  if n.role = Role.leader then
    let (n, actions, seq, index) := n.openReadRound
    (n, ReadRequest.localRead n.term seq index, actions)
  else
    match n.leaderId with
    | some leader =>
        let id := n.nextRead + 1
        ({ n with
            nextRead := id
            forwarded := n.forwarded.insert id Answer.waiting },
          ReadRequest.forwarded id leader,
          [{ dest := leader, message := Message.readIndex n.term id }])
    | none => (n, ReadRequest.refused, [])

def readState (n : Node) : ReadRequest -> ReadState
  | ReadRequest.localRead term seq index =>
      if n.role ≠ Role.leader ∨ n.term ≠ term then ReadState.failed
      else if n.roundConfirmed seq then ReadState.ready index
      else ReadState.pending
  | ReadRequest.forwarded id leader =>
      match n.forwarded id with
      | some (Answer.ready index) => ReadState.ready index
      | some Answer.waiting =>
          if n.leaderId = some leader then ReadState.pending
          else ReadState.failed
      | _ => ReadState.failed
  | ReadRequest.refused => ReadState.failed

def forgetRead (n : Node) : ReadRequest -> Node
  | ReadRequest.forwarded id _ => { n with forwarded := n.forwarded.remove id }
  | _ => n

def handleReadIndexReply (n : Node) (id : Nat) (index : Option Nat) : Node :=
  match n.forwarded id with
  | some Answer.waiting =>
      let answer :=
        match index with
        | some index => Answer.ready index
        | none => Answer.refused
      { n with forwarded := n.forwarded.insert id answer }
  | _ => n

/-!
# Replies to the leader
-/

def handleAppendReply (n : Node) (sender : NodeId) (success : Bool)
    (matchIndex conflictIndex : Nat) (conflictTerm : Option Nat) :
    Node × List Action :=
  if success then
    if matchIndex > (n.matchIndex sender).getD 0 then
      let n := { n with
        matchIndex := n.matchIndex.insert sender matchIndex
        nextIndex := n.nextIndex.insert sender (matchIndex + 1) }
      let n := n.maybeCommit
      (n, if matchIndex < n.storage.lastIndex then [n.appendMessageFor sender]
        else [])
    else (n, [])
  else
    let next :=
      match conflictTerm with
      | some t =>
          match n.storage.lastIndexOfTerm t with
          | some i => i + 1
          | none => conflictIndex
      | none => conflictIndex
    let n := { n with nextIndex := n.nextIndex.insert sender (max next 1) }
    (n, [n.appendMessageFor sender])

def handleSnapshotReply (n : Node) (sender : NodeId)
    (lastIndex nextOffset : Nat) (done : Bool) : Node × List Action :=
  let current := n.storage.snapshotMeta.index
  if done then
    let n := { n with snapshotProgress := n.snapshotProgress.remove sender }
    let n :=
      if lastIndex > (n.matchIndex sender).getD 0 then
        maybeCommit { n with
          matchIndex := n.matchIndex.insert sender lastIndex
          nextIndex := n.nextIndex.insert sender (lastIndex + 1) }
      else n
    (n, if (n.nextIndex sender).getD 0 <= n.storage.lastIndex then
        [n.appendMessageFor sender]
      else [])
  else
    let offset := if lastIndex = current then nextOffset else 0
    let n := { n with
      snapshotProgress := n.snapshotProgress.insert sender (current, offset) }
    (n, [n.appendMessageFor sender])

/-!
# Snapshots, the follower's side
-/

def continuing (n : Node) (sender : NodeId) (about : SnapshotMeta) :
    Option MemSnapshot :=
  match n.incoming with
  | some (origin, sink) =>
      if origin = sender ∧ sink.about = about then some sink else none
  | none => none

def installReceived (n : Node) (sink : MemSnapshot) (about : SnapshotMeta) :
    Node :=
  let n := reloadMembership { n with
    incoming := none
    storage := n.storage.installSnapshot sink }
  { n with
    commitIndex := max n.commitIndex about.index
    lastApplied := max n.lastApplied about.index }

def handleInstallSnapshot (n : Node) (sender : NodeId) (about : SnapshotMeta)
    (offset : Nat) (data : Bytes) (done : Bool) (seq : Nat)
    (members : Option (List Member)) : Node × List Action :=
  let n := resetElectionTimer { n with
    role := Role.follower
    leaderId := some sender }
  let term := n.term
  let reply := fun (nextOffset : Nat) (done : Bool) =>
    { dest := sender
      message := Message.installSnapshotReply term about.index nextOffset done
        seq : Action }
  if about.index <= n.commitIndex then
    ({ n with incoming := none }, [reply 0 true])
  else if (n.continuing sender about).isNone && offset != 0 then
    (n, [reply 0 false])
  else
    let sink := (n.continuing sender about).getD
      (MemStorage.newSnapshot about members)
    if offset ≠ sink.written then
      ({ n with incoming := some (sender, sink) }, [reply sink.written false])
    else
      let sink := sink.writeAll data
      if !done then
        ({ n with incoming := some (sender, sink) }, [reply sink.written false])
      else (n.installReceived sink about, [reply sink.written true])

/-!
# Messages
-/

/-- Say no to a canvasser without adopting its term or its premise. -/
def refuseVote (n : Node) (sender : NodeId) (message : Message) : Action :=
  { dest := sender
    message :=
      match message with
      | Message.preVote _ _ _ => Message.preVoteReply n.term false
      | _ => Message.requestVoteReply n.term false }

def replyStale (n : Node) (sender : NodeId) (message : Message) : Action :=
  { dest := sender
    message :=
      match message with
      | Message.preVote _ _ _ => Message.preVoteReply n.term false
      | Message.requestVote _ _ _ => Message.requestVoteReply n.term false
      | Message.installSnapshot _ lastIndex _ _ _ _ _ _ =>
          Message.installSnapshotReply n.term lastIndex 0 false 0
      | Message.readIndex _ id => Message.readIndexReply n.term id none
      | _ => Message.appendEntriesReply n.term false 0 0 none 0 }

/-- What a message that is not pre-vote traffic does once its term has been
dealt with. -/
def handle (n : Node) (sender : NodeId) : Message -> Node × List Action
  | Message.preVote _ _ _ => (n, [])
  | Message.preVoteReply _ _ => (n, [])
  | Message.requestVote _ lastLogIndex lastLogTerm =>
      n.handleRequestVote sender lastLogIndex lastLogTerm
  | Message.requestVoteReply term granted =>
      n.handleVoteReply sender term granted
  | Message.appendEntries _ prevLogIndex prevLogTerm entries leaderCommit seq =>
      n.handleAppendEntries sender prevLogIndex prevLogTerm entries
        leaderCommit seq
  | Message.appendEntriesReply term success matchIndex conflictIndex
      conflictTerm seq =>
      match n.heardRound sender term seq with
      | none => (n, [])
      | some (n, released) =>
          let (n, actions) := n.handleAppendReply sender success matchIndex
            conflictIndex conflictTerm
          (n, released ++ actions)
  | Message.installSnapshot _ lastIndex lastTerm offset data done seq members =>
      n.handleInstallSnapshot sender { index := lastIndex, term := lastTerm }
        offset data done seq members
  | Message.installSnapshotReply term lastIndex nextOffset done seq =>
      match n.heardRound sender term seq with
      | none => (n, [])
      | some (n, released) =>
          let (n, actions) := n.handleSnapshotReply sender lastIndex nextOffset
            done
          (n, released ++ actions)
  | Message.readIndex _ id => n.handleReadIndex sender id
  | Message.readIndexReply _ id index => (n.handleReadIndexReply id index, [])

def step (n : Node) (sender : NodeId) (message : Message) :
    Node × List Action :=
  if message.isVoteRequest && n.leaderId.isSome &&
      n.electionElapsed < n.electionTimeout then
    (n, [n.refuseVote sender message])
  else
    match message with
    | Message.preVote term lastLogIndex lastLogTerm =>
        (n, n.handlePreVote sender term lastLogIndex lastLogTerm)
    | Message.preVoteReply term granted =>
        n.handlePreVoteReply sender term granted
    | message =>
        if message.term > n.term then
          (n.becomeFollower message.term none).handle sender message
        else if message.term < n.term && message.isRequest then
          (n, [n.replyStale sender message])
        else n.handle sender message

/-!
# Proposals
-/

def propose (n : Node) (command : Bytes) :
    Except ProposeError (Node × Nat × List Action) :=
  if n.role ≠ Role.leader then
    Except.error (ProposeError.notLeader n.leaderId)
  else
    let len := command.length + entryOverhead
    if len > n.config.maxEntryBytes then
      Except.error (ProposeError.tooLarge len n.config.maxEntryBytes)
    else
      let (n, index) := n.appendLocal (Command.data command)
      let (n, actions) := n.broadcastAppend
      Except.ok (n, index, actions)

/-- The loop of `proposeBatch`: the entries to append and the answer to each
command, from the next free index on. -/
def batchEntries (term maxEntryBytes : Nat) : Nat -> List Bytes ->
    List Entry × List (Except ProposeError Nat)
  | _, [] => ([], [])
  | next, command :: rest =>
      let len := command.length + entryOverhead
      if len > maxEntryBytes then
        let (entries, answers) := batchEntries term maxEntryBytes next rest
        (entries,
          Except.error (ProposeError.tooLarge len maxEntryBytes) :: answers)
      else
        let (entries, answers) := batchEntries term maxEntryBytes (next + 1) rest
        ({ term := term, index := next, command := Command.data command } ::
            entries,
          Except.ok next :: answers)

def proposeBatch (n : Node) (commands : List Bytes) :
    Except ProposeError
      (Node × List (Except ProposeError Nat) × List Action) :=
  if n.role ≠ Role.leader then
    Except.error (ProposeError.notLeader n.leaderId)
  else
    let (entries, answers) := batchEntries n.term n.config.maxEntryBytes
      (n.storage.lastIndex + 1) commands
    if entries.isEmpty then Except.ok (n, answers, [])
    else
      let n := maybeCommit { n with storage := n.storage.append entries }
      let (n, actions) := n.broadcastAppend
      Except.ok (n, answers, actions)

def proposeMembership (n : Node) (members : List Member) :
    Except ProposeError (Node × Nat × List Action) :=
  if n.role ≠ Role.leader then
    Except.error (ProposeError.notLeader n.leaderId)
  else if !n.readyToServe then
    Except.error (ProposeError.membership
      "this leader has not yet committed an entry of its own term")
  else if n.membershipIndex > n.commitIndex then
    Except.error (ProposeError.membership
      "the last membership change has not committed yet")
  else if (members.map Member.id).toFinset.card ≠ members.length then
    Except.error (ProposeError.membership "a member is listed twice")
  else
    let old := n.voters.toFinset
    let new := ((members.filter (fun m => !m.learner)).map Member.id).toFinset
    if new = ∅ then
      Except.error (ProposeError.membership "a cluster cannot have no voters")
    else if (old \ new ∪ new \ old).card > 1 then
      Except.error (ProposeError.membership
        "only one member can be added or removed at a time")
    else
      let (n, index) := n.appendLocal (Command.config members)
      let (n, actions) := n.broadcastAppend
      Except.ok (n, index, actions)

/-- Promote the first learner that has caught up, if nothing else is changing. -/
def maybePromote (n : Node) : Node × List Action :=
  if !n.autoPromote || !n.readyToServe || n.membershipIndex > n.commitIndex then
    (n, [])
  else
    match n.members.findIdx? (fun m =>
      m.learner && (n.matchIndex m.id).getD 0 >= n.commitIndex) with
    | none => (n, [])
    | some position =>
        let members := n.members.modify position (fun m =>
          { m with learner := false })
        match n.proposeMembership members with
        | Except.ok (n, _, actions) => (n, actions)
        | Except.error _ => (n, [])

/-!
# Time, elections by hand, snapshots and applied entries
-/

/-- A leader that cannot account for a majority within one election timeout
stands itself down. -/
def checkQuorum (n : Node) : Node :=
  let n := { n with electionElapsed := n.electionElapsed + 1 }
  if n.electionElapsed >= n.electionTimeout then
    let reachable := n.hasQuorum (insert n.id n.active)
    let n := { n with active := ∅ }
    if !reachable then n.becomeFollower n.term none
    else { n with electionElapsed := 0 }
  else n

def tick (n : Node) : Node × List Action :=
  if n.role = Role.leader then
    if !n.isVoter && n.commitIndex >= n.membershipIndex then
      (n.becomeFollower n.term none, [])
    else
      let n := { n with heartbeatElapsed := n.heartbeatElapsed + 1 }
      let (n, beats) :=
        if n.heartbeatElapsed >= n.config.heartbeatTicks then
          { n with heartbeatElapsed := 0 }.broadcastAppend
        else (n, [])
      let (n, promotion) := n.maybePromote
      (n.checkQuorum, beats ++ promotion)
  else
    let n := { n with electionElapsed := n.electionElapsed + 1 }
    if n.electionElapsed >= n.electionTimeout then
      if n.isVoter then n.becomePreCandidate
      else (resetElectionTimer { n with role := Role.follower }, [])
    else (n, [])

def campaign (n : Node) : Node × List Action :=
  if n.isVoter then n.becomeCandidate else (n, [])

def preVote (n : Node) : Node × List Action :=
  if n.isVoter then n.becomePreCandidate else (n, [])

/-- The first half of a compaction: a sink for the state as of an applied
index. -/
def beginCompaction (n : Node) (index : Nat) : Option MemSnapshot :=
  if index <= n.storage.snapshotMeta.index || index > n.lastApplied then none
  else
    (n.storage.termAt index).map (fun term =>
      MemStorage.newSnapshot { index := index, term := term }
        (some (n.membersAt index)))

def finishCompaction (n : Node) (sink : MemSnapshot) : Node × Bool :=
  if sink.about.index <= n.storage.snapshotMeta.index then (n, false)
  else ({ n with storage := n.storage.installSnapshot sink }, true)

def takeCommitted (n : Node) : Node × List Entry :=
  ({ n with lastApplied := max n.lastApplied n.commitIndex },
    (MemStorage.indices (n.lastApplied + 1) n.commitIndex).filterMap
      n.storage.entry)

end Node

end Raft
end Minicask
