import Minicask.Raft.CommitPoint
import Minicask.Raft.FrameSizes
import Minicask.Raft.KnownTerms

/-!
# No command is made up

A leader appends an entry without a command when it takes office, and memberships.
Every other entry carries a command that was proposed to some node, and travels from
there with the messages.
-/

namespace Minicask
namespace Raft

def Entry.Allowed (allowed : Bytes -> Prop) (e : Entry) : Prop :=
  forall bytes, e.command = Command.data bytes -> allowed bytes

def Message.Allowed (allowed : Bytes -> Prop) : Message -> Prop
  | appendEntries _ _ _ entries _ _ =>
      forall e, e ∈ entries -> e.Allowed allowed
  | _ => True

def Node.Holds (allowed : Bytes -> Prop) (n : Node) : Prop :=
  forall e, e ∈ n.storage.log.entries -> e.Allowed allowed

/-- Every entry in what an operation leaves and sends is allowed. -/
structure Clean (allowed : Bytes -> Prop) (result : Node × List Action) :
    Prop where
  node : result.1.Holds allowed
  sent : forall action, action ∈ result.2 -> action.message.Allowed allowed

namespace Node.Holds

variable {allowed : Bytes -> Prop} {n n' : Node}

theorem of_log (h : n.Holds allowed) (hlog : n'.storage.log = n.storage.log) :
    n'.Holds allowed := by
  intro e he
  rw [hlog] at he
  exact h e he

theorem of_storage (h : n.Holds allowed) (hstorage : n'.storage = n.storage) :
    n'.Holds allowed :=
  h.of_log (by rw [hstorage])

theorem reload (h : n.Holds allowed) : n.reloadMembership.Holds allowed :=
  h.of_storage (storage_reloadMembership n)

theorem stored (h : n.Holds allowed) {log : EntryLog}
    (hlog : forall e, e ∈ log.entries ->
      e ∈ n.storage.log.entries ∨ e.Allowed allowed)
    (hsame : n'.storage.log = log) : n'.Holds allowed := by
  intro e he
  rw [hsame] at he
  rcases hlog e he with hold | hnew
  · exact h e hold
  · exact hnew

theorem append (h : n.Holds allowed) {es : List Entry}
    (hes : forall e, e ∈ es -> e.Allowed allowed)
    (hstorage : n'.storage = n.storage.append es) : n'.Holds allowed := by
  refine h.stored ?_ (congrArg MemStorage.log hstorage)
  intro e he
  rw [append_log] at he
  rcases List.mem_append.mp he with hold | hnew
  · exact Or.inl hold
  · exact Or.inr (hes e hnew)

theorem append_one (h : n.Holds allowed) {e : Entry}
    (hcommand : forall bytes, e.command ≠ Command.data bytes)
    (hstorage : n'.storage = n.storage.append [e]) : n'.Holds allowed := by
  refine h.append ?_ hstorage
  intro other hother bytes hdata
  rw [List.mem_singleton.mp hother] at hdata
  exact absurd hdata (hcommand bytes)

theorem installed (h : n.Holds allowed) (sink : MemSnapshot)
    (hstorage : n'.storage = n.storage.installSnapshot sink) :
    n'.Holds allowed := by
  intro e he
  rw [hstorage] at he
  rcases Nat.lt_or_ge n.storage.log.base.index sink.about.index with
    hnewer | hstale
  · rw [MemStorage.installSnapshot_mem hnewer] at he
    dsimp only at he
    rw [EntryLog.compact_snd hnewer] at he
    dsimp only at he
    split at he
    · exact h e (List.mem_of_mem_drop he)
    · cases he
  · rw [MemStorage.installSnapshot_stale hstale] at he
    exact h e he

theorem appended (h : n.Holds allowed) {kept : MemStorage} {entries : List Entry}
    (hkept : forall e, e ∈ kept.log.entries -> e ∈ n.storage.log.entries)
    (hentries : forall e, e ∈ entries -> e.Allowed allowed) :
    Node.Holds allowed { n with storage := kept.append entries } := by
  refine h.stored ?_ rfl
  intro e he
  rw [append_log] at he
  rcases List.mem_append.mp he with hold | hnew
  · exact Or.inl (hkept e hold)
  · exact Or.inr (hentries e hnew)

theorem accepted (h : n.Holds allowed) (prev : Nat) {entries : List Entry}
    (hentries : forall e, e ∈ entries -> e.Allowed allowed) :
    (n.acceptEntries prev entries).Holds allowed := by
  rcases acceptEntries_cases n prev entries with
    ⟨appendFrom, conflict, _, hcases⟩
  have hnew : forall e, e ∈ entries.drop appendFrom -> e.Allowed allowed :=
    fun e he => hentries e (List.mem_of_mem_drop he)
  cases conflict with
  | none =>
      have hstored := h.appended (fun _ he => he) hnew
      rcases hcases with hreload | ⟨_, _, hsame⟩
      · rw [hreload]
        exact hstored.reload
      · rw [hsame]
        exact hstored
  | some index =>
      have hcut : forall e, e ∈ (n.storage.truncateFrom index).log.entries ->
          e ∈ n.storage.log.entries := fun _ he => List.mem_of_mem_take he
      have hstored := h.appended hcut hnew
      rcases hcases with hreload | ⟨hnone, _⟩
      · rw [hreload]
        exact hstored.reload
      · cases hnone

end Node.Holds

section Operations

variable {allowed : Bytes -> Prop} {n : Node}

/-- What a node sends of entries is what it has of them. -/
theorem allowed_sent (h : n.Holds allowed) {action : Action}
    (hsent : Sent n action) : action.message.Allowed allowed := by
  cases hsent with
  | append peer _ =>
      unfold Node.appendMessageFor
      dsimp only
      split
      · trivial
      · intro e he
        exact h e (entriesWithinLoop_mem _ _ _ [] 0
          (fun _ hnone => absurd hnone List.not_mem_nil) e he)
  | probe peer seq _ _ => exact fun e he => absurd he List.not_mem_nil
  | plain _ hplain =>
      cases hmessage : action.message with
      | appendEntries =>
          rw [hmessage] at hplain
          cases hplain
      | _ => trivial

theorem clean_of_latest {result : Node × List Action}
    (h : result.1.Holds allowed) (hlatest : Latest result) :
    Clean allowed result :=
  ⟨h, fun action haction => allowed_sent h (hlatest action haction)⟩

/-!
# Elections and messages
-/

theorem holds_becomeFollower (h : n.Holds allowed) (term : Nat)
    (leader : Option NodeId) : (n.becomeFollower term leader).Holds allowed := by
  refine h.of_log ?_
  unfold Node.becomeFollower Node.resetElectionTimer
  dsimp only
  split <;> rfl

theorem holds_becomeLeader (h : n.Holds allowed) :
    n.becomeLeader.1.Holds allowed := by
  have hstorage : n.becomeLeader.1.storage = n.storage.append
      [{ term := n.term
         index := n.storage.lastIndex + 1
         command := Command.noop }] := by
    rw [becomeLeader_eq, storage_broadcastAppend, storage_maybeCommit]
  refine h.append_one ?_ hstorage
  intro bytes hdata
  cases hdata

theorem holds_becomeCandidate (h : n.Holds allowed) :
    n.becomeCandidate.1.Holds allowed := by
  unfold Node.becomeCandidate
  dsimp only
  split
  · exact holds_becomeLeader (h.of_log rfl)
  · exact h.of_log rfl

theorem holds_becomePreCandidate (h : n.Holds allowed) :
    n.becomePreCandidate.1.Holds allowed := by
  unfold Node.becomePreCandidate
  dsimp only
  split
  · exact holds_becomeCandidate (h.of_log rfl)
  · exact h.of_log rfl

theorem holds_handlePreVoteReply (h : n.Holds allowed) (sender : NodeId)
    (term : Nat) (granted : Bool) :
    (n.handlePreVoteReply sender term granted).1.Holds allowed := by
  unfold Node.handlePreVoteReply
  dsimp only
  split
  · split
    · split
      · exact holds_becomeCandidate (h.of_log rfl)
      · exact h.of_log rfl
    · exact h
  · split
    · exact holds_becomeFollower h term none
    · exact h

theorem holds_handleRequestVote (h : n.Holds allowed) (sender : NodeId)
    (lastLogIndex lastLogTerm : Nat) :
    (n.handleRequestVote sender lastLogIndex lastLogTerm).1.Holds allowed := by
  refine h.of_log ?_
  unfold Node.handleRequestVote
  dsimp only
  generalize (_ && n.storage.isUpToDate lastLogIndex lastLogTerm) = granted
  cases granted <;> rfl

theorem holds_handleVoteReply (h : n.Holds allowed) (sender : NodeId)
    (term : Nat) (granted : Bool) :
    (n.handleVoteReply sender term granted).1.Holds allowed := by
  unfold Node.handleVoteReply
  dsimp only
  split
  · exact h
  · split
    · split
      · exact holds_becomeLeader (h.of_log rfl)
      · exact h.of_log rfl
    · exact h

theorem holds_handleAppendEntries (h : n.Holds allowed) (sender : NodeId)
    (prevLogIndex prevLogTerm : Nat) {entries : List Entry}
    (leaderCommit seq : Nat)
    (hentries : forall e, e ∈ entries -> e.Allowed allowed) :
    (n.handleAppendEntries sender prevLogIndex prevLogTerm entries leaderCommit
      seq).1.Holds allowed := by
  rcases handleAppendEntries_cases n sender prevLogIndex prevLogTerm entries
    leaderCommit seq with hidle | ⟨middle, prev, term, rest, hidle, hstorage,
      hpast, _, heq⟩
  · exact h.of_log (congrArg Core.log hidle.core)
  · have hrest : forall e, e ∈ rest -> e.Allowed allowed := by
      intro e he
      refine hentries e ?_
      unfold Node.pastSnapshot at hpast
      dsimp only at hpast
      split at hpast
      · split at hpast
        · cases hpast
        · cases hpast
          exact List.mem_of_mem_drop he
      · cases hpast
        exact he
    rw [heq]
    exact ((h.of_storage hstorage).accepted prev hrest).of_log rfl

theorem holds_handleInstallSnapshot (h : n.Holds allowed) (sender : NodeId)
    (about : SnapshotMeta) (offset : Nat) (data : Bytes) (done : Bool)
    (seq : Nat) (members : Option (List Member)) :
    (n.handleInstallSnapshot sender about offset data done seq
      members).1.Holds allowed := by
  rcases handleInstallSnapshot_cases n sender about offset data done seq members
    with ⟨middle, _, hstorage, hsame | hdropped | ⟨_, hkept | ⟨_, hmore |
      ⟨_, hlast⟩⟩⟩⟩
  · rw [hsame]
    exact h.of_storage hstorage
  · rw [hdropped]
    exact h.of_storage hstorage
  · rw [hkept]
    exact h.of_storage hstorage
  · rw [hmore]
    exact h.of_storage hstorage
  · rw [hlast]
    have hmiddle : middle.Holds allowed := h.of_storage hstorage
    refine Node.Holds.installed hmiddle ?_ ?_
    · exact ((n.continuing sender about).getD
        (MemStorage.newSnapshot about members)).writeAll data
    · unfold Node.installReceived
      exact storage_reloadMembership _

theorem holds_handleReadIndex (h : n.Holds allowed) (sender : NodeId)
    (id : Nat) : (n.handleReadIndex sender id).1.Holds allowed := by
  unfold Node.handleReadIndex
  split
  · exact h
  · exact h.of_log rfl

theorem holds_readIndex (h : n.Holds allowed) :
    n.readIndex.1.Holds allowed := by
  unfold Node.readIndex
  split
  · exact h.of_log rfl
  · split
    · exact h.of_log rfl
    · exact h

theorem holds_handleReadIndexReply (h : n.Holds allowed) (id : Nat)
    (index : Option Nat) : (n.handleReadIndexReply id index).Holds allowed := by
  unfold Node.handleReadIndexReply
  split
  · exact h.of_log rfl
  · exact h

theorem holds_heardRound (h : n.Holds allowed) {sender : NodeId}
    {term seq : Nat} {next : Node} {released : List Action}
    (hheard : n.heardRound sender term seq = some (next, released)) :
    next.Holds allowed := by
  unfold Node.heardRound at hheard
  split at hheard
  · cases hheard
  · dsimp only at hheard
    split at hheard
    · cases hheard
      exact h.of_log rfl
    · cases hheard
      exact h.of_log rfl

theorem holds_maybeCommit (h : n.Holds allowed) : n.maybeCommit.Holds allowed :=
  h.of_storage (storage_maybeCommit n)

theorem holds_handleAppendReply (h : n.Holds allowed) (sender : NodeId)
    (success : Bool) (matchIndex conflictIndex : Nat)
    (conflictTerm : Option Nat) :
    (n.handleAppendReply sender success matchIndex conflictIndex
      conflictTerm).1.Holds allowed := by
  unfold Node.handleAppendReply
  split
  · split
    · exact holds_maybeCommit (h.of_log rfl)
    · exact h
  · exact h.of_log rfl

theorem holds_handleSnapshotReply (h : n.Holds allowed) (sender : NodeId)
    (lastIndex nextOffset : Nat) (done : Bool) :
    (n.handleSnapshotReply sender lastIndex nextOffset done).1.Holds allowed := by
  unfold Node.handleSnapshotReply
  dsimp only
  split
  · dsimp only
    split
    · exact holds_maybeCommit (h.of_log rfl)
    · exact h.of_log rfl
  · exact h.of_log rfl

theorem holds_handle (h : n.Holds allowed) (sender : NodeId)
    {message : Message} (hmessage : message.Allowed allowed) :
    (n.handle sender message).1.Holds allowed := by
  cases message with
  | preVote => exact h
  | preVoteReply => exact h
  | requestVote => exact holds_handleRequestVote h _ _ _
  | requestVoteReply => exact holds_handleVoteReply h _ _ _
  | appendEntries => exact holds_handleAppendEntries h _ _ _ _ _ hmessage
  | appendEntriesReply term success matchIndex conflictIndex conflictTerm seq =>
      cases hheard : n.heardRound sender term seq with
      | none =>
          unfold Node.handle
          simp only [hheard]
          exact h
      | some pair =>
          unfold Node.handle
          simp only [hheard]
          exact holds_handleAppendReply (holds_heardRound h hheard) _ _ _ _ _
  | installSnapshot => exact holds_handleInstallSnapshot h _ _ _ _ _ _ _
  | installSnapshotReply term lastIndex nextOffset done seq =>
      cases hheard : n.heardRound sender term seq with
      | none =>
          unfold Node.handle
          simp only [hheard]
          exact h
      | some pair =>
          unfold Node.handle
          simp only [hheard]
          exact holds_handleSnapshotReply (holds_heardRound h hheard) _ _ _ _
  | readIndex => exact holds_handleReadIndex h _ _
  | readIndexReply => exact holds_handleReadIndexReply h _ _

theorem holds_step (h : n.Holds allowed) (sender : NodeId) {message : Message}
    (hmessage : message.Allowed allowed) :
    (n.step sender message).1.Holds allowed := by
  unfold Node.step
  split
  · exact h
  · split
    · exact h
    · exact holds_handlePreVoteReply h _ _ _
    · split
      · exact holds_handle (holds_becomeFollower h _ none) sender hmessage
      · split
        · exact h
        · exact holds_handle h sender hmessage

theorem clean_step (h : n.Holds allowed) (sender : NodeId) {message : Message}
    (hmessage : message.Allowed allowed) : Clean allowed (n.step sender message) :=
  clean_of_latest (holds_step h sender hmessage) (latest_step n sender message)

/-!
# Proposals
-/

theorem holds_appendLocal (h : n.Holds allowed) {command : Command}
    (hcommand : forall bytes, command = Command.data bytes -> allowed bytes) :
    (n.appendLocal command).1.Holds allowed := by
  have hstorage : (n.appendLocal command).1.storage = n.storage.append
      [{ term := n.term
         index := n.storage.lastIndex + 1
         command := command }] := by
    unfold Node.appendLocal
    dsimp only
    rw [storage_maybeCommit]
    split
    · exact storage_reloadMembership _
    · rfl
  refine h.append ?_ hstorage
  intro e he bytes hdata
  rw [List.mem_singleton.mp he] at hdata
  exact hcommand bytes hdata

theorem clean_propose (h : n.Holds allowed) {command : Bytes}
    (hcommand : allowed command) {next : Node} {index : Nat}
    {actions : List Action}
    (hok : n.propose command = Except.ok (next, index, actions)) :
    Clean allowed (next, actions) := by
  refine clean_of_latest ?_ (latest_propose hok)
  unfold Node.propose at hok
  dsimp only at hok
  split at hok
  · cases hok
  · split at hok
    · cases hok
    · cases hok
      refine (holds_appendLocal h ?_).of_storage (storage_broadcastAppend _)
      intro bytes hdata
      cases hdata
      exact hcommand

theorem allowed_batchEntries (term maxEntryBytes : Nat) (commands : List Bytes)
    (hcommands : forall command, command ∈ commands -> allowed command)
    (index : Nat) :
    forall e, e ∈ (Node.batchEntries term maxEntryBytes index commands).1 ->
      e.Allowed allowed := by
  induction commands generalizing index with
  | nil => exact fun e he => absurd he List.not_mem_nil
  | cons command rest ih =>
      have hrest := ih (fun other hother =>
        hcommands other (List.mem_cons_of_mem command hother))
      intro e he
      unfold Node.batchEntries at he
      dsimp only at he
      split at he
      · exact hrest index e he
      · rcases List.mem_cons.mp he with heq | htail
        · intro bytes hdata
          rw [heq] at hdata
          cases hdata
          exact hcommands command List.mem_cons_self
        · exact hrest (index + 1) e htail

theorem clean_proposeBatch (h : n.Holds allowed) {commands : List Bytes}
    (hcommands : forall command, command ∈ commands -> allowed command)
    {next : Node} {answers : List (Except ProposeError Nat)}
    {actions : List Action}
    (hok : n.proposeBatch commands = Except.ok (next, answers, actions)) :
    Clean allowed (next, actions) := by
  refine clean_of_latest ?_ (latest_proposeBatch hok)
  unfold Node.proposeBatch at hok
  dsimp only at hok
  split at hok
  · cases hok
  · split at hok
    · cases hok
      exact h
    · cases hok
      have hstorage : ((Node.maybeCommit { n with
          storage := n.storage.append (Node.batchEntries n.term
            n.config.maxEntryBytes (n.storage.lastIndex + 1) commands).1
          }).broadcastAppend).1.storage =
          n.storage.append (Node.batchEntries n.term n.config.maxEntryBytes
            (n.storage.lastIndex + 1) commands).1 := by
        rw [storage_broadcastAppend, storage_maybeCommit]
      exact h.append (allowed_batchEntries _ _ commands hcommands _) hstorage

theorem clean_proposeMembership (h : n.Holds allowed) {members : List Member}
    {next : Node} {index : Nat} {actions : List Action}
    (hok : n.proposeMembership members = Except.ok (next, index, actions)) :
    Clean allowed (next, actions) := by
  let inputs : Inputs :=
    { heard := fun _ _ _ => False
      offered := fun _ => True }
  have hoffered : inputs.offered members := trivial
  rcases proposeMembership_ok hok (Or.inl hoffered) with ⟨hadmitted, hresult, _⟩
  rw [hresult]
  refine clean_of_latest ?_ (latest_broadcastAppend ?_)
  · refine (holds_appendLocal h ?_).of_storage (storage_broadcastAppend _)
    intro bytes hdata
    cases hdata
  · unfold Node.appendLocal
    dsimp only
    rw [role_maybeCommit]
    exact (role_reloadMembership _).trans hadmitted.leader

theorem clean_maybePromote (h : n.Holds allowed) :
    Clean allowed n.maybePromote := by
  have hquiet : Clean allowed (n, []) := clean_of_latest h (latest_nil n)
  unfold Node.maybePromote
  dsimp only
  split
  · exact hquiet
  · split
    · exact hquiet
    · split
      · next hok => exact clean_proposeMembership h hok
      · exact hquiet

/-!
# Time, and elections by hand
-/

theorem clean_tick (h : n.Holds allowed) : Clean allowed n.tick := by
  unfold Node.tick
  split
  · next hrole =>
      split
      · exact ⟨holds_becomeFollower h _ none,
          fun _ haction => absurd haction List.not_mem_nil⟩
      · have hbeats : Clean allowed
            (if n.heartbeatElapsed + 1 >= n.config.heartbeatTicks then
              Node.broadcastAppend { n with heartbeatElapsed := 0 }
            else ({ n with heartbeatElapsed := n.heartbeatElapsed + 1 }, [])) := by
          split
          · exact clean_of_latest
              ((h.of_log rfl).of_storage (storage_broadcastAppend _))
              (latest_broadcastAppend hrole)
          · exact clean_of_latest (h.of_log rfl) (latest_nil _)
        have hpromoted := clean_maybePromote hbeats.node
        refine ⟨hpromoted.node.of_storage (checkQuorum_storage _), ?_⟩
        intro action haction
        rcases List.mem_append.mp haction with hbeat | hpromotion
        · exact hbeats.sent action hbeat
        · exact hpromoted.sent action hpromotion
  · dsimp only
    split
    · split
      · exact clean_of_latest (holds_becomePreCandidate (h.of_log rfl))
          (latest_becomePreCandidate _)
      · exact clean_of_latest (h.of_log rfl) (latest_nil _)
    · exact clean_of_latest (h.of_log rfl) (latest_nil _)

theorem clean_campaign (h : n.Holds allowed) : Clean allowed n.campaign := by
  refine clean_of_latest ?_ (latest_campaign n)
  unfold Node.campaign
  split
  · exact holds_becomeCandidate h
  · exact h

theorem clean_preVote (h : n.Holds allowed) : Clean allowed n.preVote := by
  refine clean_of_latest ?_ (latest_preVote n)
  unfold Node.preVote
  split
  · exact holds_becomePreCandidate h
  · exact h

theorem holds_forgetRead (h : n.Holds allowed) (request : ReadRequest) :
    (n.forgetRead request).Holds allowed := by
  cases request with
  | forwarded => exact h.of_log rfl
  | _ => exact h

theorem holds_finishCompaction (h : n.Holds allowed) (sink : MemSnapshot) :
    (n.finishCompaction sink).1.Holds allowed := by
  unfold Node.finishCompaction
  split
  · exact h
  · exact h.installed sink rfl

end Operations

/-!
# Runs
-/

/-- Only allowed commands are proposed, and only allowed entries arrive. -/
def Operation.Brings (allowed : Bytes -> Prop) : Operation -> Prop
  | propose command => allowed command
  | proposeBatch commands =>
      forall command, command ∈ commands -> allowed command
  | receive _ message => message.Allowed allowed
  | _ => True

namespace Host

variable {allowed : Bytes -> Prop} {h : Host}

theorem clean_accepted {answer : Type} (hholds : h.node.Holds allowed)
    {result : Except ProposeError (Node × answer × List Action)}
    (hclean : forall node x actions, result = Except.ok (node, x, actions) ->
      Clean allowed (node, actions)) :
    Clean allowed ((h.accepted result).1.node, (h.accepted result).2) := by
  cases result with
  | error e => exact clean_of_latest hholds (latest_nil h.node)
  | ok answered =>
      rcases answered with ⟨node, x, actions⟩
      exact hclean node x actions rfl

theorem clean_run (hholds : h.node.Holds allowed) {operation : Operation}
    (hbrings : operation.Brings allowed) :
    Clean allowed ((h.run operation).1.node, (h.run operation).2) := by
  have hquiet : forall {n : Node}, n.Holds allowed -> Clean allowed (n, []) :=
    fun hn => clean_of_latest hn (latest_nil _)
  cases operation with
  | tick => exact clean_tick hholds
  | campaign => exact clean_campaign hholds
  | preVote => exact clean_preVote hholds
  | propose command =>
      exact clean_accepted hholds
        (fun _ _ _ hok => clean_propose hholds hbrings hok)
  | proposeBatch commands =>
      exact clean_accepted hholds
        (fun _ _ _ hok => clean_proposeBatch hholds hbrings hok)
  | proposeMembership members =>
      exact clean_accepted hholds
        (fun _ _ _ hok => clean_proposeMembership hholds hok)
  | setAutoPromote on => exact hquiet (hholds.of_log rfl)
  | readIndex =>
      exact clean_of_latest (holds_readIndex hholds) (latest_readIndex h.node)
  | forgetRead request => exact hquiet (holds_forgetRead hholds request)
  | receive sender message => exact clean_step hholds sender hbrings
  | takeCommitted => exact hquiet (hholds.of_log rfl)
  | beginCompaction index =>
      unfold run
      dsimp only
      split <;> exact hquiet hholds
  | finishCompaction sink data =>
      exact hquiet (holds_finishCompaction hholds (sink.writeAll data))
  | restart config => exact hquiet (hholds.of_storage (storage_reloadMembership _))

end Host

namespace Network

/-- Everything on the disks and in the messages is allowed. -/
structure Holds (allowed : Bytes -> Prop) (net : Network) : Prop where
  hosts : forall n, (net.hosts n).node.Holds allowed
  sent : forall envelope, envelope ∈ net.sent -> envelope.message.Allowed allowed

def Proposes (allowed : Bytes -> Prop) (_ : Network) (_ : NodeId) :
    Operation -> Prop
  | Operation.propose command => allowed command
  | Operation.proposeBatch commands =>
      forall command, command ∈ commands -> allowed command
  | _ => True

theorem holds_start (allowed : Bytes -> Prop) (bootstraps : NodeId -> List Member)
    (configs : NodeId -> Config) : Holds allowed (start bootstraps configs) := by
  refine ⟨fun n => ?_, fun _ henvelope => absurd henvelope List.not_mem_nil⟩
  intro e he
  rw [show ((start bootstraps configs).hosts n).node.storage = {} from
    storage_reloadMembership _] at he
  exact absurd he List.not_mem_nil

theorem Holds.next {allowed : Bytes -> Prop} {net : Network}
    (h : net.Holds allowed) {n : NodeId} {operation : Operation}
    (henabled : net.Enabled n operation)
    (hproposes : net.Proposes allowed n operation) :
    (net.next n operation).Holds allowed := by
  have hbrings : operation.Brings allowed := by
    cases operation with
    | receive sender message => exact h.sent _ henabled.arrives
    | propose command => exact hproposes
    | proposeBatch commands => exact hproposes
    | _ => trivial
  have hclean := Host.clean_run (h.hosts n) hbrings
  have hhosts : forall m, ((net.next n operation).hosts m).node.Holds allowed := by
    intro m
    exact @forall_next net n operation (fun _ host => host.node.Holds allowed) h.hosts
      hclean.node m
  refine ⟨hhosts, fun envelope henvelope => ?_⟩
  rcases mem_sent_next henvelope with hold | ⟨action, haction, heq⟩
  · exact h.sent envelope hold
  · rw [heq]
    exact hclean.sent action haction

/-- Whatever memberships change and whichever nodes crash, a command that a log holds,
that a message carries or that is handed over was proposed. -/
theorem commands_were_proposed (allowed : Bytes -> Prop)
    (bootstraps : NodeId -> List Member) (configs : NodeId -> Config)
    {net : Network}
    (hrun : Run (Proposes allowed) (start bootstraps configs) net) :
    net.Holds allowed ∧
      forall n e, e ∈ (net.hosts n).node.takeCommitted.2 -> e.Allowed allowed := by
  have hholds : net.Holds allowed := hrun.keeps (Holds allowed)
    (fun _ _ _ h henabled hproposes => h.next henabled hproposes)
    (holds_start allowed bootstraps configs)
  refine ⟨hholds, fun n e he => ?_⟩
  rcases List.mem_filterMap.mp he with ⟨i, _, hentry⟩
  exact hholds.hosts n e (mem_of_entry hentry)

/-- Node 1 leads two voters and takes a command, node 2 hears of it, and the leader
restarts. -/
def proposedToTwo : List (NodeId × Operation) :=
  [(1, Operation.campaign),
    (2, Operation.receive 1 (Message.requestVote 1 0 0)),
    (1, Operation.receive 2 (Message.requestVoteReply 1 true)),
    (1, Operation.propose [7]),
    (2, Operation.receive 1 (Message.appendEntries 1 0 0
      [{ term := 1, index := 1, command := Command.noop },
        { term := 1, index := 2, command := Command.data [7] }] 0 0)),
    (1, Operation.receive 2 (Message.appendEntriesReply 1 true 2 0 none 0)),
    (1, Operation.restart {})]

theorem commands_were_proposed_restarted :
    ((start (fun _ => pairMembers) (fun _ => {})).replay proposedToTwo).Holds
      (fun command => command = [7]) := by
  refine (commands_were_proposed _ (fun _ => pairMembers) (fun _ => {}) ?_).1
  refine run_of_replays proposedToTwo ?_ (by decide +kernel) _ (Run.refl _)
  intro n operation hmem net
  simp only [proposedToTwo, List.mem_cons, List.not_mem_nil, or_false,
    Prod.mk.injEq] at hmem
  rcases hmem with ⟨_, rfl⟩ | ⟨_, rfl⟩ | ⟨_, rfl⟩ | ⟨_, rfl⟩ | ⟨_, rfl⟩ | ⟨_, rfl⟩ |
    ⟨_, rfl⟩
  · trivial
  · trivial
  · trivial
  · rfl
  · trivial
  · trivial
  · trivial

end Network

end Raft
end Minicask
