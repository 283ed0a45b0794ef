import Minicask.Raft.Moves

/-!
# A node and its restarts

A node with the snapshots it is writing, through any sequence of its operations.  A
restart loses everything but the storage, and comes back with the membership the node
was first started with.
-/

namespace Minicask
namespace Raft

structure Host where
  node : Node
  /-- The snapshots begun and not yet installed. -/
  sinks : List MemSnapshot := []

inductive Operation where
  | tick
  | campaign
  | preVote
  | propose (command : Bytes)
  | proposeBatch (commands : List Bytes)
  | proposeMembership (members : List Member)
  | setAutoPromote (on : Bool)
  | readIndex
  | forgetRead (request : ReadRequest)
  | receive (sender : NodeId) (message : Message)
  | takeCommitted
  | beginCompaction (index : Nat)
  | finishCompaction (sink : MemSnapshot) (data : Bytes)
  | restart (config : Config)
deriving Repr, DecidableEq

namespace Operation

def inputs (n : Node) : Operation -> Inputs
  | receive sender message =>
      { heard := fun core sender' message' =>
          core = n.core ∧ sender' = sender ∧ message' = message
        offered := fun _ => False }
  | proposeMembership members =>
      { heard := fun _ _ _ => False
        offered := fun members' => members' = members }
  | _ =>
      { heard := fun _ _ _ => False
        offered := fun _ => False }

end Operation

def Operation.isRestart : Operation -> Bool
  | Operation.restart _ => true
  | _ => false

theorem step_stale {n : Node} {sender : NodeId} {message : Message}
    (hcarries : message.carriesBytes = true) (hterm : message.term < n.term) :
    (n.step sender message).1 = n := by
  have hrequest : message.isRequest = true := by
    cases message with
    | appendEntries => rfl
    | installSnapshot => rfl
    | _ => cases hcarries
  unfold Node.step
  split
  · rfl
  · split
    · rfl
    · cases hcarries
    · rw [if_neg (Nat.not_lt.mpr (Nat.le_of_lt hterm)), hrequest, Bool.and_true,
        if_pos (decide_eq_true hterm)]

namespace Host

def start (id : NodeId) (bootstrap : List Member) (config : Config)
    (storage : MemStorage) : Host where
  node := Node.withMembers id bootstrap config storage

def act (h : Host) (result : Node × List Action) : Host × List Action :=
  ({ h with node := result.1 }, result.2)

def accepted {answer : Type} (h : Host)
    (result : Except ProposeError (Node × answer × List Action)) :
    Host × List Action :=
  match result with
  | Except.ok (node, _, actions) => h.act (node, actions)
  | Except.error _ => (h, [])

def run (h : Host) : Operation -> Host × List Action
  | Operation.tick => h.act h.node.tick
  | Operation.campaign => h.act h.node.campaign
  | Operation.preVote => h.act h.node.preVote
  | Operation.propose command => h.accepted (h.node.propose command)
  | Operation.proposeBatch commands => h.accepted (h.node.proposeBatch commands)
  | Operation.proposeMembership members =>
      h.accepted (h.node.proposeMembership members)
  | Operation.setAutoPromote on => h.act ({ h.node with autoPromote := on }, [])
  | Operation.readIndex =>
      let (node, _, actions) := h.node.readIndex
      h.act (node, actions)
  | Operation.forgetRead request => h.act (h.node.forgetRead request, [])
  | Operation.receive sender message => h.act (h.node.step sender message)
  | Operation.takeCommitted => h.act (h.node.takeCommitted.1, [])
  | Operation.beginCompaction index =>
      match h.node.beginCompaction index with
      | some sink => ({ h with sinks := sink :: h.sinks }, [])
      | none => (h, [])
  | Operation.finishCompaction sink data =>
      ({ node := (h.node.finishCompaction (sink.writeAll data)).1
         sinks := h.sinks.erase sink }, [])
  | Operation.restart config =>
      (start h.node.id h.node.bootstrap config h.node.storage, [])

def Enabled (h : Host) : Operation -> Prop
  | Operation.finishCompaction sink _ => sink ∈ h.sinks
  | _ => True

instance (h : Host) (operation : Operation) : Decidable (h.Enabled operation) :=
  match operation with
  | Operation.finishCompaction sink _ =>
      inferInstanceAs (Decidable (sink ∈ h.sinks))
  | Operation.tick => isTrue trivial
  | Operation.campaign => isTrue trivial
  | Operation.preVote => isTrue trivial
  | Operation.propose _ => isTrue trivial
  | Operation.proposeBatch _ => isTrue trivial
  | Operation.proposeMembership _ => isTrue trivial
  | Operation.setAutoPromote _ => isTrue trivial
  | Operation.readIndex => isTrue trivial
  | Operation.forgetRead _ => isTrue trivial
  | Operation.receive _ _ => isTrue trivial
  | Operation.takeCommitted => isTrue trivial
  | Operation.beginCompaction _ => isTrue trivial
  | Operation.restart _ => isTrue trivial

inductive Run (allowed : Host -> Operation -> Prop) : Host -> Host -> Prop where
  | refl (h : Host) : Run allowed h h
  | tail {h h' : Host} (operation : Operation) :
      Run allowed h h' ->
      h'.Enabled operation ->
      allowed h' operation ->
      Run allowed h (h'.run operation).1

/-- What an operation comes to: moves of the node, or one of the four operations on
snapshots and applied entries. -/
inductive Step (h : Host) (operation : Operation) : Host × List Action -> Prop where
  | moves {result : Node × List Action}
      (hran : Ran (operation.inputs h.node) h.node result) : Step h operation (h.act result)
  | take (hop : operation = Operation.takeCommitted) :
      Step h operation (h.act (h.node.takeCommitted.1, []))
  | begin (index : Nat) (sink : MemSnapshot)
      (hbegin : h.node.beginCompaction index = some sink) :
      Step h operation ({ h with sinks := sink :: h.sinks }, [])
  | finish (sink : MemSnapshot) (data : Bytes)
      (hop : operation = Operation.finishCompaction sink data) :
      Step h operation
        ({ node := (h.node.finishCompaction (sink.writeAll data)).1
           sinks := h.sinks.erase sink }, [])
  | restart (config : Config) (hop : operation = Operation.restart config) :
      Step h operation
        (start h.node.id h.node.bootstrap config h.node.storage, [])

theorem step_same (h : Host) (operation : Operation) :
    Step h operation (h, []) :=
  Step.moves (Ran.same h.node)

theorem step_accepted {answer : Type} {h : Host} {operation : Operation}
    {result : Except ProposeError (Node × answer × List Action)}
    (hran : forall node x actions, result = Except.ok (node, x, actions) ->
      Ran (operation.inputs h.node) h.node (node, actions)) :
    Step h operation (h.accepted result) := by
  cases result with
  | error e => exact step_same h operation
  | ok answered =>
      obtain ⟨node, x, actions⟩ := answered
      exact Step.moves (hran node x actions rfl)

theorem step (h : Host) (operation : Operation) :
    Step h operation (h.run operation) := by
  cases operation with
  | tick => exact Step.moves (ran_tick h.node)
  | campaign => exact Step.moves (ran_campaign h.node)
  | preVote => exact Step.moves (ran_preVote h.node)
  | propose command =>
      exact step_accepted (fun _ _ _ hok => ran_propose hok)
  | proposeBatch commands =>
      exact step_accepted (fun _ _ _ hok => ran_proposeBatch hok)
  | proposeMembership members =>
      exact step_accepted
        (fun _ _ _ hok => ran_proposeMembership hok (Or.inl rfl))
  | setAutoPromote on =>
      apply Step.moves
      apply Ran.idle
      apply idle_of_eq <;> rfl
  | readIndex => exact Step.moves (ran_readIndex h.node)
  | forgetRead request => exact Step.moves (ran_forgetRead h.node request)
  | receive sender message => exact Step.moves (ran_step h.node ⟨rfl, rfl, rfl⟩)
  | takeCommitted => exact Step.take rfl
  | beginCompaction index =>
      cases hbegin : h.node.beginCompaction index with
      | some sink =>
          have hrun : h.run (Operation.beginCompaction index) =
              ({ h with sinks := sink :: h.sinks }, []) := by
            unfold run
            dsimp only
            rw [hbegin]
          rw [hrun]
          exact Step.begin index sink hbegin
      | none =>
          have hrun : h.run (Operation.beginCompaction index) = (h, []) := by
            unfold run
            dsimp only
            rw [hbegin]
          rw [hrun]
          exact step_same h _
  | finishCompaction sink data => exact Step.finish sink data rfl
  | restart config => exact Step.restart config rfl

theorem id_handleAppendEntries (n : Node) (sender : NodeId)
    (prevLogIndex prevLogTerm : Nat) (entries : List Entry)
    (leaderCommit seq : Nat) :
    (n.handleAppendEntries sender prevLogIndex prevLogTerm entries leaderCommit
      seq).1.id = n.id := by
  have haccept : forall (m : Node) (prev : Nat) (es : List Entry),
      (m.acceptEntries prev es).id = m.id := by
    intro m prev es
    unfold Node.acceptEntries
    dsimp only
    split
    · exact id_reloadMembership _
    · rfl
  unfold Node.handleAppendEntries
  dsimp only
  split
  · rfl
  · split
    · split
      · rfl
      · rfl
    · dsimp only
      split
      · exact haccept _ _ _
      · exact haccept _ _ _

theorem id_handleInstallSnapshot (n : Node) (sender : NodeId)
    (about : SnapshotMeta) (offset : Nat) (data : Bytes) (done : Bool)
    (seq : Nat) (members : Option (List Member)) :
    (n.handleInstallSnapshot sender about offset data done seq members).1.id =
      n.id := by
  unfold Node.handleInstallSnapshot
  dsimp only
  split
  · rfl
  · split
    · rfl
    · split
      · rfl
      · split
        · rfl
        · exact id_reloadMembership _

theorem id_of_moves {inputs : Inputs} {n n' : Node} (h : Moves inputs n n') :
    n'.id = n.id := by
  induction h with
  | refl => rfl
  | tail _ hmove ih =>
      rw [← ih]
      cases hmove with
      | idle h => exact congrArg Core.id h.core
      | reload => exact id_reloadMembership _
      | configure members h => exact id_reloadMembership _
      | entries => exact id_handleAppendEntries _ _ _ _ _ _ _
      | snapshot => exact id_handleInstallSnapshot _ _ _ _ _ _ _ _
      | lead => rfl
      | extend => rfl
      | commit => rfl

theorem id_run (h : Host) (operation : Operation) :
    (h.run operation).1.node.id = h.node.id := by
  have hstep := step h operation
  generalize h.run operation = result at hstep ⊢
  cases hstep with
  | moves hran => exact id_of_moves hran.moves
  | take => rfl
  | «begin» => rfl
  | finish sink data =>
      show (h.node.finishCompaction (sink.writeAll data)).1.id = _
      unfold Node.finishCompaction
      split <;> rfl
  | restart =>
      show (Node.withMembers _ _ _ _).id = _
      unfold Node.withMembers
      exact id_reloadMembership _

/-- A message of an earlier term changes nothing. -/
theorem stale_or_current (h : Host) (operation : Operation) :
    (h.run operation).1 = h ∨
      forall sender message, operation = Operation.receive sender message ->
        message.carriesBytes = true -> h.node.term <= message.term := by
  by_cases hstale : exists sender message,
      operation = Operation.receive sender message ∧
        message.carriesBytes = true ∧ message.term < h.node.term
  · obtain ⟨sender, message, rfl, hcarries, hterm⟩ := hstale
    refine Or.inl ?_
    show { h with node := (h.node.step sender message).1 } = h
    rw [step_stale hcarries hterm]
  · refine Or.inr ?_
    intro sender message hop hcarries
    by_contra hterm
    exact hstale ⟨sender, message, hop, hcarries, Nat.lt_of_not_le hterm⟩

end Host

end Raft
end Minicask
