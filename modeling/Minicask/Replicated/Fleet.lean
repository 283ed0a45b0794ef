import Minicask.Raft.Validity
import Minicask.Replicated.Recovery

/-!
# A fleet of replicas

Any number of replicas with their stores, and the messages between their nodes.  A
replica does whatever it does by itself; it is given a message that some node has sent;
it is stopped between two calls, or once a call has been through its node; and it comes
back to its files and its raft storage.
-/

namespace Minicask
namespace Replicated

open Raft

/-!
# What an event has the node do
-/

def Event.operation (r : ReplicatedStore) : Event -> Option Operation
  | tick _ => some Operation.tick
  | step _ sender message =>
      match r.restoring, message with
      | true, Message.installSnapshot _ _ _ _ _ _ _ _ => none
      | _, message => some (Operation.receive sender message)
  | campaign => some Operation.campaign
  | propose op now => (op.encode now).toOption.map Operation.propose
  | proposeBatch commands => some (Operation.proposeBatch commands)
  | proposeMembership members => some (Operation.proposeMembership members)
  | readIndex => some Operation.readIndex
  | forgetRead request => some (Operation.forgetRead request)
  | _ => none

def Event.sent (r : ReplicatedStore) (e : Event) : List Action :=
  ((e.operation r).map (fun operation =>
    (({ node := r.node } : Host).run operation).2)).getD []

def Event.commands : Event -> List Bytes
  | propose op now => (op.encode now).toOption.toList
  | proposeBatch commands => commands
  | _ => []

/-- The operations that an event can come to. -/
inductive Event.Comes (e : Event) : Operation -> Prop where
  | tick : Comes e Operation.tick
  | campaign : Comes e Operation.campaign
  | propose {command : Bytes} (h : command ∈ e.commands) :
      Comes e (Operation.propose command)
  | proposeBatch {commands : List Bytes}
      (h : forall command, command ∈ commands -> command ∈ e.commands) :
      Comes e (Operation.proposeBatch commands)
  | proposeMembership (members : List Member) :
      Comes e (Operation.proposeMembership members)
  | readIndex : Comes e Operation.readIndex
  | forgetRead (request : ReadRequest) : Comes e (Operation.forgetRead request)
  | receive {env : Env} {sender : NodeId} {message : Message}
      (h : e = Event.step env sender message) :
      Comes e (Operation.receive sender message)

section Operations

variable {r : ReplicatedStore} {e : Event}

theorem Event.sent_none (h : e.operation r = none) : e.sent r = [] := by
  unfold sent
  rw [h]
  rfl

theorem Event.sent_some {operation : Operation}
    (h : e.operation r = some operation) :
    e.sent r = (({ node := r.node } : Host).run operation).2 := by
  unfold sent
  rw [h]
  rfl

theorem Event.operation_step (r : ReplicatedStore) (env : Env) (sender : NodeId)
    (message : Message) :
    ((Event.step env sender message).operation r = none ∧
      (Event.step env sender message).node r = r.node) ∨
    ((Event.step env sender message).operation r =
        some (Operation.receive sender message) ∧
      (Event.step env sender message).node r =
        (r.node.step sender message).1) := by
  unfold Event.operation Event.node
  dsimp only
  cases r.restoring with
  | false => exact Or.inr ⟨rfl, rfl⟩
  | true =>
      cases message with
      | installSnapshot => exact Or.inl ⟨rfl, rfl⟩
      | _ => exact Or.inr ⟨rfl, rfl⟩

theorem Event.comes {operation : Operation}
    (h : e.operation r = some operation) : e.Comes operation := by
  cases e with
  | tick env =>
      cases h
      exact Comes.tick
  | step env sender message =>
      rcases Event.operation_step r env sender message with
        ⟨hignored, _⟩ | ⟨hgiven, _⟩
      · rw [hignored] at h
        cases h
      · rw [hgiven] at h
        cases h
        exact Comes.receive rfl
  | campaign =>
      cases h
      exact Comes.campaign
  | propose op now =>
      rcases Option.map_eq_some_iff.mp h with ⟨bytes, hbytes, rfl⟩
      refine Comes.propose ?_
      show bytes ∈ (op.encode now).toOption.toList
      rw [hbytes]
      exact List.mem_singleton_self bytes
  | proposeBatch commands =>
      cases h
      exact Comes.proposeBatch fun _ hcommand => hcommand
  | proposeMembership members =>
      cases h
      exact Comes.proposeMembership members
  | readIndex =>
      cases h
      exact Comes.readIndex
  | forgetRead request =>
      cases h
      exact Comes.forgetRead request
  | _ => cases h

theorem Event.Comes.ran {operation : Operation} (h : e.Comes operation)
    (n : Node) :
    Ran (operation.inputs n) n
      ((({ node := n } : Host).run operation).1.node,
        (({ node := n } : Host).run operation).2) := by
  have hstep := Host.step { node := n } operation
  generalize ({ node := n } : Host).run operation = result at hstep ⊢
  cases hstep with
  | moves hran => exact hran
  | take hop =>
      rw [hop] at h
      cases h
  | begin index sink hbegin => exact Ran.same n
  | finish sink data hop =>
      rw [hop] at h
      cases h
  | restart config hop =>
      rw [hop] at h
      cases h

theorem Event.node_cases (r : ReplicatedStore) (e : Event) :
    (e.operation r = none ∧ e.node r = r.node) ∨
      exists operation, e.operation r = some operation ∧
        e.node r = (({ node := r.node } : Host).run operation).1.node := by
  cases e with
  | tick env => exact Or.inr ⟨_, rfl, rfl⟩
  | step env sender message =>
      rcases Event.operation_step r env sender message with
        hignored | ⟨hgiven, hnode⟩
      · exact Or.inl hignored
      · exact Or.inr ⟨_, hgiven, hnode⟩
  | campaign => exact Or.inr ⟨_, rfl, rfl⟩
  | propose op now =>
      unfold Event.operation Event.node ReplicatedStore.propose
      dsimp only
      cases hencode : op.encode now with
      | error e => exact Or.inl ⟨rfl, rfl⟩
      | ok bytes =>
          refine Or.inr ⟨_, rfl, ?_⟩
          unfold Host.run
          dsimp only
          cases r.node.propose bytes <;> rfl
  | proposeBatch commands =>
      refine Or.inr ⟨_, rfl, ?_⟩
      unfold Event.node ReplicatedStore.proposeBatch Host.run
      dsimp only
      cases r.node.proposeBatch commands <;> rfl
  | proposeMembership members =>
      refine Or.inr ⟨_, rfl, ?_⟩
      unfold Event.node ReplicatedStore.proposeMembership Host.run
      dsimp only
      cases r.node.proposeMembership members <;> rfl
  | readIndex => exact Or.inr ⟨_, rfl, rfl⟩
  | forgetRead request => exact Or.inr ⟨_, rfl, rfl⟩
  | _ => exact Or.inl ⟨rfl, rfl⟩

theorem Event.sent_tick {env : Env} {r r' : ReplicatedStore}
    {actions : List Action} (h : r.tick env = Except.ok (r', actions)) :
    (Event.tick env).sent r = actions := by
  rcases Fallible.map_eq_ok h with ⟨_, _, hpair⟩
  cases hpair
  rfl

theorem Event.sent_step {env : Env} {sender : NodeId} {message : Message}
    {r r' : ReplicatedStore} {actions : List Action}
    (h : r.step env sender message = Except.ok (r', actions)) :
    (Event.step env sender message).sent r = actions := by
  unfold ReplicatedStore.step at h
  unfold Event.sent Event.operation
  dsimp only at h ⊢
  cases hrestoring : r.restoring with
  | false =>
      rw [hrestoring] at h
      rcases Fallible.map_eq_ok h with ⟨_, _, hpair⟩
      cases hpair
      rfl
  | true =>
      rw [hrestoring] at h
      cases message with
      | installSnapshot =>
          cases h
          rfl
      | _ =>
          rcases Fallible.map_eq_ok h with ⟨_, _, hpair⟩
          cases hpair
          rfl

end Operations

/-!
# What an event leaves of the node
-/

theorem startSnapshot_none {r r' : ReplicatedStore}
    (h : r.startSnapshot = (none, r')) : r' = r := by
  unfold ReplicatedStore.startSnapshot at h
  split at h
  · cases h
    rfl
  · split at h
    · cases h
      rfl
    · cases h

theorem startSnapshot_some {r r' : ReplicatedStore} {job : SnapshotJob}
    (h : r.startSnapshot = (some job, r')) :
    r.node.beginCompaction r.applied = some job.sink ∧ r'.node = r.node := by
  unfold ReplicatedStore.startSnapshot at h
  split at h
  · cases h
  · split at h
    · cases h
    · next sink hbegin =>
        cases h
        exact ⟨hbegin, rfl⟩

theorem finishSnapshot_node {env : Env} {r r' : ReplicatedStore}
    {sink : MemSnapshot} (h : r.finishSnapshot env sink = Except.ok r') :
    r'.node = (r.node.finishCompaction sink).1 := by
  unfold ReplicatedStore.finishSnapshot at h
  dsimp only at h
  split at h
  · split at h
    · cases h
      rfl
    · rcases Fallible.map_eq_ok h with ⟨_, _, rfl⟩
      rfl
  · cases h
    rfl

theorem Levelled.node_eq {env : Env} {r r' : ReplicatedStore}
    (h : Levelled env r r') : r'.node = r.node := by
  cases h with
  | same _ => rfl
  | restored _ _ hrestore =>
      rcases ReplicatedStore.restore_eq_ok hrestore with ⟨_, _, _, _, rfl⟩
      rfl

/-- Applying, taken apart: a snapshot that is begun is written and installed. -/
theorem apply_parts {env : Env} {r r' : ReplicatedStore}
    (h : r.apply env = Except.ok r') :
    r' = r ∨ exists level store applied, Levelled env r level ∧
      level.node.takeCommitted.2.foldlM (applyEntry env)
        (level.store, level.applied) = Except.ok (store, applied) ∧
      (r' = level.batched store applied ∨
        exists job started sink,
          (level.batched store applied).startSnapshot = (some job, started) ∧
          job.run started.store.dir = Except.ok sink ∧
          started.finishSnapshot env sink = Except.ok r') := by
  unfold ReplicatedStore.apply at h
  split at h
  · cases h
    exact Or.inl rfl
  · next hgoes =>
      rcases Fallible.bind_eq_ok h with ⟨level, hlevel, h⟩
      rcases Fallible.bind_eq_ok h with ⟨⟨store, applied⟩, hloop, h⟩
      have hlevelled : Levelled env r level := by
        split at hlevel
        · next hahead =>
            exact Levelled.restored hahead (by simpa [hahead] using hgoes)
              hlevel
        · next hnot =>
            cases hlevel
            exact Levelled.same (Nat.le_of_not_lt hnot)
      refine Or.inr ⟨level, store, applied, hlevelled, hloop, ?_⟩
      dsimp only at h
      by_cases hbackground : level.backgroundSnapshots = true
      · rw [if_pos hbackground] at h
        cases h
        exact Or.inl rfl
      · rw [if_neg hbackground] at h
        split at h
        · next started hstart =>
            cases h
            have hbatched : (level.batched store applied).startSnapshot =
              (none, r') := hstart
            exact Or.inl (startSnapshot_none hbatched)
        · next job started hstart =>
            rcases Fallible.bind_eq_ok h with ⟨sink, hrun, hfinish⟩
            exact Or.inr ⟨job, started, sink, hstart, hrun, hfinish⟩

theorem Event.node_ignored {s : System} {env : Env} {sender : NodeId}
    {message : Message}
    (h : (Event.step env sender message).applies s = none) :
    (Event.step env sender message).node s.replica = s.replica.node := by
  unfold Event.applies at h
  unfold Event.node
  dsimp only at h ⊢
  cases hrestoring : s.replica.restoring with
  | false =>
      rw [hrestoring] at h
      cases h
  | true =>
      rw [hrestoring] at h
      cases message with
      | installSnapshot => rfl
      | _ => cases h

theorem Event.applies_finishRestore {s s' : System} {env env' : Env}
    (h : (Event.finishRestore env).applies s = some (env', s')) :
    s'.replica.node = s.replica.node ∧ s'.snapshot = s.snapshot := by
  unfold Event.applies at h
  dsimp only at h
  split at h
  · cases h
    exact ⟨rfl, rfl⟩
  · cases h

theorem startCompaction_node {r r' : ReplicatedStore}
    {result : Except Error (Option CompactionJob)}
    (h : r.startCompaction = (result, r')) :
    r'.node = r.node ∧ r'.applied = r.applied := by
  unfold ReplicatedStore.startCompaction at h
  split at h
  · cases h
    exact ⟨rfl, rfl⟩
  · dsimp only at h
    split at h <;> cases h <;> exact ⟨rfl, rfl⟩

theorem startRestore_node {r r' : ReplicatedStore} {job : Option RestoreJob}
    (h : r.startRestore = (job, r')) :
    r'.node = r.node ∧ r'.applied = r.applied := by
  unfold ReplicatedStore.startRestore at h
  split at h
  · cases h
    exact ⟨rfl, rfl⟩
  · split at h <;> cases h <;> exact ⟨rfl, rfl⟩

/-- The events after which entries may be applied or a snapshot may move on. -/
def Event.handles : Event -> Bool
  | tick _ => true
  | step _ _ _ => true
  | finishRestore _ => true
  | startSnapshot => true
  | runSnapshot => true
  | finishSnapshot _ => true
  | abandonSnapshot => true
  | _ => false

/-- Every other event leaves the node as it came through it, how far has been applied
and the snapshot that is being taken. -/
theorem System.next_elsewhere {s s' : System} {e : Event}
    (helsewhere : e.handles = false) (h : s.next e = Except.ok s') :
    s'.replica.node = e.node s.replica ∧ s'.snapshot = s.snapshot ∧
      s'.replica.applied = s.replica.applied := by
  cases e with
  | propose op now =>
      cases h
      unfold System.accepted Event.node ReplicatedStore.propose
      dsimp only
      cases op.encode now with
      | error e => exact ⟨rfl, rfl, rfl⟩
      | ok bytes =>
          dsimp only
          cases s.replica.node.propose bytes <;> exact ⟨rfl, rfl, rfl⟩
  | proposeBatch commands =>
      cases h
      unfold System.accepted Event.node ReplicatedStore.proposeBatch
      dsimp only
      cases s.replica.node.proposeBatch commands <;> exact ⟨rfl, rfl, rfl⟩
  | proposeMembership members =>
      cases h
      unfold System.accepted Event.node ReplicatedStore.proposeMembership
      dsimp only
      cases s.replica.node.proposeMembership members <;> exact ⟨rfl, rfl, rfl⟩
  | campaign =>
      cases h
      exact ⟨rfl, rfl, rfl⟩
  | readIndex =>
      cases h
      exact ⟨rfl, rfl, rfl⟩
  | forgetRead request =>
      cases h
      exact ⟨rfl, rfl, rfl⟩
  | setSnapshotEvery entries =>
      cases h
      exact ⟨rfl, rfl, rfl⟩
  | startCompaction =>
      unfold System.next at h
      dsimp only at h
      split at h
      · next job r hstart =>
          cases h
          exact ⟨(startCompaction_node hstart).1, rfl, (startCompaction_node hstart).2⟩
      · next r _ hstart =>
          cases h
          exact ⟨(startCompaction_node hstart).1, rfl, (startCompaction_node hstart).2⟩
  | runCompaction =>
      unfold System.next at h
      dsimp only at h
      split at h
      · rcases Fallible.map_eq_ok h with ⟨_, _, rfl⟩
        exact ⟨rfl, rfl, rfl⟩
      · cases h
        exact ⟨rfl, rfl, rfl⟩
  | finishCompaction =>
      unfold System.next at h
      dsimp only at h
      split at h <;> cases h <;> exact ⟨rfl, rfl, rfl⟩
  | abandonCompaction left =>
      unfold System.next at h
      dsimp only at h
      split at h <;> cases h <;> exact ⟨rfl, rfl, rfl⟩
  | startRestore =>
      unfold System.next at h
      dsimp only at h
      split at h
      · next r hstart =>
          cases h
          exact ⟨(startRestore_node hstart).1, rfl, (startRestore_node hstart).2⟩
      · next job r hstart =>
          cases h
          exact ⟨(startRestore_node hstart).1, rfl, (startRestore_node hstart).2⟩
  | runRestore =>
      unfold System.next at h
      dsimp only at h
      split at h
      · rcases Fallible.map_eq_ok h with ⟨_, _, rfl⟩
        exact ⟨rfl, rfl, rfl⟩
      · cases h
        exact ⟨rfl, rfl, rfl⟩
  | abandonRestore =>
      unfold System.next at h
      dsimp only at h
      split at h <;> cases h <;> exact ⟨rfl, rfl, rfl⟩
  | _ => cases helsewhere

/-- What an event comes to for the node, for how far has been applied and for the
snapshot that is being taken. -/
inductive Handled (s : System) (e : Event) (s' : System) : Prop where
  | same (hnode : s'.replica.node = e.node s.replica)
      (hsnapshot : s'.snapshot = s.snapshot ∨ s'.snapshot = Work.idle)
      (happlied : s'.replica.applied = s.replica.applied)
  | applied {env : Env} {s₁ : System} (happlies : e.applies s = some (env, s₁))
      (hnode : s₁.replica.node = e.node s.replica)
      (hsnapshot : s'.snapshot = s.snapshot)
      (happly : s₁.replica.apply env = Except.ok s'.replica)
  | started {job : SnapshotJob} (hnode : e.node s.replica = s.replica.node)
      (hstart : s.replica.startSnapshot = (some job, s'.replica))
      (hsnapshot : s'.snapshot = Work.started job)
  | ran {job : SnapshotJob} {sink : MemSnapshot}
      (hnode : e.node s.replica = s.replica.node)
      (hwork : s.snapshot = Work.started job)
      (hrun : job.run s.replica.store.dir = Except.ok sink)
      (hreplica : s'.replica = s.replica)
      (hsnapshot : s'.snapshot = Work.finished sink)
  | finished {sink : MemSnapshot} {env : Env}
      (hnode : e.node s.replica = s.replica.node)
      (hwork : s.snapshot = Work.finished sink)
      (hfinish : s.replica.finishSnapshot env sink = Except.ok s'.replica)
      (hsnapshot : s'.snapshot = Work.idle)

theorem System.next_handled {s s' : System} {e : Event}
    (hnext : s.next e = Except.ok s') : Handled s e s' := by
  cases e with
  | tick env =>
      rw [System.next_applies (s := s) (e := Event.tick env) rfl] at hnext
      rcases Fallible.map_eq_ok hnext with ⟨r, happly, rfl⟩
      exact Handled.applied rfl rfl rfl happly
  | step env sender message =>
      cases happlies : (Event.step env sender message).applies s with
      | none =>
          rw [System.next_ignored happlies
            (Or.inr (Or.inl ⟨env, sender, message, rfl⟩))] at hnext
          cases hnext
          exact Handled.same (Event.node_ignored happlies).symm (Or.inl rfl) rfl
      | some begun =>
          rcases begun with ⟨env', s₁⟩
          rcases Event.applies_step happlies with ⟨hs₁, hstepped, _⟩
          rw [System.next_applies happlies] at hnext
          rcases Fallible.map_eq_ok hnext with ⟨r, happly, rfl⟩
          refine Handled.applied happlies ?_ ?_ happly
          · rw [hs₁]
            exact hstepped.symm
          · rw [hs₁]
  | finishRestore env =>
      cases happlies : (Event.finishRestore env).applies s with
      | none =>
          rw [System.next_ignored happlies (Or.inr (Or.inr ⟨env, rfl⟩))] at hnext
          cases hnext
          exact Handled.same rfl (Or.inl rfl) rfl
      | some begun =>
          rcases begun with ⟨env', s₁⟩
          rw [System.next_applies happlies] at hnext
          rcases Fallible.map_eq_ok hnext with ⟨r, happly, rfl⟩
          rcases Event.applies_finishRestore happlies with ⟨hsame, hsnapshot⟩
          exact Handled.applied happlies hsame hsnapshot happly
  | startSnapshot =>
      unfold System.next at hnext
      dsimp only at hnext
      split at hnext
      · next r hstart =>
          cases hnext
          rw [startSnapshot_none hstart]
          exact Handled.same rfl (Or.inl rfl) rfl
      · next job r hstart =>
          cases hnext
          exact Handled.started rfl hstart rfl
  | runSnapshot =>
      unfold System.next at hnext
      dsimp only at hnext
      split at hnext
      · next job hwork =>
          rcases Fallible.map_eq_ok hnext with ⟨sink, hrun, rfl⟩
          exact Handled.ran rfl hwork hrun rfl rfl
      · cases hnext
        exact Handled.same rfl (Or.inl rfl) rfl
  | finishSnapshot env =>
      unfold System.next at hnext
      dsimp only at hnext
      split at hnext
      · next sink hwork =>
          rcases Fallible.map_eq_ok hnext with ⟨r, hfinish, rfl⟩
          exact Handled.finished rfl hwork hfinish rfl
      · cases hnext
        exact Handled.same rfl (Or.inl rfl) rfl
  | abandonSnapshot =>
      cases hnext
      exact Handled.same rfl (Or.inr rfl) rfl
  | _ =>
      rcases System.next_elsewhere rfl hnext with ⟨hsame, hsnapshot, happlied⟩
      exact Handled.same hsame (Or.inl hsnapshot) happlied

/-- Facts about a node and about the snapshots it begins, which handing entries over
and installing a snapshot keep. -/
structure Keeps (P : Node -> Prop) (Q : MemSnapshot -> Prop) : Prop where
  take : forall {n : Node}, P n -> P n.takeCommitted.1
  begins : forall {n : Node} {index : Nat} {sink : MemSnapshot}, P n ->
    n.beginCompaction index = some sink -> Q sink
  written : forall {sink : MemSnapshot} (data : Bytes), Q sink ->
    Q (sink.writeAll data)
  finish : forall {n : Node} {sink : MemSnapshot}, P n -> Q sink ->
    P (n.finishCompaction sink).1

/-- A fact about the snapshot that is being taken, if there is one. -/
def Begun (Q : MemSnapshot -> Prop) : Work SnapshotJob MemSnapshot -> Prop
  | Work.idle => True
  | Work.started job => Q job.sink
  | Work.finished sink => Q sink

namespace Keeps

variable {P : Node -> Prop} {Q : MemSnapshot -> Prop}

theorem run (h : Keeps P Q) {job : SnapshotJob} (hsink : Q job.sink) {dir : Dir}
    {sink : MemSnapshot} (hrun : job.run dir = Except.ok sink) : Q sink := by
  unfold SnapshotJob.run writeSnapshot StoreView.forEach at hrun
  apply Fallible.foldlM_keeps (P := Q) _ hsink hrun
  intro entry _ out next hout hnext
  rcases Fallible.bind_eq_ok hnext with ⟨value, _, hwrite⟩
  rcases Fallible.map_eq_ok hwrite with ⟨bytes, _, rfl⟩
  exact h.written bytes hout

theorem apply (h : Keeps P Q) {env : Env} {r r' : ReplicatedStore}
    (hnode : P r.node) (happly : r.apply env = Except.ok r') : P r'.node := by
  rcases apply_parts happly with
    rfl | ⟨level, store, applied, hlevel, _, rfl | ⟨job, started, sink, hstart,
      hrun, hfinish⟩⟩
  · exact hnode
  · have htaken := h.take hnode
    rw [← hlevel.node_eq] at htaken
    exact htaken
  · have htaken := h.take hnode
    rw [← hlevel.node_eq] at htaken
    rcases startSnapshot_some hstart with ⟨hbegin, hstarted⟩
    rw [finishSnapshot_node hfinish, hstarted]
    exact h.finish htaken (h.run (h.begins htaken hbegin) hrun)

/-- What is true of the node once an event has been through it is true of what the
event leaves. -/
theorem next (h : Keeps P Q) {s s' : System} {e : Event}
    (hnode : P (e.node s.replica)) (hbegun : Begun Q s.snapshot)
    (hnext : s.next e = Except.ok s') :
    P s'.replica.node ∧ Begun Q s'.snapshot := by
  cases System.next_handled hnext with
  | same hsame hsnapshot _ =>
      rw [hsame]
      refine ⟨hnode, ?_⟩
      rcases hsnapshot with hkept | hgone
      · rw [hkept]
        exact hbegun
      · rw [hgone]
        trivial
  | applied happlies hsame hsnapshot happly =>
      rw [← hsame] at hnode
      rw [hsnapshot]
      exact ⟨h.apply hnode happly, hbegun⟩
  | started hsame hstart hsnapshot =>
      rcases startSnapshot_some hstart with ⟨hbegin, hstarted⟩
      rw [hsame] at hnode
      rw [hstarted, hsnapshot]
      exact ⟨hnode, h.begins hnode hbegin⟩
  | ran hsame hwork hrun hreplica hsnapshot =>
      rw [hwork] at hbegun
      rw [hsame] at hnode
      rw [hreplica, hsnapshot]
      exact ⟨hnode, h.run hbegun hrun⟩
  | finished hsame hwork hfinish hsnapshot =>
      rw [hwork] at hbegun
      rw [hsame] at hnode
      rw [finishSnapshot_node hfinish, hsnapshot]
      exact ⟨h.finish hnode hbegun, trivial⟩

end Keeps

/-!
# Fleets
-/

structure Fleet where
  hosts : NodeId -> Stage
  sent : List Envelope

def Writes (command : Bytes) : Prop :=
  command.length < 2 ^ 32 ∧
    exists (op : Op) (now : UInt64), op.encode now = Except.ok command

namespace Fleet

def start : Fleet where
  hosts _ := Stage.down {} {}
  sent := []

def put (f : Fleet) (n : NodeId) (stage : Stage) (actions : List Action) :
    Fleet where
  hosts := Function.update f.hosts n stage
  sent := f.sent ++ actions.map (fun action =>
    { sender := n, dest := action.dest, message := action.message })

/-- Only a message that was sent arrives, only some commands are proposed, and the
membership stays what the replicas were started with. -/
structure Allows (allowed : Bytes -> Prop) (f : Fleet) (n : NodeId)
    (r : ReplicatedStore) (e : Event) : Prop where
  arrives : forall env sender message, e = Event.step env sender message ->
    { sender := sender, dest := n, message := message } ∈ f.sent
  commands : forall command, command ∈ e.commands -> allowed command
  fixed : ¬ HoldsConfig (e.node r)

/-- Something happens to one replica.  It may be stopped between two calls, or when a
call has been through its node and nothing is applied yet. -/
inductive Step (B : List Member) (allowed : Bytes -> Prop) (f : Fleet) :
    Fleet -> Prop where
  | next (n : NodeId) (e : Event) {s s' : System}
      (hup : f.hosts n = Stage.up s) (hallows : f.Allows allowed n s.replica e)
      (hnext : s.next e = Except.ok s')
      (hindex : s'.replica.applied < 2 ^ 64) :
      Step B allowed f (f.put n (Stage.up s') (e.sent s.replica))
  | stopped (n : NodeId) {s : System} {disk : Disk}
      (hup : f.hosts n = Stage.up s) (hquiet : Quiet s.replica)
      (hkilled : s.replica.store.dir.disk.Killed disk) :
      Step B allowed f (f.put n (Stage.down disk s.replica.node.storage) [])
  | caught (n : NodeId) {e : Event} {s s' : System} {env : Env} {disk : Disk}
      (hup : f.hosts n = Stage.up s) (hallows : f.Allows allowed n s.replica e)
      (happlies : e.applies s = some (env, s')) (hquiet : Quiet s'.replica)
      (hindex : s'.replica.applied < 2 ^ 64)
      (hkilled : s'.replica.store.dir.disk.Killed disk) :
      Step B allowed f (f.put n (Stage.down disk s'.replica.node.storage) [])
  | restarted (n : NodeId) {disk : Disk} {storage : MemStorage}
      (hdown : f.hosts n = Stage.down disk storage) (opts : Options)
      (config : Config) (env : Env) (snapshotEvery : Nat) (background : Bool)
      {store : Store} {replica : ReplicatedStore}
      (hopen : Store.openWith { disk := disk } opts = Except.ok store)
      (hnew : ReplicatedStore.new (Node.withMembers n B config storage) store
        env = Except.ok replica)
      (hindex : replica.applied < 2 ^ 64) :
      Step B allowed f (f.put n (Stage.up
        { replica := { replica with
            snapshotEvery := snapshotEvery
            backgroundSnapshots := background }
          snapshot := Work.idle
          compaction := Work.idle
          restore := Work.idle }) [])

abbrev Run (B : List Member) (allowed : Bytes -> Prop) : Fleet -> Fleet -> Prop :=
  Relation.ReflTransGen (Step B allowed)

def ask (f : Fleet) (n : NodeId) (s : System) : Fleet :=
  f.put n (Stage.up { s with replica := s.replica.readIndex.1 })
    (Event.readIndex.sent s.replica)

section Put

variable {f : Fleet} {n : NodeId} {stage : Stage} {actions : List Action}

@[simp] theorem put_self : (f.put n stage actions).hosts n = stage :=
  Function.update_self ..

theorem put_of_ne {m : NodeId} (h : m ≠ n) :
    (f.put n stage actions).hosts m = f.hosts m :=
  Function.update_of_ne h ..

theorem put_put {stage' : Stage} :
    (f.put n stage []).put n stage' actions = f.put n stage' actions := by
  unfold put
  dsimp only [List.map]
  rw [Function.update_idem, List.append_nil]

theorem forall_put {P : NodeId -> Stage -> Prop} (h : forall m, P m (f.hosts m))
    (hmoved : P n stage) : forall m, P m ((f.put n stage actions).hosts m) := by
  intro m
  by_cases hm : m = n
  · subst hm
    rw [put_self]
    exact hmoved
  · rw [put_of_ne hm]
    exact h m

theorem mem_sent_put {envelope : Envelope}
    (h : envelope ∈ (f.put n stage actions).sent) :
    envelope ∈ f.sent ∨ exists action, action ∈ actions ∧
      envelope =
        { sender := n, dest := action.dest, message := action.message } := by
  rcases List.mem_append.mp h with hold | hnew
  · exact Or.inl hold
  · rcases List.mem_map.mp hnew with ⟨action, haction, rfl⟩
    exact Or.inr ⟨action, haction, rfl⟩

end Put

end Fleet

/-!
# Replicas that are not stopped
-/

def Stage.runs : Stage -> Bool
  | Stage.up _ => true
  | Stage.down _ _ => false

/-- Something happens to a fleet, but this replica is not stopped. -/
structure Fleet.Spares (B : List Member) (allowed : Bytes -> Prop) (n : NodeId)
    (f g : Fleet) : Prop where
  step : Fleet.Step B allowed f g
  spared : (f.hosts n).runs = true -> (g.hosts n).runs = true

/-- A run in which this replica is never stopped. -/
abbrev Fleet.Steady (B : List Member) (allowed : Bytes -> Prop) (n : NodeId) :
    Fleet -> Fleet -> Prop :=
  Relation.ReflTransGen (Fleet.Spares B allowed n)

theorem Fleet.Steady.run {B : List Member} {allowed : Bytes -> Prop} {n : NodeId}
    {f g : Fleet} (h : Fleet.Steady B allowed n f g) : Fleet.Run B allowed f g :=
  Relation.ReflTransGen.mono
    (fun _ _ (hspares : Fleet.Spares B allowed n _ _) => hspares.step) _ _ h

theorem Fleet.runs_put {f : Fleet} {n : NodeId} {s : System} {actions : List Action}
    (m : NodeId) (h : (f.hosts m).runs = true) :
    ((f.put n (Stage.up s) actions).hosts m).runs = true :=
  Fleet.forall_put (P := fun m stage => (f.hosts m).runs = true -> stage.runs = true)
    (fun _ hruns => hruns) (fun _ => rfl) m h

end Replicated
end Minicask
