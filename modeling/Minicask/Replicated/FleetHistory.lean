import Minicask.Replicated.Fleet

/-!
# A fleet runs the protocol

Every step of a fleet is steps of the consensus protocol: the node of a replica goes
through what the event is for, and applying, taking a snapshot, being stopped and coming
back change nothing that the protocol knows of.  And the entries of every log are writes.
-/

namespace Minicask
namespace Replicated

open Raft Consensus

/-!
# One node
-/

theorem keeps_nodeOk {B : List Member} {a : Past} (hinv : Inv (setting B) a)
    (n : NodeId) : Keeps (NodeOk B a n) (SinkOk B a n) where
  take h := h.takeCommitted
  begins h hbegin := h.beginCompaction hinv hbegin
  written _ h := { h with }
  finish h hsink := h.finishCompaction hsink

theorem keeps_holds (allowed : Bytes -> Prop) :
    Keeps (Node.Holds allowed) (fun _ => True) where
  take h := h.of_log rfl
  begins _ _ := trivial
  written _ _ := trivial
  finish h _ := holds_finishCompaction h _

/-- The node of a replica goes through an event by steps of the protocol. -/
theorem Event.simulated {B : List Member} {a : Past} {n : NodeId}
    (hinv : Inv (setting B) a) {r : ReplicatedStore} (h : NodeOk B a n r.node)
    {e : Event} (harrives : forall env sender message,
      e = Event.step env sender message ->
        MsgOk B a { sender := sender, dest := n, message := message })
    (hfixed : ¬ HoldsConfig (e.node r)) :
    Simulated B a n (e.node r, e.sent r) := by
  rcases Event.node_cases r e with ⟨hnone, hnode⟩ | ⟨operation, hsome, hnode⟩
  · rw [hnode, Event.sent_none hnone]
    exact simulated_quiet h
  · rw [hnode] at hfixed ⊢
    rw [Event.sent_some hsome]
    cases Event.comes hsome with
    | tick => exact h.tick hinv hfixed
    | campaign => exact h.campaign hinv
    | @propose command hcommand =>
        unfold Host.run
        dsimp only
        cases hok : r.node.propose command with
        | error e => exact simulated_quiet h
        | ok done => exact h.propose hinv hok
    | @proposeBatch commands hcommands =>
        unfold Host.run
        dsimp only
        cases hok : r.node.proposeBatch commands with
        | error e => exact simulated_quiet h
        | ok done => exact h.proposeBatch hinv hok
    | proposeMembership members =>
        unfold Host.run at hfixed ⊢
        dsimp only at hfixed ⊢
        cases hok : r.node.proposeMembership members with
        | error e => exact simulated_quiet h
        | ok done =>
            rw [hok] at hfixed
            exact absurd (proposeMembership_holdsConfig hok) hfixed
    | readIndex => exact h.readIndex hinv
    | forgetRead request => exact simulated_quiet (h.forgetRead request)
    | receive heq => exact h.step hinv (harrives _ _ _ heq)

/-- What it proposes and what it is given are all that its log takes in. -/
theorem Event.clean {allowed : Bytes -> Prop} {r : ReplicatedStore}
    (h : r.node.Holds allowed) {e : Event}
    (harrives : forall env sender message, e = Event.step env sender message ->
      message.Allowed allowed)
    (hcommands : forall command, command ∈ e.commands -> allowed command) :
    Clean allowed (e.node r, e.sent r) := by
  rcases Event.node_cases r e with ⟨hnone, hnode⟩ | ⟨operation, hsome, hnode⟩
  · rw [hnode, Event.sent_none hnone]
    exact clean_of_latest h (latest_nil _)
  · rw [hnode, Event.sent_some hsome]
    apply Host.clean_run h
    cases Event.comes hsome with
    | propose hcommand => exact hcommands _ hcommand
    | proposeBatch hbatch =>
        exact fun command hcommand => hcommands command (hbatch command hcommand)
    | receive heq => exact harrives _ _ _ heq
    | _ => trivial

/-!
# Fleets
-/

def Hosted (B : List Member) (a : Past) (n : NodeId) : Stage -> Prop
  | Stage.up s =>
      NodeOk B a n s.replica.node ∧ Begun (SinkOk B a n) s.snapshot
  | Stage.down _ storage => StorageOk B a n storage

/-- A fleet that it accounts for. -/
structure Traced (B : List Member) (f : Fleet) (a : Past) : Prop where
  reachable : Reachable (setting B) a
  hosts : forall n, Hosted B a n (f.hosts n)
  messages : forall envelope, envelope ∈ f.sent -> MsgOk B a envelope

/-- A replica's own log is committed so far. -/
def Reaches (a : Past) (n : NodeId) (i : Nat) : Prop :=
  Consensus.Committed a (a.term n) (a.log n) i

theorem Reaches.still {a b : Past} {n : NodeId} {i : Nat} (h : Reaches a n i)
    (hext : Extends a b) (hstill : Still n a b) : Reaches b n i := by
  unfold Reaches at h ⊢
  rw [hstill.term, hstill.log]
  exact h.mono hext (Nat.le_refl _)

theorem Begun.mono {P Q : MemSnapshot -> Prop}
    (h : forall sink, P sink -> Q sink)
    {work : Work SnapshotJob MemSnapshot} (hbegun : Begun P work) :
    Begun Q work := by
  cases work with
  | idle => trivial
  | started job => exact h job.sink hbegun
  | finished sink => exact h sink hbegun

theorem Hosted.still {B : List Member} {a b : Past} {n : NodeId} {stage : Stage}
    (h : Hosted B a n stage) (hext : Extends a b) (hstill : Still n a b) :
    Hosted B b n stage := by
  cases stage with
  | up s =>
      exact ⟨h.1.still hext hstill, h.2.mono fun _ hsink =>
        hsink.still hext hstill⟩
  | down disk storage => exact StorageOk.still h hext hstill

namespace Traced

variable {B : List Member} {f : Fleet} {a : Past}

theorem start (B : List Member) : Traced B Fleet.start History.initial where
  reachable := Relation.ReflTransGen.refl
  hosts n := ((related_start B (fun _ => {})).nodes n).storage
  messages _ henvelope := absurd henvelope List.not_mem_nil

theorem inv (h : Traced B f a) : Inv (setting B) a :=
  h.reachable.inv

theorem put (h : Traced B f a) {n : NodeId} {node : Node} {actions : List Action}
    (hsim : Simulated B a n (node, actions)) :
    exists b, Consensus.Run (setting B) a b ∧ Inv (setting B) b ∧
      NodeOk B b n node ∧
      (forall sink, SinkOk B a n sink -> SinkOk B b n sink) ∧
      (forall m i, Reaches a m i -> Reaches b m i) ∧
      forall stage, Hosted B b n stage -> Traced B (f.put n stage actions) b := by
  rcases hsim with ⟨b, hsteps, hnode, hmessages⟩
  have hext := h.inv.steps_extends hsteps
  have huntouched := h.inv.steps_untouched hsteps
  have hreachable : Reachable (setting B) b := h.reachable.steps hsteps
  refine ⟨b, hsteps.toRun, hreachable.inv, hnode,
    fun sink hsink => hsink.steps h.inv hsteps, fun m i hreaches => ?_,
    fun stage hstage => ?_⟩
  · by_cases hm : m = n
    · subst hm
      exact (h.inv.committed_steps hsteps hreaches).1
    · exact hreaches.still hext (still_of_untouched huntouched hm)
  refine ⟨hreachable, ?_, ?_⟩
  · intro m
    by_cases hm : m = n
    · subst hm
      rw [Fleet.put_self]
      exact hstage
    · rw [Fleet.put_of_ne hm]
      exact (h.hosts m).still hext (still_of_untouched huntouched hm)
  · intro envelope henvelope
    rcases Fleet.mem_sent_put henvelope with hold | ⟨action, haction, rfl⟩
    · exact (h.messages envelope hold).mono hext
    · exact hmessages action haction

theorem moved (h : Traced B f a) {n : NodeId} {s : System}
    (hup : f.hosts n = Stage.up s) {e : Event} {allowed : Bytes -> Prop}
    (hallows : f.Allows allowed n s.replica e) :
    exists b, Consensus.Run (setting B) a b ∧ Inv (setting B) b ∧
      NodeOk B b n (e.node s.replica) ∧ Begun (SinkOk B b n) s.snapshot ∧
      (forall m i, Reaches a m i -> Reaches b m i) ∧
      forall stage actions, (forall action, action ∈ actions ->
          action ∈ e.sent s.replica) ->
        Hosted B b n stage -> Traced B (f.put n stage actions) b := by
  have hhosted := h.hosts n
  rw [hup] at hhosted
  have hsim := Event.simulated h.inv hhosted.1
    (fun env sender message he =>
      h.messages _ (hallows.arrives env sender message he)) hallows.fixed
  rcases h.put hsim with ⟨b, hrun, hinv, hnode, hsinks, hkept, htraced⟩
  refine ⟨b, hrun, hinv, hnode, hhosted.2.mono hsinks, hkept, ?_⟩
  intro stage actions hactions hstage
  have hall := htraced stage hstage
  refine ⟨hall.reachable, hall.hosts, ?_⟩
  intro envelope henvelope
  apply hall.messages
  rcases Fleet.mem_sent_put henvelope with hold | ⟨action, haction, rfl⟩
  · exact List.mem_append.mpr (Or.inl hold)
  · exact List.mem_append.mpr (Or.inr
      (List.mem_map.mpr ⟨action, hactions action haction, rfl⟩))

end Traced

end Replicated
end Minicask
