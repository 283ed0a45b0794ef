import Minicask.Raft.Safety
import Minicask.Replicated.OneLog

/-!
# A pair of replicas

Two voters with their stores.  What happens to them is followed on their nodes and their
applied indexes alone: a message arrives only if it was sent, and a replica that is
stopped comes back with what its node had stored.
-/

namespace Minicask
namespace Replicated

open Raft

def putCommand : Bytes :=
  [182, 244, 31, 98, 0, 0, 0, 0, 0, 0, 0, 0, 1, 0, 0, 0, 2, 0, 0, 0, 0, 7, 8, 9]

theorem encode_putCommand :
    (Op.put [7] [8, 9]).encode 0 = Except.ok putCommand := by decide +kernel

def OnlyPut (command : Bytes) : Prop :=
  command = putCommand

theorem OnlyPut.writes (command : Bytes) (h : OnlyPut command) : Writes command := by
  cases h
  exact ⟨by decide, Op.put [7] [8, 9], 0, encode_putCommand⟩

structure Sketch where
  nodes : NodeId -> Node
  applied : NodeId -> Nat
  sent : List Envelope

/-- A node campaigns, takes the put, is asked for a read, or hears a message and hands
over what it has committed; or the replica is stopped and comes back. -/
inductive Gesture where
  | campaign (n : NodeId)
  | propose (n : NodeId)
  | readIndex (n : NodeId)
  | receive (envelope : Envelope)
  | restart (n : NodeId)

def Gesture.spares (m : NodeId) : Gesture -> Bool
  | restart n => decide (m ≠ n)
  | _ => true

def proposed (node : Node) : Node × List Action :=
  match node.proposeBatch [putCommand] with
  | Except.ok (node, _, actions) => (node, actions)
  | Except.error _ => (node, [])

def highest (applied : Nat) (entries : List Entry) : Nat :=
  entries.foldl (fun applied e => max applied e.index) applied

def plain (node : Node) : Bool :=
  node.storage.log.entries.all (fun e => !e.command.isConfig)

namespace Sketch

def put (k : Sketch) (n : NodeId) (node : Node) (applied : Nat)
    (actions : List Action) : Sketch where
  nodes := Function.update k.nodes n node
  applied := Function.update k.applied n applied
  sent := k.sent ++ actions.map (fun action =>
    { sender := n, dest := action.dest, message := action.message })

def host : Gesture -> NodeId
  | Gesture.campaign n => n
  | Gesture.propose n => n
  | Gesture.readIndex n => n
  | Gesture.receive e => e.dest
  | Gesture.restart n => n

/-- What the node does and sends, before anything is applied. -/
def turn (node : Node) : Gesture -> Node × List Action
  | Gesture.campaign _ => node.campaign
  | Gesture.propose _ => proposed node
  | Gesture.readIndex _ => (node.readIndex.1, node.readIndex.2.2)
  | Gesture.receive e => node.step e.sender e.message
  | Gesture.restart n => (Node.withMembers n pairMembers {} node.storage, [])

def settled (applied : Nat) (node : Node) : Gesture -> Node × Nat
  | Gesture.receive _ =>
      (node.takeCommitted.1, highest applied node.takeCommitted.2)
  | _ => (node, applied)

def next (k : Sketch) (gesture : Gesture) : Sketch :=
  let n := host gesture
  let done := turn (k.nodes n) gesture
  let left := settled (k.applied n) done.1 gesture
  k.put n left.1 left.2 done.2

/-- Whether a gesture can be made: by one of the pair, on a message that was sent, with
no membership in the log and no snapshot. -/
def allows (k : Sketch) (gesture : Gesture) : Bool :=
  let n := host gesture
  let done := turn (k.nodes n) gesture
  decide (n ∈ [1, 2]) && plain done.1 &&
    decide (done.1.storage.snapshotMeta.index = 0) &&
    decide ((settled (k.applied n) done.1 gesture).2 < 2 ^ 64) &&
    match gesture with
    | Gesture.receive e => decide (e ∈ k.sent)
    | _ => true

def replay (k : Sketch) (gestures : List Gesture) : Sketch :=
  gestures.foldl next k

def replays : Sketch -> List Gesture -> Bool
  | _, [] => true
  | k, gesture :: rest => k.allows gesture && replays (k.next gesture) rest

def pair : Sketch where
  nodes n := Node.withMembers n pairMembers {} {}
  applied _ := 0
  sent := []

end Sketch

/-!
# What a fleet shows
-/

/-- A replica with this node and this applied index, and no work out. -/
structure Shown (node : Node) (applied : Nat) (s : System) : Prop where
  node : s.replica.node = node
  applied : s.replica.applied = applied
  background : s.replica.backgroundSnapshots = true
  restoring : s.replica.restoring = false
  snapshot : s.snapshot = Work.idle
  compaction : s.compaction = Work.idle
  restore : s.restore = Work.idle

/-- A fleet in which the pair has come to this. -/
structure Sketch.Shows (k : Sketch) (f : Fleet) : Prop where
  run : Fleet.Run pairMembers OnlyPut Fleet.start f
  sent : f.sent = k.sent
  hosts : forall n, n ∈ [1, 2] -> exists s,
    f.hosts n = Stage.up s ∧ Shown (k.nodes n) (k.applied n) s

theorem fixed_of_plain {node : Node} (h : plain node = true) : ¬ HoldsConfig node := by
  rintro ⟨e, hmem, hconfig⟩
  have hnone := List.all_eq_true.mp h e hmem
  rw [hconfig] at hnone
  cases hnone

theorem highest_batch {env : Env} {entries : List Entry} {state state' : Store × Nat}
    (h : entries.foldlM (applyEntry env) state = Except.ok state') :
    state'.2 = highest state.2 entries := by
  induction entries generalizing state with
  | nil =>
      cases h
      rfl
  | cons e rest ih =>
      rcases Fallible.foldlM_cons_eq_ok h with ⟨middle, hfirst, hrest⟩
      rw [ih hrest, applyEntry_applied hfirst]
      rfl

theorem apply_shown {env : Env} {r r' : ReplicatedStore}
    (h : r.apply env = Except.ok r') (hbase : r.snapshotIndex = 0)
    (hbackground : r.backgroundSnapshots = true) :
    r'.node = r.node.takeCommitted.1 ∧
      r'.applied = highest r.applied r.node.takeCommitted.2 ∧
      r'.backgroundSnapshots = true ∧ r'.restoring = r.restoring := by
  unfold ReplicatedStore.apply at h
  rw [hbase] at h
  simp only [gt_iff_lt, Nat.not_lt_zero, decide_false, Bool.false_and,
    Bool.false_eq_true, if_false] at h
  rcases Fallible.bind_eq_ok h with ⟨_, hsame, h⟩
  cases hsame
  rcases Fallible.bind_eq_ok h with ⟨⟨store, applied⟩, hloop, h⟩
  rw [hbackground] at h
  cases h
  exact ⟨rfl, highest_batch hloop, rfl, rfl⟩

namespace Shown

variable {node : Node} {applied : Nat} {s s' : System}

theorem campaign (h : Shown node applied s) :
    Shown node.campaign.1 applied { s with replica := s.replica.campaign.1 } := by
  rw [← h.node]
  exact ⟨rfl, h.applied, h.background, h.restoring, h.snapshot, h.compaction,
    h.restore⟩

theorem readIndex (h : Shown node applied s) :
    Shown node.readIndex.1 applied { s with replica := s.replica.readIndex.1 } := by
  rw [← h.node]
  exact ⟨rfl, h.applied, h.background, h.restoring, h.snapshot, h.compaction,
    h.restore⟩

theorem propose (h : Shown node applied s) :
    Shown (proposed node).1 applied
      (s.accepted (s.replica.proposeBatch [putCommand])) := by
  rw [← h.node]
  unfold proposed System.accepted ReplicatedStore.proposeBatch
  cases s.replica.node.proposeBatch [putCommand] <;>
    exact ⟨rfl, h.applied, h.background, h.restoring, h.snapshot, h.compaction,
      h.restore⟩

theorem node_step (h : Shown node applied s) (env : Env) (sender : NodeId)
    (message : Message) :
    (Event.step env sender message).node s.replica =
      (node.step sender message).1 := by
  unfold Event.node
  dsimp only
  rw [h.restoring, h.node]

theorem sent_step (h : Shown node applied s) (env : Env) (sender : NodeId)
    (message : Message) :
    (Event.step env sender message).sent s.replica =
      (node.step sender message).2 := by
  unfold Event.sent Event.operation
  dsimp only
  rw [h.restoring, h.node]
  rfl

theorem receive (h : Shown node applied s) {env : Env} {sender : NodeId}
    {message : Message}
    (hbase : (node.step sender message).1.storage.snapshotMeta.index = 0)
    (hnext : s.next (Event.step env sender message) = Except.ok s') :
    Shown (node.step sender message).1.takeCommitted.1
      (highest applied (node.step sender message).1.takeCommitted.2) s' := by
  rcases Fallible.map_eq_ok hnext with ⟨⟨r, actions⟩, hstep, rfl⟩
  rw [← h.node] at hbase ⊢
  rcases Event.step_cases s env sender message with ⟨hignored, _⟩ | ⟨_, hgiven, _, _⟩
  · unfold Event.applies at hignored
    rw [h.restoring] at hignored
    cases hignored
  · rw [hgiven] at hstep
    rcases Fallible.map_eq_ok hstep with ⟨r', happly, heq⟩
    cases heq
    rcases apply_shown happly hbase h.background with
      ⟨hnode, happlied, hbackground, hrestoring⟩
    refine ⟨hnode, ?_, hbackground, hrestoring.trans h.restoring, h.snapshot,
      h.compaction, h.restore⟩
    rw [← h.applied]
    exact happlied

end Shown

theorem node_proposeBatch (r : ReplicatedStore) :
    (Event.proposeBatch [putCommand]).node r = (proposed r.node).1 := by
  unfold Event.node ReplicatedStore.proposeBatch proposed
  dsimp only
  cases r.node.proposeBatch [putCommand] <;> rfl

theorem sent_proposeBatch (r : ReplicatedStore) :
    (Event.proposeBatch [putCommand]).sent r = (proposed r.node).2 := by
  unfold Event.sent Event.operation Host.run proposed
  dsimp only [Option.map, Option.getD]
  cases r.node.proposeBatch [putCommand] <;> rfl

namespace Sketch
namespace Shows

variable {k : Sketch} {f : Fleet} {n : NodeId}

theorem put (h : k.Shows f) {node : Node} {applied : Nat} {stage : Stage} {s : System}
    {actions : List Action} (hstage : stage = Stage.up s)
    (hstep : Fleet.Run pairMembers OnlyPut f (f.put n stage actions))
    (hshown : Shown node applied s) :
    (k.put n node applied actions).Shows (f.put n stage actions) := by
  refine ⟨h.run.trans hstep, congrArg (· ++ _) h.sent, fun m hm => ?_⟩
  unfold Sketch.put
  dsimp only
  by_cases hmn : m = n
  · subst hmn
    refine ⟨s, Fleet.put_self.trans hstage, ?_⟩
    rw [Function.update_self, Function.update_self]
    exact hshown
  · rcases h.hosts m hm with ⟨t, hup, ht⟩
    refine ⟨t, (Fleet.put_of_ne hmn).trans hup, ?_⟩
    rw [Function.update_of_ne hmn, Function.update_of_ne hmn]
    exact ht

theorem moves (h : k.Shows f) {e : Event} {s s' : System} {node : Node}
    {applied : Nat} {actions : List Action} (hup : f.hosts n = Stage.up s)
    (harrives : forall env sender message, e = Event.step env sender message ->
      { sender := sender, dest := n, message := message } ∈ f.sent)
    (hcommands : forall command, command ∈ e.commands -> OnlyPut command)
    {passed : Node} (hpassed : e.node s.replica = passed)
    (hplain : plain passed = true) (hsent : e.sent s.replica = actions)
    (hnext : s.next e = Except.ok s') (hshown : Shown node applied s')
    (hindex : applied < 2 ^ 64) :
    Fleet.Step pairMembers OnlyPut f (f.put n (Stage.up s') actions) ∧
      (k.put n node applied actions).Shows (f.put n (Stage.up s') actions) := by
  rw [← hpassed] at hplain
  rw [← hsent]
  have hstep : Fleet.Step pairMembers OnlyPut f
      (f.put n (Stage.up s') (e.sent s.replica)) :=
    Fleet.Step.next n e hup ⟨harrives, hcommands, fixed_of_plain hplain⟩ hnext
      (by
        rw [hshown.applied]
        exact hindex)
  exact ⟨hstep, h.put rfl (Relation.ReflTransGen.single hstep) hshown⟩

theorem stops (h : k.Shows f) (hn : n ∈ [1, 2]) :
    exists disk, readApplied { disk := disk } = k.applied n ∧
      Fleet.Step pairMembers OnlyPut f
        (f.put n (Stage.down disk (k.nodes n).storage) []) := by
  rcases h.hosts n hn with ⟨s, hup, hshown⟩
  rcases Fleet.Run.exists_stands OnlyPut.writes h.run with ⟨c, _, hstands⟩
  have hstanding := hstands.hosts n
  rw [hup] at hstanding
  have hlasting := hstanding.1.lasting
  rw [System.out_idle hshown.compaction hshown.restore] at hlasting
  have hidle := hlasting.sturdy.1.out
  have hkilled := killed_refl s.replica.store.dir.disk
  refine ⟨_, (applied_of_killed hstanding.1 hkilled).trans hshown.applied, ?_⟩
  rw [← hshown.node]
  exact Fleet.Step.stopped n hup ⟨hidle.1, hidle.2.1⟩ hkilled

theorem restarts (h : k.Shows f) (hn : n ∈ [1, 2])
    (hbase : (k.nodes n).storage.snapshotMeta.index = 0)
    (hindex : k.applied n < 2 ^ 64) :
    exists g, Fleet.Run pairMembers OnlyPut f g ∧
      (forall m, m ≠ n -> Fleet.Steady pairMembers OnlyPut m f g) ∧
      (k.next (Gesture.restart n)).Shows g := by
  rcases h.stops hn with ⟨disk, hrecorded, hstops⟩
  have hstopped := h.run.tail hstops
  have hdown : (f.put n (Stage.down disk (k.nodes n).storage) []).hosts n =
      Stage.down disk (k.nodes n).storage := Fleet.put_self
  rcases Fleet.Run.exists_joined OnlyPut.writes hstopped hdown {} {} quietEnv with
    ⟨store, r, hopen, hnew⟩
  rcases Fleet.Run.exists_stands OnlyPut.writes hstopped with ⟨c, _, hstands⟩
  have hstanding := hstands.hosts n
  rw [hdown] at hstanding
  have happlied : readApplied store.dir = k.applied n :=
    (hstanding.recorded hopen).trans hrecorded
  have hjoined : r =
      joined (Node.withMembers n pairMembers {} (k.nodes n).storage) store := by
    have hlevel : (joined (Node.withMembers n pairMembers {} (k.nodes n).storage)
        store).snapshotIndex = 0 := by
      rw [ReplicatedStore.snapshotIndex, joined, withMembers_storage]
      exact hbase
    rw [new_eq, hlevel, if_neg (Nat.not_lt_zero _)] at hnew
    cases hnew
    rfl
  cases hjoined
  rw [← happlied] at hindex
  have hback : Fleet.Step pairMembers OnlyPut _ _ :=
    Fleet.Step.restarted n hdown {} {} quietEnv defaultSnapshotEvery true hopen hnew
      hindex
  rw [Fleet.put_put] at hback
  refine ⟨_, (Relation.ReflTransGen.single hstops).tail hback, fun m hm => ?_, ?_⟩
  · refine (Relation.ReflTransGen.single ⟨hstops, fun hruns => ?_⟩).tail
      ⟨hback, fun hruns => ?_⟩
    · rw [Fleet.put_of_ne hm] at hruns
      rw [Fleet.put_of_ne hm]
      exact hruns
    · rw [Fleet.put_of_ne hm]
      exact hruns
  · exact h.put rfl ((Relation.ReflTransGen.single hstops).tail hback)
      ⟨rfl, happlied, rfl, rfl, rfl, rfl, rfl⟩

theorem next (h : k.Shows f) {gesture : Gesture} (hallows : k.allows gesture = true) :
    exists g, Fleet.Run pairMembers OnlyPut f g ∧
      (forall m, gesture.spares m = true -> Fleet.Steady pairMembers OnlyPut m f g) ∧
      (k.next gesture).Shows g := by
  unfold allows at hallows
  simp only [Bool.and_eq_true, decide_eq_true_eq] at hallows
  rcases hallows with ⟨⟨⟨⟨hn, hplain⟩, hbase⟩, hindex⟩, hsent⟩
  rcases h.hosts _ hn with ⟨s, hup, hshown⟩
  have hmoves : forall {e : Event} {s' : System},
      (forall env sender message, e = Event.step env sender message ->
        { sender := sender, dest := host gesture, message := message } ∈ f.sent) ->
      (forall command, command ∈ e.commands -> OnlyPut command) ->
      e.node s.replica = (turn (k.nodes (host gesture)) gesture).1 ->
      e.sent s.replica = (turn (k.nodes (host gesture)) gesture).2 ->
      s.next e = Except.ok s' ->
      Shown (settled (k.applied (host gesture))
        (turn (k.nodes (host gesture)) gesture).1 gesture).1
        (settled (k.applied (host gesture))
          (turn (k.nodes (host gesture)) gesture).1 gesture).2 s' ->
      exists g, Fleet.Run pairMembers OnlyPut f g ∧
        (forall m, gesture.spares m = true ->
          Fleet.Steady pairMembers OnlyPut m f g) ∧
        (k.next gesture).Shows g := by
    intro e s' harrives hcommands hpassed hactions hnext hafter
    rcases h.moves hup harrives hcommands hpassed hplain hactions hnext hafter hindex
      with ⟨hstep, hshows⟩
    exact ⟨_, Relation.ReflTransGen.single hstep,
      fun m _ => Relation.ReflTransGen.single ⟨hstep, Fleet.runs_put m⟩, hshows⟩
  cases gesture with
  | campaign n =>
      refine hmoves (e := Event.campaign) nofun nofun ?_ ?_ rfl hshown.campaign
      · rw [← hshown.node]
        rfl
      · rw [← hshown.node]
        rfl
  | propose n =>
      refine hmoves (e := Event.proposeBatch [putCommand]) nofun ?_ ?_ ?_ rfl
        hshown.propose
      · intro command hmem
        exact List.mem_singleton.mp hmem
      · rw [← hshown.node]
        exact node_proposeBatch s.replica
      · rw [← hshown.node]
        exact sent_proposeBatch s.replica
  | readIndex n =>
      refine hmoves (e := Event.readIndex) nofun nofun ?_ ?_ rfl hshown.readIndex
      · rw [← hshown.node]
        rfl
      · rw [← hshown.node]
        rfl
  | receive e =>
      have harrives : forall env sender message,
          Event.step quietEnv e.sender e.message = Event.step env sender message ->
            { sender := sender, dest := e.dest, message := message } ∈ f.sent := by
        intro env sender message heq
        cases heq
        rw [h.sent]
        exact of_decide_eq_true hsent
      have hpassed : (Event.step quietEnv e.sender e.message).node s.replica =
          ((k.nodes e.dest).step e.sender e.message).1 := hshown.node_step ..
      have hfixed : ¬ HoldsConfig
          ((Event.step quietEnv e.sender e.message).node s.replica) := by
        rw [hpassed]
        exact fixed_of_plain hplain
      rcases Fleet.Run.exists_next OnlyPut.writes h.run hup
        ⟨harrives, nofun, hfixed⟩ with ⟨s', hnext⟩
      exact hmoves harrives nofun hpassed (hshown.sent_step ..) hnext
        (hshown.receive hbase hnext)
  | restart n =>
      rcases h.restarts hn hbase hindex with ⟨g, hrun, hsteady, hshows⟩
      exact ⟨g, hrun, fun m hm => hsteady m (of_decide_eq_true hm), hshows⟩

theorem proposes (h : k.Shows f) {s : System} (hup : f.hosts n = Stage.up s)
    (hshown : Shown (k.nodes n) (k.applied n) s)
    (hallows : k.allows (Gesture.propose n) = true) :
    Fleet.Step pairMembers OnlyPut f
        (f.put n (Stage.up (s.accepted (s.replica.proposeBatch [putCommand])))
          (proposed (k.nodes n)).2) ∧
      (k.next (Gesture.propose n)).Shows
        (f.put n (Stage.up (s.accepted (s.replica.proposeBatch [putCommand])))
          (proposed (k.nodes n)).2) := by
  unfold allows at hallows
  simp only [Bool.and_eq_true, decide_eq_true_eq] at hallows
  rcases hallows with ⟨⟨⟨⟨_, hplain⟩, _⟩, hindex⟩, _⟩
  have hnode := node_proposeBatch s.replica
  have hsent := sent_proposeBatch s.replica
  rw [hshown.node] at hnode hsent
  refine h.moves (e := Event.proposeBatch [putCommand]) hup nofun ?_ hnode hplain hsent
    rfl hshown.propose hindex
  intro command hmem
  exact List.mem_singleton.mp hmem

theorem asks (h : k.Shows f) {s : System} (hup : f.hosts n = Stage.up s)
    (hshown : Shown (k.nodes n) (k.applied n) s)
    (hallows : k.allows (Gesture.readIndex n) = true) :
    Fleet.Step pairMembers OnlyPut f (f.ask n s) ∧
      (k.next (Gesture.readIndex n)).Shows (f.ask n s) := by
  unfold allows at hallows
  simp only [Bool.and_eq_true, decide_eq_true_eq] at hallows
  rcases hallows with ⟨⟨⟨⟨_, hplain⟩, _⟩, hindex⟩, _⟩
  have hnode : Event.readIndex.node s.replica =
      (turn (k.nodes n) (Gesture.readIndex n)).1 := by
    rw [← hshown.node]
    rfl
  have hsent : Event.readIndex.sent s.replica =
      (turn (k.nodes n) (Gesture.readIndex n)).2 := by
    rw [← hshown.node]
    rfl
  unfold Fleet.ask
  rw [hsent]
  exact h.moves (e := Event.readIndex) hup nofun nofun hnode hplain hsent rfl
    hshown.readIndex hindex

theorem replay (h : k.Shows f) (gestures : List Gesture)
    (hreplays : k.replays gestures = true) :
    exists g, Fleet.Run pairMembers OnlyPut f g ∧
      (forall m, gestures.all (fun gesture => gesture.spares m) = true ->
        Fleet.Steady pairMembers OnlyPut m f g) ∧
      (k.replay gestures).Shows g := by
  induction gestures generalizing k f with
  | nil => exact ⟨f, Relation.ReflTransGen.refl, fun _ _ => Relation.ReflTransGen.refl, h⟩
  | cons gesture rest ih =>
      unfold replays at hreplays
      rw [Bool.and_eq_true] at hreplays
      rcases h.next hreplays.1 with ⟨f', hfirst, hspares, hshows⟩
      rcases ih hshows hreplays.2 with ⟨g, hrest, hsteady, hlast⟩
      refine ⟨g, hfirst.trans hrest, fun m hm => ?_, hlast⟩
      rw [List.all_cons, Bool.and_eq_true] at hm
      exact (hspares m hm.1).trans (hsteady m hm.2)

end Shows

theorem pair_starts {f : Fleet} {n : NodeId} (hdown : f.hosts n = Stage.down {} {}) :
    exists s, Fleet.Step pairMembers OnlyPut f (f.put n (Stage.up s) []) ∧
      Shown (pair.nodes n) 0 s := by
  rcases Store.serves_open {} with ⟨store, hopen, _⟩
  have happlied : readApplied store.dir = 0 := readApplied_open hopen
  have hnew : ReplicatedStore.new (pair.nodes n) store quietEnv =
      Except.ok (joined (pair.nodes n) store) := by
    have hlevel : (joined (pair.nodes n) store).snapshotIndex = 0 := by
      rw [ReplicatedStore.snapshotIndex, joined, pair, withMembers_storage]
      rfl
    rw [new_eq, hlevel, if_neg (Nat.not_lt_zero _)]
  have hindex : (joined (pair.nodes n) store).applied < 2 ^ 64 := by
    show readApplied store.dir < 2 ^ 64
    rw [happlied]
    decide
  exact ⟨_, Fleet.Step.restarted n hdown {} {} quietEnv defaultSnapshotEvery true hopen
    hnew hindex, rfl, happlied, rfl, rfl, rfl, rfl, rfl⟩

theorem exists_pair :
    exists f, (forall m, Fleet.Steady pairMembers OnlyPut m Fleet.start f) ∧
      pair.Shows f := by
  rcases @pair_starts Fleet.start 1 rfl with ⟨s, hone, hs⟩
  rcases @pair_starts (Fleet.start.put 1 (Stage.up s) []) 2 rfl with ⟨t, htwo, ht⟩
  have hsteady : forall m, Fleet.Steady pairMembers OnlyPut m Fleet.start _ :=
    fun m => (Relation.ReflTransGen.single ⟨hone, Fleet.runs_put m⟩).tail
      ⟨htwo, Fleet.runs_put m⟩
  refine ⟨_, hsteady, (hsteady 0).run, rfl, fun n hn => ?_⟩
  rcases List.mem_pair.mp hn with rfl | rfl
  · exact ⟨s, rfl, hs⟩
  · exact ⟨t, rfl, ht⟩

end Sketch

def pairElects : List Gesture :=
  [Gesture.campaign 1,
    Gesture.receive ⟨1, 2, Message.requestVote 1 0 0⟩,
    Gesture.receive ⟨2, 1, Message.requestVoteReply 1 true⟩]

def pairWrites : List Gesture :=
  [Gesture.propose 1,
    Gesture.receive ⟨1, 2, Message.appendEntries 1 0 0
      [{ term := 1, index := 1, command := Command.noop },
        { term := 1, index := 2, command := Command.data putCommand }] 0 0⟩,
    Gesture.receive ⟨2, 1, Message.appendEntriesReply 1 true 2 0 none 0⟩]

def pairHears : List Gesture :=
  [Gesture.receive ⟨1, 2, Message.appendEntries 1 2 1 [] 2 1⟩,
    Gesture.receive ⟨2, 1, Message.appendEntriesReply 1 true 2 0 none 1⟩]

end Replicated
end Minicask
