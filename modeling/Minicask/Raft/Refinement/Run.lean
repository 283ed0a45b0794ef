import Minicask.Raft.Refinement.Follower

/-!
# Every run of a cluster is a run of the protocol

The handlers come together in `step` and `tick`, the nodes and the network in
`Related`, and one event of a cluster is then any number of protocol steps of the
node it happens at.
-/

namespace Minicask
namespace Raft

open Consensus

section Node

variable {B : List Member} {a : Past} {n : NodeId} {node : Node}

theorem NodeOk.handle (hinv : Inv (setting B) a) (h : NodeOk B a n node)
    {sender : NodeId} {message : Message}
    (hmsg : MsgOk B a { sender := sender, dest := n, message := message })
    (hterm : message.isRequest = true -> message.term = node.term) :
    Simulated B a n (node.handle sender message) := by
  cases message with
  | preVote term lastLogIndex lastLogTerm => exact simulated_quiet h
  | preVoteReply term granted => exact simulated_quiet h
  | requestVote term lastLogIndex lastLogTerm =>
      have heq : term = node.term := hterm rfl
      rw [heq] at hmsg
      exact h.handleRequestVote hinv hmsg
  | requestVoteReply term granted => exact h.handleVoteReply hinv hmsg
  | appendEntries term prev prevTerm entries leaderCommit seq =>
      have heq : term = node.term := hterm rfl
      rw [heq] at hmsg
      exact h.handleAppendEntries hinv hmsg
  | appendEntriesReply term success matchIndex conflictIndex conflictTerm seq =>
      rcases hmsg with ⟨hmatch, hconflict, hseq⟩
      simp only at hmatch hconflict hseq
      cases hheard : node.heardRound sender term seq with
      | none =>
          simp only [Node.handle, hheard]
          exact simulated_quiet h
      | some pair =>
          rcases pair with ⟨next, released⟩
          rcases h.heardRound hseq hheard with ⟨heq, hrole, hnode, hmsgs⟩
          rw [heq, h.term_eq] at hmatch hconflict
          have hsim : Simulated B a n (next.handleAppendReply sender success
              matchIndex conflictIndex conflictTerm) :=
            hnode.handleAppendReply hinv hrole hmatch hconflict
          simp only [Node.handle, hheard]
          exact hsim.append hinv hmsgs
  | installSnapshot term lastIndex lastTerm offset data done seq members =>
      have heq : term = node.term := hterm rfl
      rw [heq] at hmsg
      exact h.handleInstallSnapshot hinv hmsg
  | installSnapshotReply term lastIndex nextOffset done seq =>
      rcases hmsg with ⟨hdone, hseq⟩
      simp only at hdone hseq
      cases hheard : node.heardRound sender term seq with
      | none =>
          simp only [Node.handle, hheard]
          exact simulated_quiet h
      | some pair =>
          rcases pair with ⟨next, released⟩
          rcases h.heardRound hseq hheard with ⟨heq, hrole, hnode, hmsgs⟩
          rw [heq, h.term_eq] at hdone
          have hsim : Simulated B a n (next.handleSnapshotReply sender lastIndex
              nextOffset done) := hnode.handleSnapshotReply hinv hrole hdone
          simp only [Node.handle, hheard]
          exact hsim.append hinv hmsgs
  | readIndex term id => exact h.handleReadIndex hinv sender id
  | readIndexReply term id index =>
      simp only [Node.handle, Node.handleReadIndexReply]
      split
      · exact simulated_quiet { h with }
      · exact simulated_quiet h

/-- No answer that refuses claims anything. -/
theorem msgOk_refuseVote (node : Node) (sender : NodeId) (message : Message) :
    MsgOk B a
      { sender := n
        dest := (node.refuseVote sender message).dest
        message := (node.refuseVote sender message).message } := by
  unfold Node.refuseVote
  cases message with
  | preVote term lastLogIndex lastLogTerm => trivial
  | _ => exact fun hgranted => by cases hgranted

theorem msgOk_replyStale (node : Node) (sender : NodeId) (message : Message) :
    MsgOk B a
      { sender := n
        dest := (node.replyStale sender message).dest
        message := (node.replyStale sender message).message } := by
  unfold Node.replyStale
  cases message with
  | preVote term lastLogIndex lastLogTerm => trivial
  | requestVote term lastLogIndex lastLogTerm =>
      exact fun hgranted => by cases hgranted
  | installSnapshot term lastIndex lastTerm offset data done seq members =>
      exact ⟨(fun hdone => by cases hdone), Nat.zero_le _⟩
  | readIndex term id => trivial
  | _ =>
      exact ⟨(fun hs => by cases hs), fun _ => Nat.zero_le _, Nat.zero_le _⟩

theorem NodeOk.step (hinv : Inv (setting B) a) (h : NodeOk B a n node)
    {sender : NodeId} {message : Message}
    (hmsg : MsgOk B a { sender := sender, dest := n, message := message }) :
    Simulated B a n (node.step sender message) := by
  have hrest : Simulated B a n
      (if message.term > node.term then
        (node.becomeFollower message.term none).handle sender message
      else if message.term < node.term && message.isRequest then
        (node, [node.replyStale sender message])
      else node.handle sender message) := by
    split
    · next hlater =>
        rcases h.becomeFollower hinv (Nat.le_of_lt hlater) none with
          ⟨b, hsteps, hb, hterm⟩
        refine Simulated.after hsteps ?_
        apply hb.handle (hinv.steps hsteps)
          (hmsg.mono (hinv.steps_extends hsteps))
        intro _
        rw [hb.term_eq, hterm]
    · next hnotLater =>
        split
        · exact simulated_one h (msgOk_replyStale node sender message)
        · next hnotStale =>
            apply h.handle hinv hmsg
            intro hrequest
            rw [Bool.and_eq_true, hrequest, decide_eq_true_eq] at hnotStale
            have : ¬ message.term < node.term :=
              fun hlt => hnotStale ⟨hlt, rfl⟩
            omega
  unfold Node.step
  split
  · exact simulated_one h (msgOk_refuseVote node sender message)
  · cases message with
    | preVote term lastLogIndex lastLogTerm => exact simulated_one h trivial
    | preVoteReply term granted => exact h.handlePreVoteReply hinv sender term granted
    | _ => exact hrest

/-!
# The rest of a node's interface
-/

theorem checkQuorum_storage (node : Node) :
    node.checkQuorum.storage = node.storage := by
  unfold Node.checkQuorum
  simp only
  split
  · split
    · simp [Node.becomeFollower, Node.resetElectionTimer, Node.term]
    · rfl
  · rfl

def HoldsConfig (node : Node) : Prop :=
  exists e, e ∈ node.storage.log.entries ∧ e.command.isConfig = true

theorem proposeMembership_holdsConfig {members : List Member} {next : Node}
    {index : Nat} {actions : List Action}
    (hok : node.proposeMembership members = Except.ok (next, index, actions)) :
    HoldsConfig next := by
  have hnext : next = (node.appendLocal
      (Command.config members)).1.broadcastAppend.1 := by
    unfold Node.proposeMembership at hok
    split at hok
    · cases hok
    split at hok
    · cases hok
    split at hok
    · cases hok
    split at hok
    · cases hok
    simp only at hok
    split at hok
    · cases hok
    split at hok
    · cases hok
    · cases hok
      rfl
  unfold HoldsConfig
  rw [hnext, storage_broadcastAppend]
  simp only [Node.appendLocal, Command.isConfig, if_true]
  rw [storage_maybeCommit, storage_reloadMembership]
  refine ⟨_, List.mem_append_right _ (List.mem_singleton.mpr rfl), rfl⟩

theorem maybePromote_cases (node : Node) :
    node.maybePromote = (node, []) ∨ HoldsConfig node.maybePromote.1 := by
  unfold Node.maybePromote
  split
  · exact Or.inl rfl
  · split
    · exact Or.inl rfl
    · simp only
      split
      · next hok => exact Or.inr (proposeMembership_holdsConfig hok)
      · exact Or.inl rfl

theorem NodeOk.checkQuorum (hinv : Inv (setting B) a) (h : NodeOk B a n node) :
    exists b, Steps (setting B) n a b ∧ NodeOk B b n node.checkQuorum := by
  have hticked : NodeOk B a n { node with
      electionElapsed := node.electionElapsed + 1 } := { h with }
  unfold Node.checkQuorum
  simp only
  split
  · split
    · have hidle : NodeOk B a n { node with
          electionElapsed := node.electionElapsed + 1
          active := ∅ } := { h with }
      rcases hidle.becomeFollower hinv (le_refl _) none with ⟨b, hsteps, hb, _⟩
      exact ⟨b, hsteps, hb⟩
    · exact ⟨a, Relation.ReflTransGen.refl, { h with }⟩
  · exact ⟨a, Relation.ReflTransGen.refl, hticked⟩

theorem NodeOk.tick (hinv : Inv (setting B) a) (h : NodeOk B a n node)
    (hfixed : ¬ HoldsConfig node.tick.1) : Simulated B a n node.tick := by
  unfold Node.tick at hfixed ⊢
  split
  · next hrole =>
      rw [if_pos hrole] at hfixed
      split
      · rcases h.becomeFollower hinv (le_refl _) none with ⟨b, hsteps, hb, _⟩
        exact (simulated_quiet hb).after hsteps
      · next hvoter =>
          rw [if_neg hvoter] at hfixed
          simp only at hfixed ⊢
          have hbeats : Simulated B a n
              (if node.heartbeatElapsed + 1 >= node.config.heartbeatTicks then
                Node.broadcastAppend { node with heartbeatElapsed := 0 }
              else ({ node with
                heartbeatElapsed := node.heartbeatElapsed + 1 }, [])) := by
            split
            · exact NodeOk.broadcastAppend hinv { h with } hrole
            · exact simulated_quiet { h with }
          generalize (if node.heartbeatElapsed + 1 >=
              node.config.heartbeatTicks then
                Node.broadcastAppend { node with heartbeatElapsed := 0 }
              else ({ node with
                heartbeatElapsed := node.heartbeatElapsed + 1 }, [])) =
            beaten at hbeats hfixed ⊢
          rcases beaten with ⟨next, beats⟩
          simp only at hfixed ⊢
          rcases maybePromote_cases next with hquiet | hconfig
          · rw [hquiet]
            rcases hbeats with ⟨b, hab, hb, hmsgs⟩
            rcases hb.checkQuorum (hinv.steps hab) with ⟨c, hbc, hc⟩
            refine ⟨c, Relation.ReflTransGen.trans hab hbc, hc, ?_⟩
            intro action haction
            simp only [List.append_nil] at haction
            exact (hmsgs action haction).mono
              ((hinv.steps hab).steps_extends hbc)
          · exfalso
            apply hfixed
            unfold HoldsConfig
            rw [checkQuorum_storage]
            exact hconfig
  · simp only
    split
    · split
      · exact NodeOk.becomePreCandidate hinv { h with }
      · have hfollow := h.follow node.leaderId node.votes node.active
          node.remoteReads
        exact simulated_quiet { hfollow with }
    · exact simulated_quiet { h with }

theorem NodeOk.campaign (hinv : Inv (setting B) a) (h : NodeOk B a n node) :
    Simulated B a n node.campaign := by
  unfold Node.campaign
  split
  · exact h.becomeCandidate hinv
  · exact simulated_quiet h

theorem NodeOk.preVote (hinv : Inv (setting B) a) (h : NodeOk B a n node) :
    Simulated B a n node.preVote := by
  unfold Node.preVote
  split
  · exact h.becomePreCandidate hinv
  · exact simulated_quiet h

theorem NodeOk.forgetRead (h : NodeOk B a n node) (request : ReadRequest) :
    NodeOk B a n (node.forgetRead request) := by
  unfold Node.forgetRead
  split
  · exact { h with }
  · exact h

theorem NodeOk.takeCommitted (h : NodeOk B a n node) :
    NodeOk B a n node.takeCommitted.1 :=
  { h with applied := committed_max h.applied h.commit }

theorem NodeOk.beginCompaction (hinv : Inv (setting B) a)
    (h : NodeOk B a n node) {index : Nat} {sink : MemSnapshot}
    (hsink : node.beginCompaction index = some sink) : SinkOk B a n sink := by
  unfold Node.beginCompaction at hsink
  split at hsink
  · cases hsink
  next hcond =>
    simp only [Bool.or_eq_true, decide_eq_true_eq, not_or, not_le,
      not_lt] at hcond
    rcases Option.map_eq_some_iff.mp hsink with ⟨term, hterm, heq⟩
    rw [← heq]
    refine ⟨h.applied.le hcond.2, ?_, Or.inr ?_⟩
    · exact (h.storage.shows.termAt_eq_some hterm).2.2
    · simp only [MemStorage.newSnapshot]
      rw [h.membersAt hinv]

theorem NodeOk.finishCompaction (h : NodeOk B a n node) {sink : MemSnapshot}
    (hsink : SinkOk B a n sink) :
    NodeOk B a n (node.finishCompaction sink).1 := by
  unfold Node.finishCompaction
  split
  · exact h
  · exact h.compacted hsink.committed hsink.term hsink.members

/-- A crash loses everything but the storage. -/
theorem StorageOk.withMembers (hinv : Inv (setting B) a) {s : MemStorage}
    (h : StorageOk B a n s) (config : Config) :
    NodeOk B a n (Node.withMembers n B config s) := by
  unfold Node.withMembers
  apply NodeOk.reloadMembership hinv
  refine ⟨rfl, rfl, rfl, h, h.base, h.base, ?_, ?_, ?_⟩
  · intro hrole
    cases hrole
  · intro hrole
    cases hrole
  · intro origin sink hin
    cases hin

end Node

/-!
# Clusters
-/

/-- A cluster state a history accounts for. -/
structure Related (c : Cluster) (a : Past) : Prop where
  reachable : Reachable (setting c.bootstrap) a
  nodes : forall n, NodeOk c.bootstrap a n (c.nodes n)
  messages : forall envelope, envelope ∈ c.network ->
    MsgOk c.bootstrap a envelope
  sinks : forall n sink, sink ∈ c.sinks n -> SinkOk c.bootstrap a n sink

theorem Related.inv {c : Cluster} {a : Past} (h : Related c a) :
    Inv (setting c.bootstrap) a :=
  h.reachable.inv

theorem related_start (B : List Member) (configs : NodeId -> Config) :
    Related (Cluster.start B configs) History.initial where
  reachable := Relation.ReflTransGen.refl
  nodes := by
    intro n
    apply StorageOk.withMembers (inv_initial _)
    refine ⟨rfl, rfl, ⟨?_, ?_, ?_, ?_⟩, committed_zero _ _ _, Or.inl rfl⟩
    · intro i e hi
      cases hi
    · exact le_refl _
    · rfl
    · rfl
  messages := by
    intro envelope hmem
    cases hmem
  sinks := by
    intro n sink hmem
    cases hmem

section Cluster

variable {c : Cluster} {a : Past}

/-- What a run does to the snapshots its node has begun: a step of the node
itself never takes a committed prefix away. -/
theorem SinkOk.steps {B : List Member} {b : Past} {n : NodeId}
    {sink : MemSnapshot} (hinv : Inv (setting B) a) (h : SinkOk B a n sink)
    (hsteps : Steps (setting B) n a b) : SinkOk B b n sink := by
  rcases hinv.committed_steps hsteps h.committed with ⟨hcommitted, htake⟩
  refine ⟨hcommitted, ?_, h.members⟩
  rw [h.term, ← Shows.wholeTerm_take (le_refl _), htake]
  exact Shows.wholeTerm_take (le_refl _)

theorem Related.act (h : Related c a) {n : NodeId}
    {result : Node × List Action}
    (hsim : Simulated c.bootstrap a n result) :
    exists b, Run (setting c.bootstrap) a b ∧ Related (c.act n result) b := by
  rcases hsim with ⟨b, hsteps, hnode, hmsgs⟩
  have hext := h.inv.steps_extends hsteps
  have hun := h.inv.steps_untouched hsteps
  refine ⟨b, hsteps.toRun, h.reachable.steps hsteps, ?_, ?_, ?_⟩
  · intro m
    by_cases hm : m = n
    · rw [hm, Cluster.act_nodes_self]
      exact hnode
    · rw [Cluster.act_nodes_of_ne _ _ hm]
      exact (h.nodes m).still hext (still_of_untouched hun hm)
  · intro envelope hmem
    rcases List.mem_append.mp hmem with hold | hnew
    · exact (h.messages envelope hold).mono hext
    · rcases List.mem_map.mp hnew with ⟨action, haction, heq⟩
      rw [← heq]
      exact hmsgs action haction
  · intro m sink hsink
    by_cases hm : m = n
    · rw [hm] at hsink ⊢
      exact (h.sinks n sink hsink).steps h.inv hsteps
    · exact (h.sinks m sink hsink).still hext (still_of_untouched hun hm)

theorem Related.accepted (h : Related c a) {n : NodeId}
    {result : Except ProposeError (Node × answer × List Action)}
    (hsim : forall next answer actions,
      result = Except.ok (next, answer, actions) ->
      Simulated c.bootstrap a n (next, actions)) :
    exists b, Run (setting c.bootstrap) a b ∧
      Related (c.accepted n result) b := by
  cases result with
  | error _ => exact ⟨a, Relation.ReflTransGen.refl, h⟩
  | ok answer =>
      rcases answer with ⟨next, answer, actions⟩
      exact h.act (hsim next answer actions rfl)

theorem Related.sinks_subset {d : Cluster} (h : Related c a)
    (hboot : d.bootstrap = c.bootstrap) (hnodes : d.nodes = c.nodes)
    (hnetwork : d.network = c.network)
    (hsinks : forall n sink, sink ∈ d.sinks n ->
      sink ∈ c.sinks n ∨ SinkOk c.bootstrap a n sink) : Related d a where
  reachable := by
    rw [hboot]
    exact h.reachable
  nodes := by
    rw [hboot, hnodes]
    exact h.nodes
  messages := by
    rw [hboot, hnetwork]
    exact h.messages
  sinks := by
    intro n sink hsink
    rw [hboot]
    rcases hsinks n sink hsink with hold | hnew
    · exact h.sinks n sink hold
    · exact hnew

theorem not_holdsConfig {d : Cluster} (h : d.FixedMembership) (n : NodeId) :
    ¬ HoldsConfig (d.nodes n) := by
  rintro ⟨e, he, hconfig⟩
  rw [h n e he] at hconfig
  cases hconfig

theorem Related.next (h : Related c a) {event : Event}
    (henabled : c.Enabled event) (hfixed : (c.next event).FixedMembership) :
    exists b, Run (setting c.bootstrap) a b ∧ Related (c.next event) b := by
  have hinv := h.inv
  cases event with
  | tick n =>
      apply h.act
      apply (h.nodes n).tick hinv
      have hholds := not_holdsConfig hfixed n
      simp only [Cluster.next, Cluster.act_nodes_self] at hholds
      exact hholds
  | campaign n => exact h.act ((h.nodes n).campaign hinv)
  | preVote n => exact h.act ((h.nodes n).preVote hinv)
  | propose n command =>
      apply h.accepted
      intro next index actions hok
      exact (h.nodes n).propose hinv hok
  | proposeBatch n commands =>
      apply h.accepted
      intro next answers actions hok
      exact (h.nodes n).proposeBatch hinv hok
  | proposeMembership n members =>
      have hholds := not_holdsConfig hfixed n
      cases hok : (c.nodes n).proposeMembership members with
      | error why =>
          refine ⟨a, Relation.ReflTransGen.refl, ?_⟩
          simp only [Cluster.next, hok, Cluster.accepted]
          exact h
      | ok answer =>
          rcases answer with ⟨next, index, actions⟩
          exfalso
          apply hholds
          simp only [Cluster.next, hok, Cluster.accepted,
            Cluster.act_nodes_self]
          exact proposeMembership_holdsConfig hok
  | setAutoPromote n on =>
      exact h.act (simulated_quiet { h.nodes n with })
  | readIndex n => exact h.act ((h.nodes n).readIndex hinv)
  | forgetRead n request =>
      exact h.act (simulated_quiet ((h.nodes n).forgetRead request))
  | takeCommitted n =>
      exact h.act (simulated_quiet (h.nodes n).takeCommitted)
  | beginCompaction n index =>
      refine ⟨a, Relation.ReflTransGen.refl, ?_⟩
      simp only [Cluster.next]
      split
      · next sink hsink =>
          refine h.sinks_subset rfl rfl rfl ?_
          intro m other hother
          by_cases hm : m = n
          · rw [hm] at hother ⊢
            simp only [Function.update_self] at hother
            rcases List.mem_cons.mp hother with heq | hold
            · rw [heq]
              exact Or.inr ((h.nodes n).beginCompaction hinv hsink)
            · exact Or.inl hold
          · simp only [Function.update_of_ne hm] at hother
            exact Or.inl hother
      · exact h
  | finishCompaction n sink data =>
      have hsink : SinkOk c.bootstrap a n (sink.writeAll data) :=
        { h.sinks n sink henabled with }
      rcases h.act (simulated_quiet ((h.nodes n).finishCompaction hsink)) with
        ⟨b, hrun, hb⟩
      refine ⟨b, hrun, hb.sinks_subset rfl rfl rfl ?_⟩
      intro m other hother
      left
      by_cases hm : m = n
      · rw [hm] at hother ⊢
        simp only [Cluster.next, Function.update_self] at hother
        exact List.mem_of_mem_erase hother
      · simp only [Cluster.next, Function.update_of_ne hm] at hother
        exact hother
  | deliver envelope =>
      exact h.act ((h.nodes envelope.dest).step hinv
        (h.messages envelope henabled))
  | restart n config =>
      rcases h.act (simulated_quiet
        ((h.nodes n).storage.withMembers hinv config)) with ⟨b, hrun, hb⟩
      refine ⟨b, hrun, hb.sinks_subset rfl rfl rfl ?_⟩
      intro m other hother
      left
      by_cases hm : m = n
      · rw [hm] at hother
        simp only [Cluster.next, Function.update_self] at hother
        cases hother
      · simp only [Cluster.next, Function.update_of_ne hm] at hother
        exact hother

theorem next_bootstrap (c : Cluster) (event : Event) :
    (c.next event).bootstrap = c.bootstrap := by
  cases event with
  | propose n command =>
      simp only [Cluster.next, Cluster.accepted]
      split <;> rfl
  | proposeBatch n commands =>
      simp only [Cluster.next, Cluster.accepted]
      split <;> rfl
  | proposeMembership n members =>
      simp only [Cluster.next, Cluster.accepted]
      split <;> rfl
  | beginCompaction n index =>
      simp only [Cluster.next]
      split <;> rfl
  | _ => rfl

theorem FixedRun.bootstrap {d : Cluster} (h : Cluster.FixedRun c d) :
    d.bootstrap = c.bootstrap := by
  induction h with
  | refl => rfl
  | tail event _ _ _ ih => rw [next_bootstrap, ih]

/-- Every run of a cluster is a run of the protocol. -/
theorem Related.run {d : Cluster} (h : Related c a)
    (hrun : Cluster.FixedRun c d) :
    exists b, Run (setting c.bootstrap) a b ∧ Related d b := by
  induction hrun with
  | refl => exact ⟨a, Relation.ReflTransGen.refl, h⟩
  | tail event hprev henabled hfixed ih =>
      rcases ih with ⟨b, hab, hb⟩
      rcases hb.next henabled hfixed with ⟨e, hbe, he⟩
      rw [FixedRun.bootstrap hprev] at hbe
      exact ⟨e, Relation.ReflTransGen.trans hab hbe, he⟩

end Cluster

end Raft
end Minicask
