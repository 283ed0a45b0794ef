import Minicask.Raft.Progress
import Minicask.Raft.Safety

/-!
# A leader knows the terms it sends

Entries are sent after an index and the term there.  Where a leader takes a follower
to continue is set by elections, by answers and by refusals that may come late, while
its own snapshot advances; it stays between the first index and the one after the
last, and past the snapshot the term before it is in the log.
-/

namespace Minicask
namespace Raft

open Consensus Cluster

/-- Entries are sent after an index that the log has, with the term that it has
there. -/
def KnownIn (s : MemStorage) : Message -> Prop
  | Message.appendEntries _ prevLogIndex prevLogTerm _ _ _ =>
      s.termAt prevLogIndex = some prevLogTerm
  | _ => True

/-!
# What a leader would send
-/

section Node

variable {B : List Member} {a : Past} {n : NodeId} {node : Node}

theorem NodeOk.termAt_prev (h : NodeOk B a n node)
    (hrole : node.role = Role.leader) {peer : NodeId}
    (hpast : ¬ node.nextFor peer <= node.storage.snapshotMeta.index) :
    node.storage.termAt (node.nextFor peer - 1) =
      some ((node.storage.termAt (node.nextFor peer - 1)).getD 0) := by
  have hnext := h.nextFor hrole peer
  have hbase : node.storage.log.base.index < node.nextFor peer :=
    Nat.lt_of_not_le hpast
  have hterm : node.storage.termAt (node.nextFor peer - 1) =
      some (wholeTerm (a.log n) (node.nextFor peer - 1)) := by
    unfold MemStorage.termAt
    rw [h.storage.shows.termAt, if_pos (by omega)]
  rw [hterm, Option.getD_some]

theorem NodeOk.matchFor_le (hinv : Inv (setting B) a) (h : NodeOk B a n node)
    (hrole : node.role = Role.leader) (peer : NodeId) :
    node.matchFor peer <= node.lastIndex := by
  unfold Node.matchFor
  cases hmatch : node.matchIndex peer with
  | none => exact Nat.zero_le _
  | some k =>
      calc k
          <= a.acked peer (a.term n) := (h.leader hrole).matched peer k hmatch
        _ <= (a.record (a.term n)).length := hinv.ackBound peer _
        _ = (a.log n).length := by rw [h.log_eq_record hinv hrole]
        _ = node.lastIndex := h.lastIndex.symm

theorem NodeOk.knownIn_sent (h : NodeOk B a n node) {action : Action}
    (hsent : Sent node action) : KnownIn node.storage action.message := by
  cases hsent with
  | append peer hrole =>
      unfold Node.appendMessageFor
      dsimp only
      split
      · trivial
      · next hpast => exact h.termAt_prev hrole hpast
  | probe peer seq hrole hpast => exact h.termAt_prev hrole hpast
  | plain _ hplain =>
      cases hmessage : action.message with
      | appendEntries =>
          rw [hmessage] at hplain
          cases hplain
      | _ => trivial

end Node

/-!
# What an operation sends
-/

/-- Everything an operation sends, the node it leaves would send. -/
def Latest (result : Node × List Action) : Prop :=
  forall action, action ∈ result.2 -> Sent result.1 action

theorem latest_nil (node : Node) : Latest (node, []) :=
  fun _ haction => absurd haction List.not_mem_nil

theorem latest_plain {result : Node × List Action}
    (h : forall action, action ∈ result.2 ->
      action.message.carriesBytes = false) : Latest result :=
  fun action haction => Sent.plain action (h action haction)

theorem latest_one {node : Node} {action : Action} (h : Sent node action) :
    Latest (node, [action]) := by
  intro other hother
  rw [List.mem_singleton.mp hother]
  exact h

theorem Latest.append {node : Node} {earlier later : List Action}
    (h : Latest (node, later)) (hplain : forall action, action ∈ earlier ->
      action.message.carriesBytes = false) : Latest (node, earlier ++ later) := by
  intro action haction
  rcases List.mem_append.mp haction with hfirst | hsecond
  · exact Sent.plain action (hplain action hfirst)
  · exact h action hsecond

section Operations

variable {node : Node}

theorem latest_broadcastAppend (hrole : node.role = Role.leader) :
    Latest node.broadcastAppend := by
  intro action haction
  rcases List.mem_map.mp haction with ⟨peer, _, rfl⟩
  exact Sent.append peer ((role_broadcastAppend node).trans hrole)

theorem latest_becomeLeader (node : Node) : Latest node.becomeLeader := by
  rw [becomeLeader_eq]
  apply latest_broadcastAppend
  rw [role_maybeCommit]
  rfl

theorem plain_requests {ids : List NodeId} {message : Message}
    (h : message.carriesBytes = false) :
    forall action, action ∈ ids.map (fun peer =>
      ({ dest := peer, message := message } : Action)) ->
        action.message.carriesBytes = false := by
  intro action haction
  rcases List.mem_map.mp haction with ⟨_, _, rfl⟩
  exact h

theorem latest_becomeCandidate (node : Node) : Latest node.becomeCandidate := by
  unfold Node.becomeCandidate
  dsimp only
  split
  · exact latest_becomeLeader _
  · exact latest_plain (plain_requests rfl)

theorem latest_becomePreCandidate (node : Node) :
    Latest node.becomePreCandidate := by
  unfold Node.becomePreCandidate
  dsimp only
  split
  · exact latest_becomeCandidate _
  · exact latest_plain (plain_requests rfl)

theorem latest_handlePreVoteReply (node : Node) (sender : NodeId) (term : Nat)
    (granted : Bool) :
    Latest (node.handlePreVoteReply sender term granted) := by
  unfold Node.handlePreVoteReply
  dsimp only
  split
  · split
    · split
      · exact latest_becomeCandidate _
      · exact latest_nil _
    · exact latest_nil _
  · split
    · exact latest_nil _
    · exact latest_nil _

theorem latest_handleVoteReply (node : Node) (sender : NodeId) (term : Nat)
    (granted : Bool) :
    Latest (node.handleVoteReply sender term granted) := by
  unfold Node.handleVoteReply
  dsimp only
  split
  · exact latest_nil _
  · split
    · split
      · exact latest_becomeLeader _
      · exact latest_nil _
    · exact latest_nil _

theorem sent_openReadRound (hrole : node.role = Role.leader) (seq : Nat)
    (waiting : List RemoteRead) {action : Action}
    (haction : action ∈ node.openReadRound.2.1) :
    Sent { node with seq := seq, remoteReads := waiting } action := by
  rcases List.mem_map.mp haction with ⟨peer, hpeer, rfl⟩
  have hpast := (List.mem_filter.mp hpeer).2
  rw [Bool.not_eq_true', decide_eq_false_iff_not] at hpast
  exact Sent.probe (n := { node with seq := seq, remoteReads := waiting }) peer _
    hrole hpast

theorem latest_handleReadIndex (node : Node) (sender : NodeId) (id : Nat) :
    Latest (node.handleReadIndex sender id) := by
  unfold Node.handleReadIndex
  split
  · exact latest_one (Sent.plain _ rfl)
  · next hrole =>
      exact fun action haction =>
        sent_openReadRound (not_not.mp hrole) _ _ haction

theorem latest_readIndex (node : Node) :
    Latest (node.readIndex.1, node.readIndex.2.2) := by
  unfold Node.readIndex
  split
  · next hrole =>
      exact fun action haction =>
        sent_openReadRound hrole (node.seq + 1) node.remoteReads haction
  · split
    · exact latest_one (Sent.plain _ rfl)
    · exact latest_nil _

theorem latest_handleAppendReply (hrole : node.role = Role.leader)
    (sender : NodeId) (success : Bool) (matchIndex conflictIndex : Nat)
    (conflictTerm : Option Nat) :
    Latest (node.handleAppendReply sender success matchIndex conflictIndex
      conflictTerm) := by
  unfold Node.handleAppendReply
  dsimp only
  split
  · split
    · split
      · exact latest_one (Sent.append sender ((role_maybeCommit _).trans hrole))
      · exact latest_nil _
    · exact latest_nil _
  · exact latest_one (Sent.append sender hrole)

theorem latest_handleSnapshotReply (hrole : node.role = Role.leader)
    (sender : NodeId) (lastIndex nextOffset : Nat) (done : Bool) :
    Latest (node.handleSnapshotReply sender lastIndex nextOffset done) := by
  have hmore : forall node : Node, node.role = Role.leader ->
      Latest (node, if (node.nextIndex sender).getD 0 <= node.storage.lastIndex
        then [node.appendMessageFor sender] else []) := by
    intro node hleads
    split
    · exact latest_one (Sent.append sender hleads)
    · exact latest_nil _
  unfold Node.handleSnapshotReply
  dsimp only
  split
  · split
    · exact hmore _ ((role_maybeCommit _).trans hrole)
    · exact hmore _ hrole
  · exact latest_one (Sent.append sender hrole)

theorem latest_handle (node : Node) (sender : NodeId) (message : Message) :
    Latest (node.handle sender message) := by
  cases message with
  | preVote => exact latest_nil _
  | preVoteReply => exact latest_nil _
  | requestVote => exact latest_one (Sent.plain _ rfl)
  | requestVoteReply => exact latest_handleVoteReply node _ _ _
  | appendEntries =>
      exact latest_plain (fun _ hmem =>
        plain_handleAppendEntries node _ _ _ _ _ _ hmem)
  | installSnapshot =>
      exact latest_plain (fun _ hmem =>
        plain_handleInstallSnapshot node _ _ _ _ _ _ _ hmem)
  | appendEntriesReply =>
      unfold Node.handle
      dsimp only
      split
      · exact latest_nil _
      · next hround =>
          rcases heardRound_leads hround with ⟨hrole, hplain⟩
          exact (latest_handleAppendReply hrole _ _ _ _ _).append hplain
  | installSnapshotReply =>
      unfold Node.handle
      dsimp only
      split
      · exact latest_nil _
      · next hround =>
          rcases heardRound_leads hround with ⟨hrole, hplain⟩
          exact (latest_handleSnapshotReply hrole _ _ _ _).append hplain
  | readIndex => exact latest_handleReadIndex node _ _
  | readIndexReply => exact latest_nil _

theorem latest_step (node : Node) (sender : NodeId) (message : Message) :
    Latest (node.step sender message) := by
  unfold Node.step
  split
  · apply latest_one
    apply Sent.plain
    unfold Node.refuseVote
    dsimp only
    split <;> rfl
  · split
    · exact latest_one (Sent.plain _ rfl)
    · exact latest_handlePreVoteReply node _ _ _
    · split
      · exact latest_handle _ _ _
      · split
        · apply latest_one
          apply Sent.plain
          unfold Node.replyStale
          dsimp only
          split <;> rfl
        · exact latest_handle _ _ _

/-!
# Proposals and time
-/

theorem latest_propose {command : Bytes} {next : Node} {index : Nat}
    {actions : List Action}
    (h : node.propose command = Except.ok (next, index, actions)) :
    Latest (next, actions) := by
  unfold Node.propose at h
  dsimp only at h
  split at h
  · cases h
  · next hrole =>
      split at h
      · cases h
      · cases h
        apply latest_broadcastAppend
        exact (role_maybeCommit _).trans (not_not.mp hrole)

theorem latest_proposeBatch {commands : List Bytes} {next : Node}
    {answers : List (Except ProposeError Nat)} {actions : List Action}
    (h : node.proposeBatch commands = Except.ok (next, answers, actions)) :
    Latest (next, actions) := by
  unfold Node.proposeBatch at h
  dsimp only at h
  split at h
  · cases h
  · next hrole =>
      split at h
      · cases h
        exact latest_nil _
      · cases h
        apply latest_broadcastAppend
        exact (role_maybeCommit _).trans (not_not.mp hrole)

theorem latest_campaign (node : Node) : Latest node.campaign := by
  unfold Node.campaign
  split
  · exact latest_becomeCandidate node
  · exact latest_nil _

theorem latest_preVote (node : Node) : Latest node.preVote := by
  unfold Node.preVote
  split
  · exact latest_becomePreCandidate node
  · exact latest_nil _

/-- A leader that stands down after its heartbeats keeps its log. -/
theorem NodeOk.knownIn_tick {B : List Member} {a : Past} {n : NodeId}
    (hinv : Inv (setting B) a) (h : NodeOk B a n node)
    (hfixed : ¬ HoldsConfig node.tick.1) {action : Action}
    (haction : action ∈ node.tick.2) :
    KnownIn node.tick.1.storage action.message := by
  unfold Node.tick at haction hfixed ⊢
  by_cases hrole : node.role = Role.leader
  · rw [if_pos hrole] at haction hfixed ⊢
    by_cases hvoter : (!node.isVoter &&
        decide (node.commitIndex >= node.membershipIndex)) = true
    · rw [if_pos hvoter] at haction
      exact absurd haction List.not_mem_nil
    · rw [if_neg hvoter] at haction hfixed ⊢
      dsimp only at haction hfixed ⊢
      have hbeats : Simulated B a n
          (if node.heartbeatElapsed + 1 >= node.config.heartbeatTicks then
            Node.broadcastAppend { node with heartbeatElapsed := 0 }
          else ({ node with
            heartbeatElapsed := node.heartbeatElapsed + 1 }, [])) ∧
          Latest
          (if node.heartbeatElapsed + 1 >= node.config.heartbeatTicks then
            Node.broadcastAppend { node with heartbeatElapsed := 0 }
          else ({ node with
            heartbeatElapsed := node.heartbeatElapsed + 1 }, [])) := by
        split
        · exact ⟨NodeOk.broadcastAppend hinv { h with } hrole,
            latest_broadcastAppend hrole⟩
        · exact ⟨simulated_quiet { h with }, latest_nil _⟩
      generalize (if node.heartbeatElapsed + 1 >=
          node.config.heartbeatTicks then
            Node.broadcastAppend { node with heartbeatElapsed := 0 }
          else ({ node with
            heartbeatElapsed := node.heartbeatElapsed + 1 }, [])) =
        beaten at hbeats haction hfixed ⊢
      rcases beaten with ⟨next, beats⟩
      rcases hbeats with ⟨⟨b, _, hnext, _⟩, hlatest⟩
      dsimp only at haction hfixed ⊢
      rcases maybePromote_cases next with hquiet | hconfig
      · rw [hquiet, List.append_nil] at haction
        rw [hquiet, checkQuorum_storage]
        exact hnext.knownIn_sent (hlatest action haction)
      · exfalso
        apply hfixed
        unfold HoldsConfig
        rw [checkQuorum_storage]
        exact hconfig
  · rw [if_neg hrole] at haction hfixed ⊢
    dsimp only at haction ⊢
    split at haction
    · split at haction
      · next hdue hvoter =>
          rw [if_pos hdue, if_pos hvoter]
          have hsim : Simulated B a n (Node.becomePreCandidate
              { node with electionElapsed := node.electionElapsed + 1 }) :=
            NodeOk.becomePreCandidate hinv { h with }
          rcases hsim with ⟨b, _, hnext, _⟩
          exact hnext.knownIn_sent (latest_becomePreCandidate _ action haction)
      · exact absurd haction List.not_mem_nil
    · exact absurd haction List.not_mem_nil

end Operations

/-!
# What an event puts on the network
-/

section Cluster

variable {c : Cluster} {a : Past}

def Cluster.fresh (c : Cluster) (event : Event) : List Envelope :=
  (c.next event).network.drop c.network.length

theorem known_act {n : NodeId} {result : Node × List Action}
    (h : forall action, action ∈ result.2 ->
      KnownIn result.1.storage action.message) {envelope : Envelope}
    (hin : envelope ∈ (c.act n result).network.drop c.network.length) :
    KnownIn ((c.act n result).nodes envelope.sender).storage
      envelope.message := by
  unfold Cluster.act at hin
  rw [List.drop_left] at hin
  rcases List.mem_map.mp hin with ⟨action, haction, rfl⟩
  rw [Cluster.act_nodes_self]
  exact h action haction

theorem known_latest {n : NodeId} {result : Node × List Action} {B : List Member}
    (h : NodeOk B a n result.1) (hlatest : Latest result) : forall action,
    action ∈ result.2 -> KnownIn result.1.storage action.message :=
  fun action haction => h.knownIn_sent (hlatest action haction)

theorem nothing_fresh {n : NodeId} {node : Node} {envelope : Envelope}
    (hin : envelope ∈ (c.act n (node, [])).network.drop c.network.length) :
    False := by
  unfold Cluster.act at hin
  rw [List.drop_left] at hin
  cases hin

theorem Related.known (h : Related c a) {event : Event}
    (henabled : c.Enabled event) (hfixed : (c.next event).FixedMembership)
    {envelope : Envelope} (hin : envelope ∈ c.fresh event) :
    KnownIn ((c.next event).nodes envelope.sender).storage
      envelope.message := by
  rcases h.next henabled hfixed with ⟨b, _, hnext⟩
  have hunsent : envelope ∉ c.network.drop c.network.length := by
    rw [List.drop_length]
    exact List.not_mem_nil
  have hacted : forall {n : NodeId} {result : Node × List Action},
      c.next event = c.act n result -> Latest result ->
        KnownIn ((c.next event).nodes envelope.sender).storage
          envelope.message := by
    intro n result heq hlatest
    have hnode := hnext.nodes n
    unfold Cluster.fresh at hin
    rw [heq] at hnode hin ⊢
    rw [Cluster.act_nodes_self] at hnode
    exact known_act (known_latest hnode hlatest) hin
  cases event with
  | tick n =>
      have hholds := not_holdsConfig hfixed n
      simp only [Cluster.next, Cluster.act_nodes_self] at hholds
      exact known_act (fun _ haction =>
        (h.nodes n).knownIn_tick h.inv hholds haction) hin
  | campaign n => exact hacted rfl (latest_campaign _)
  | preVote n => exact hacted rfl (latest_preVote _)
  | propose n command =>
      cases hok : (c.nodes n).propose command with
      | error why =>
          simp only [Cluster.fresh, Cluster.next, hok, Cluster.accepted] at hin
          exact absurd hin hunsent
      | ok answer =>
          rcases answer with ⟨next, index, actions⟩
          apply hacted (n := n) _ (latest_propose hok)
          simp only [Cluster.next, hok, Cluster.accepted]
  | proposeBatch n commands =>
      cases hok : (c.nodes n).proposeBatch commands with
      | error why =>
          simp only [Cluster.fresh, Cluster.next, hok, Cluster.accepted] at hin
          exact absurd hin hunsent
      | ok answer =>
          rcases answer with ⟨next, answers, actions⟩
          apply hacted (n := n) _ (latest_proposeBatch hok)
          simp only [Cluster.next, hok, Cluster.accepted]
  | proposeMembership n members =>
      cases hok : (c.nodes n).proposeMembership members with
      | error why =>
          simp only [Cluster.fresh, Cluster.next, hok, Cluster.accepted] at hin
          exact absurd hin hunsent
      | ok answer =>
          rcases answer with ⟨next, index, actions⟩
          exfalso
          apply not_holdsConfig hfixed n
          simp only [Cluster.next, hok, Cluster.accepted,
            Cluster.act_nodes_self]
          exact proposeMembership_holdsConfig hok
  | setAutoPromote n on => exact hacted rfl (latest_nil _)
  | readIndex n => exact hacted rfl (latest_readIndex _)
  | forgetRead n request => exact hacted rfl (latest_nil _)
  | takeCommitted n => exact hacted rfl (latest_nil _)
  | beginCompaction n index =>
      unfold Cluster.fresh Cluster.next at hin
      dsimp only at hin
      split at hin
      · exact absurd hin hunsent
      · exact absurd hin hunsent
  | finishCompaction n sink data => exact absurd hin nothing_fresh
  | deliver envelope => exact hacted rfl (latest_step _ _ _)
  | restart n config => exact absurd hin nothing_fresh

end Cluster

/-!
# Every run
-/

/-- In every run of a cluster with a fixed membership, a leader takes every replica
to continue between its first index and the one after its last, and to hold no more
than it holds itself; what it would send now, and what any event makes a node send,
names a term that the sender's log has at that index. -/
theorem leader_knows_terms {B : List Member} {configs : NodeId -> Config}
    {c : Cluster} (hrun : FixedRun (start B configs) c) :
    (forall n, (c.nodes n).role = Role.leader -> forall p,
      1 <= (c.nodes n).nextFor p ∧
      (c.nodes n).nextFor p <= (c.nodes n).lastIndex + 1 ∧
      (c.nodes n).matchFor p <= (c.nodes n).lastIndex ∧
      KnownIn (c.nodes n).storage ((c.nodes n).appendMessageFor p).message ∧
      forall action, action ∈ (c.nodes n).openReadRound.2.1 ->
        KnownIn (c.nodes n).storage action.message) ∧
    forall event, c.Enabled event -> (c.next event).FixedMembership ->
      forall envelope, envelope ∈ c.fresh event ->
        KnownIn ((c.next event).nodes envelope.sender).storage
          envelope.message := by
  rcases (related_start B configs).run hrun with ⟨a, _, hrelated⟩
  constructor
  · intro n hrole p
    have hnode := hrelated.nodes n
    have hinv := hrelated.inv
    have hnext := hnode.nextFor hrole p
    rw [← hnode.lastIndex] at hnext
    constructor
    · exact hnext.1
    · constructor
      · exact hnext.2
      · constructor
        · exact hnode.matchFor_le hinv hrole p
        · constructor
          · exact hnode.knownIn_sent (Sent.append p hrole)
          · intro action haction
            exact hnode.knownIn_sent
              (sent_openReadRound hrole (c.nodes n).seq (c.nodes n).remoteReads
                haction)
  · intro event henabled hfixed envelope hin
    exact hrelated.known henabled hfixed hin

theorem leader_knows_terms_pair :
    (pairMid.nodes 1).role = Role.leader ∧
      1 <= (pairMid.nodes 1).nextFor 2 ∧
      (pairMid.nodes 1).nextFor 2 <= (pairMid.nodes 1).lastIndex + 1 ∧
      (pairMid.nodes 1).matchFor 2 <= (pairMid.nodes 1).lastIndex ∧
      KnownIn (pairMid.nodes 1).storage
        ((pairMid.nodes 1).appendMessageFor 2).message := by
  have hrole : (pairMid.nodes 1).role = Role.leader := by decide
  rcases (leader_knows_terms pair_runs.1).1 1 hrole 2 with
    ⟨hlow, hhigh, hmatch, hknown, _⟩
  exact ⟨hrole, hlow, hhigh, hmatch, hknown⟩

end Raft
end Minicask
