import Minicask.Raft.MembershipInForce
import Minicask.Raft.Network
import Minicask.Raft.Refinement.Run

/-!
# The commit index

A follower that hears of a higher commit index takes the smaller of that and the end
of the message.  A message that ends below what the follower has already committed
takes it back; nothing else does.
-/

namespace Minicask
namespace Raft

/-- A message of a leader that has committed more than the node, which the node accepts
and which ends below what it has committed. -/
def DragsBack (n : Node) : Message -> Prop
  | Message.appendEntries term prevLogIndex prevLogTerm entries leaderCommit _ =>
      n.term <= term ∧
        Accepts n.storage.log prevLogIndex prevLogTerm entries ∧
        prevLogIndex + entries.length < n.commitIndex ∧
        n.commitIndex < leaderCommit
  | _ => False

/-- A message that the node accepts, with an entry in the place of another that the
node has committed. -/
def Displaces (n : Node) : Message -> Prop
  | Message.appendEntries term prevLogIndex prevLogTerm entries _ _ =>
      n.term <= term ∧
        Accepts n.storage.log prevLogIndex prevLogTerm entries ∧
        exists e old, e ∈ entries ∧ e.index <= n.commitIndex ∧
          n.storage.entry e.index = some old ∧ old.term ≠ e.term
  | _ => False

/-- The commit index and what was applied have moved forward. -/
structure Advanced (n n' : Node) : Prop where
  commit : n.commitIndex <= n'.commitIndex
  applied : n.lastApplied <= n'.lastApplied
  within : n.lastApplied <= n.commitIndex -> n'.lastApplied <= n'.commitIndex

theorem Advanced.refl (n : Node) : Advanced n n :=
  ⟨Nat.le_refl _, Nat.le_refl _, fun h => h⟩

theorem Advanced.trans {n n' n'' : Node} (h : Advanced n n')
    (h' : Advanced n' n'') : Advanced n n'' :=
  ⟨Nat.le_trans h.commit h'.commit, Nat.le_trans h.applied h'.applied,
    fun hwithin => h'.within (h.within hwithin)⟩

theorem advanced_of_eq {n n' : Node} (hcommit : n'.commitIndex = n.commitIndex)
    (happlied : n'.lastApplied = n.lastApplied) : Advanced n n' := by
  refine ⟨Nat.le_of_eq hcommit.symm, Nat.le_of_eq happlied.symm, ?_⟩
  rw [hcommit, happlied]
  exact id

theorem Idle.advanced {n n' : Node} (h : Idle n n') : Advanced n n' :=
  advanced_of_eq (congrArg Core.commitIndex h.core)
    (congrArg Core.lastApplied h.core)

theorem advanced_reloadMembership (n : Node) : Advanced n n.reloadMembership :=
  advanced_of_eq (commitIndex_reloadMembership n) (lastApplied_reloadMembership n)

theorem advanced_acceptEntries (n : Node) (prev : Nat) (entries : List Entry) :
    (n.acceptEntries prev entries).commitIndex = n.commitIndex ∧
      (n.acceptEntries prev entries).lastApplied = n.lastApplied := by
  obtain ⟨appendFrom, conflict, _, hreload | ⟨_, _, hsame⟩⟩ :=
    acceptEntries_cases n prev entries
  · rw [hreload]
    exact ⟨commitIndex_reloadMembership _, lastApplied_reloadMembership _⟩
  · rw [hsame]
    exact ⟨rfl, rfl⟩

theorem advanced_handleAppendEntries (n : Node) (sender : NodeId)
    {prevLogIndex prevLogTerm : Nat} {entries : List Entry} {leaderCommit : Nat}
    (seq : Nat)
    (hends : Accepts n.storage.log prevLogIndex prevLogTerm entries ->
      n.commitIndex < leaderCommit ->
        n.commitIndex <= prevLogIndex + entries.length) :
    Advanced n (n.handleAppendEntries sender prevLogIndex prevLogTerm entries
      leaderCommit seq).1 := by
  rcases handleAppendEntries_cases n sender prevLogIndex prevLogTerm entries
    leaderCommit seq with hidle | ⟨middle, prev, prevTerm, rest, hidle, hstorage,
      hpast, hterm, heq⟩
  · exact hidle.advanced
  · obtain ⟨hcommit, happlied⟩ := advanced_acceptEntries middle prev rest
    have hend := (pastSnapshot_end hpast).1
    refine hidle.advanced.trans ?_
    have hmiddle : middle.commitIndex = n.commitIndex :=
      congrArg Core.commitIndex hidle.core
    have hforward : middle.commitIndex <=
        (n.handleAppendEntries sender prevLogIndex prevLogTerm entries
          leaderCommit seq).1.commitIndex := by
      rw [heq]
      dsimp only
      split
      · next hhigher =>
          rw [hcommit, hmiddle] at hhigher
          have hcovers := hends ⟨prev, prevTerm, rest, hpast, hterm⟩ hhigher
          omega
      · exact Nat.le_of_eq hcommit.symm
    have hsame : (n.handleAppendEntries sender prevLogIndex prevLogTerm entries
        leaderCommit seq).1.lastApplied = middle.lastApplied := by
      rw [heq]
      exact happlied
    refine ⟨hforward, Nat.le_of_eq hsame.symm, ?_⟩
    intro hwithin
    rw [hsame]
    exact Nat.le_trans hwithin hforward

theorem advanced_handleInstallSnapshot (n : Node) (sender : NodeId)
    (about : SnapshotMeta) (offset : Nat) (data : Bytes) (done : Bool) (seq : Nat)
    (members : Option (List Member)) :
    Advanced n (n.handleInstallSnapshot sender about offset data done seq
      members).1 := by
  obtain ⟨middle, hidle, _, hsame | hdropped | ⟨_, hkept | ⟨_, hmore |
    ⟨_, hlast⟩⟩⟩⟩ := handleInstallSnapshot_cases n sender about offset data done
      seq members
  · rw [hsame]
    exact hidle.advanced
  · rw [hdropped]
    exact hidle.advanced.trans (advanced_of_eq rfl rfl)
  · rw [hkept]
    exact hidle.advanced.trans (advanced_of_eq rfl rfl)
  · rw [hmore]
    exact hidle.advanced.trans (advanced_of_eq rfl rfl)
  · rw [hlast]
    refine hidle.advanced.trans ?_
    unfold Node.installReceived
    dsimp only
    rw [commitIndex_reloadMembership, lastApplied_reloadMembership]
    refine ⟨Nat.le_max_left _ _, Nat.le_max_left _ _, ?_⟩
    intro hwithin
    dsimp only
    omega

/-- A move keeps to the order, as long as no message ends below what was
committed. -/
theorem advanced_move {inputs : Inputs} {n n' : Node}
    (hheard : forall core sender term prevLogIndex prevLogTerm entries leaderCommit
      seq, inputs.heard core sender (Message.appendEntries term prevLogIndex
        prevLogTerm entries leaderCommit seq) ->
      Accepts core.log prevLogIndex prevLogTerm entries ->
        core.commitIndex < leaderCommit ->
          core.commitIndex <= prevLogIndex + entries.length)
    (hmove : Move inputs n n') : Advanced n n' := by
  cases hmove with
  | idle hidle => exact hidle.advanced
  | reload => exact advanced_reloadMembership n
  | lead => exact advanced_of_eq rfl rfl
  | extend es hfresh => exact advanced_of_eq rfl rfl
  | configure members hadmitted =>
      exact advanced_of_eq (commitIndex_reloadMembership _)
        (lastApplied_reloadMembership _)
  | commit index hleader hhigher hheld =>
      exact ⟨Nat.le_of_lt hhigher, Nat.le_refl _,
        fun hwithin => Nat.le_trans hwithin (Nat.le_of_lt hhigher)⟩
  | entries sender prevLogIndex prevLogTerm entries leaderCommit seq hmessage =>
      exact advanced_handleAppendEntries n sender seq
        (hheard _ _ _ _ _ _ _ _ hmessage)
  | snapshot sender about offset data done seq members hmessage =>
      exact advanced_handleInstallSnapshot n sender about offset data done seq
        members

theorem advanced_moves {inputs : Inputs} {n n' : Node}
    (hheard : forall core sender term prevLogIndex prevLogTerm entries leaderCommit
      seq, inputs.heard core sender (Message.appendEntries term prevLogIndex
        prevLogTerm entries leaderCommit seq) ->
      Accepts core.log prevLogIndex prevLogTerm entries ->
        core.commitIndex < leaderCommit ->
          core.commitIndex <= prevLogIndex + entries.length)
    (hmoves : Moves inputs n n') : Advanced n n' := by
  induction hmoves with
  | refl => exact Advanced.refl n
  | tail _ hmove ih => exact ih.trans (advanced_move hheard hmove)

/-- No message takes the commit index back. -/
def Forward (host : Host) : Operation -> Prop
  | Operation.receive _ message => ¬ DragsBack host.node message
  | _ => True

/-- Unless it restarts, a host keeps to the order. -/
theorem advanced_step {host : Host} {operation : Operation}
    (hforward : Forward host operation) (hrestart : operation.isRestart = false) :
    Advanced host.node (host.run operation).1.node := by
  have hmoves : forall {result : Node × List Action},
      Ran (operation.inputs host.node) host.node result ->
        (forall sender message, operation = Operation.receive sender message ->
          message.carriesBytes = true -> host.node.term <= message.term) ->
        Advanced host.node result.1 := by
    intro result hran hterm
    refine advanced_moves ?_ hran.moves
    intro core sender term prevLogIndex prevLogTerm entries leaderCommit seq hheard
      haccepts hhigher
    cases operation with
    | receive origin received =>
        obtain ⟨rfl, rfl, rfl⟩ := hheard
        by_contra hbelow
        exact hforward ⟨hterm sender _ rfl rfl, haccepts,
          Nat.lt_of_not_le hbelow, hhigher⟩
    | _ => exact hheard.elim
  rcases host.stale_or_current operation with hsame | hcurrent
  · rw [hsame]
    exact Advanced.refl _
  · have hstep := Host.step host operation
    generalize host.run operation = result at hstep ⊢
    cases hstep with
    | moves hran => exact hmoves hran hcurrent
    | take hop =>
        refine ⟨Nat.le_refl _, Nat.le_max_left _ _, ?_⟩
        intro hwithin
        exact Nat.max_le.mpr ⟨hwithin, Nat.le_refl _⟩
    | begin index sink hbegin => exact Advanced.refl _
    | finish sink data hop =>
        dsimp only
        unfold Node.finishCompaction
        split
        · exact Advanced.refl _
        · exact advanced_of_eq rfl rfl
    | restart config hop =>
        subst hop
        cases hrestart

/-- A restarted node knows of what its snapshot covers, and of nothing more. -/
theorem start_indices (id : NodeId) (bootstrap : List Member) (config : Config)
    (storage : MemStorage) :
    (Host.start id bootstrap config storage).node.commitIndex =
        storage.snapshotMeta.index ∧
      (Host.start id bootstrap config storage).node.lastApplied =
        storage.snapshotMeta.index ∧
      (Host.start id bootstrap config storage).node.storage = storage := by
  unfold Host.start Node.withMembers
  dsimp only
  rw [commitIndex_reloadMembership, lastApplied_reloadMembership,
    storage_reloadMembership]
  exact ⟨rfl, rfl, rfl⟩

theorem within_step {host : Host} {operation : Operation}
    (hforward : Forward host operation)
    (h : host.node.lastApplied <= host.node.commitIndex) :
    (host.run operation).1.node.lastApplied <=
      (host.run operation).1.node.commitIndex := by
  cases hrestart : operation.isRestart with
  | false => exact (advanced_step hforward hrestart).within h
  | true =>
      cases operation with
      | restart config =>
          obtain ⟨hcommit, happlied, _⟩ := start_indices host.node.id
            host.node.bootstrap config host.node.storage
          show (Host.start _ _ _ _).node.lastApplied <=
            (Host.start _ _ _ _).node.commitIndex
          rw [hcommit, happlied]
      | _ => cases hrestart

/-!
# The end of the log
-/

theorem bounded_of_lastIndex {n n' : Node} (h : n.commitIndex <= n.lastIndex)
    (hcommit : n'.commitIndex = n.commitIndex)
    (hlast : n.lastIndex <= n'.lastIndex) : n'.commitIndex <= n'.lastIndex := by
  rw [hcommit]
  exact Nat.le_trans h hlast

/-- Entries that conflict with nothing committed leave what was committed, and those
of the message are there as well. -/
theorem bounded_handleAppendEntries {n : Node}
    (hfollows : Follows n.storage.log.base.index n.storage.log.entries)
    (h : n.commitIndex <= n.lastIndex) (sender : NodeId)
    {prevLogIndex prevLogTerm : Nat} {entries : List Entry}
    (leaderCommit seq : Nat) (hentries : Follows prevLogIndex entries)
    (hagree : Accepts n.storage.log prevLogIndex prevLogTerm entries ->
      forall e old, e ∈ entries -> e.index <= n.commitIndex ->
        n.storage.log.entry e.index = some old -> old.term = e.term) :
    (n.handleAppendEntries sender prevLogIndex prevLogTerm entries leaderCommit
        seq).1.commitIndex <=
      (n.handleAppendEntries sender prevLogIndex prevLogTerm entries leaderCommit
        seq).1.lastIndex := by
  rcases handleAppendEntries_cases n sender prevLogIndex prevLogTerm entries
    leaderCommit seq with hidle | ⟨middle, prev, prevTerm, rest, hidle, hstorage,
      hpast, hterm, heq⟩
  · refine bounded_of_lastIndex h (congrArg Core.commitIndex hidle.core) ?_
    exact Nat.le_of_eq (congrArg (fun core => core.log.lastIndex) hidle.core).symm
  · have hagrees := hagree ⟨prev, prevTerm, rest, hpast, hterm⟩
    obtain ⟨hrest, hsuffix⟩ := pastSnapshot_follows hentries hpast
    obtain ⟨hcommit, _⟩ := advanced_acceptEntries middle prev rest
    have hmiddle : middle.commitIndex = n.commitIndex :=
      congrArg Core.commitIndex hidle.core
    have hlast : n.lastIndex =
        n.storage.log.base.index + n.storage.log.entries.length :=
      hfollows.lastIndex
    rw [← hstorage] at hfollows hterm hlast hagrees
    obtain ⟨keep, fresh, hover⟩ := acceptEntries_log hfollows hrest hterm
    have hend : (middle.acceptEntries prev rest).lastIndex =
        middle.storage.log.base.index +
          (middle.storage.log.entries.take keep ++ fresh).length := by
      show (middle.acceptEntries prev rest).storage.log.lastIndex = _
      rw [hover.log]
      exact Follows.lastIndex hover.follows
    have hkept : n.commitIndex <= (middle.acceptEntries prev rest).lastIndex := by
      rw [hend, List.length_append, List.length_take]
      rcases Nat.lt_or_ge keep middle.storage.log.entries.length with hcut | hall
      · obtain ⟨e, old, hmem, hold, hindex, hne⟩ := hover.conflict hcut
        have hpast : n.commitIndex < e.index := by
          by_contra hlow
          refine hne (hagrees e old (hsuffix.subset hmem) (Nat.le_of_not_lt hlow) ?_)
          rw [hfollows.entry, if_pos (by omega), ← hold]
          congr 1
          omega
        omega
      · omega
    have hcovers := hover.covers
    rw [heq]
    show (if leaderCommit > (middle.acceptEntries prev rest).commitIndex then
        min leaderCommit (prev + rest.length)
      else (middle.acceptEntries prev rest).commitIndex) <=
        (middle.acceptEntries prev rest).lastIndex
    split
    · rw [hend]
      omega
    · rw [hcommit, hmiddle]
      exact hkept

theorem bounded_handleInstallSnapshot {n : Node}
    (hfollows : Follows n.storage.log.base.index n.storage.log.entries)
    (h : n.commitIndex <= n.lastIndex) (sender : NodeId) (about : SnapshotMeta)
    (offset : Nat) (data : Bytes) (done : Bool) (seq : Nat)
    (members : Option (List Member)) :
    (n.handleInstallSnapshot sender about offset data done seq
        members).1.commitIndex <=
      (n.handleInstallSnapshot sender about offset data done seq
        members).1.lastIndex := by
  obtain ⟨middle, hidle, hstorage, hcases⟩ := handleInstallSnapshot_cases n sender
    about offset data done seq members
  have hcommit : middle.commitIndex = n.commitIndex :=
    congrArg Core.commitIndex hidle.core
  have hmiddle : middle.commitIndex <= middle.lastIndex := by
    rw [hcommit]
    unfold Node.lastIndex
    rw [hstorage]
    exact h
  rcases hcases with hsame | hdropped | ⟨hnewer, hkept | ⟨_, hmore | ⟨_, hlast⟩⟩⟩
  · rw [hsame]
    exact hmiddle
  · rw [hdropped]
    exact hmiddle
  · rw [hkept]
    exact hmiddle
  · rw [hmore]
    exact hmiddle
  · have habout := Node.continuing_about n sender about members
    rw [hlast]
    generalize hsink : ((n.continuing sender about).getD
      (MemStorage.newSnapshot about members)).writeAll data = sink
    have hindex : sink.about = about := by
      rw [← hsink]
      exact habout
    have hbase := MemStorage.base_installSnapshot middle.storage sink
    rw [← hstorage] at hfollows
    have hinstalled := MemStorage.follows_installSnapshot sink hfollows
    unfold Node.installReceived
    dsimp only
    rw [commitIndex_reloadMembership]
    show max middle.commitIndex about.index <= (Node.reloadMembership _).lastIndex
    rw [lastIndex_reloadMembership]
    show _ <= (middle.storage.installSnapshot sink).log.lastIndex
    rw [hinstalled.lastIndex]
    rw [hindex] at hbase
    omega

/-- Messages without gaps that replace nothing committed. -/
def KeepsCommitted (core : Core) : Message -> Prop
  | Message.appendEntries _ prevLogIndex prevLogTerm entries _ _ =>
      Follows prevLogIndex entries ∧
        (Accepts core.log prevLogIndex prevLogTerm entries ->
          forall e old, e ∈ entries -> e.index <= core.commitIndex ->
            core.log.entry e.index = some old -> old.term = e.term)
  | _ => True

theorem bounded_move {inputs : Inputs} {n n' : Node}
    (hheard : forall core sender message, inputs.heard core sender message ->
      KeepsCommitted core message)
    (hfollows : Follows n.storage.log.base.index n.storage.log.entries)
    (h : n.commitIndex <= n.lastIndex) (hmove : Move inputs n n') :
    n'.commitIndex <= n'.lastIndex := by
  have happend : forall es, Follows n.lastIndex es ->
      n.lastIndex <= (n.storage.append es).lastIndex := by
    intro es hes
    rw [hfollows.lastIndex_append hes]
    exact Nat.le_add_right _ _
  cases hmove with
  | idle hidle =>
      refine bounded_of_lastIndex h (congrArg Core.commitIndex hidle.core) ?_
      exact Nat.le_of_eq
        (congrArg (fun core => core.log.lastIndex) hidle.core).symm
  | reload =>
      exact bounded_of_lastIndex h (commitIndex_reloadMembership n)
        (Nat.le_of_eq (lastIndex_reloadMembership n).symm)
  | lead => exact bounded_of_lastIndex h rfl (happend _ ⟨rfl, trivial⟩)
  | extend es hfresh =>
      exact bounded_of_lastIndex h rfl
        (happend es (Follows.of_index hfresh.index))
  | configure members hadmitted =>
      refine bounded_of_lastIndex h (commitIndex_reloadMembership _) ?_
      rw [lastIndex_reloadMembership]
      exact happend _ ⟨rfl, trivial⟩
  | commit index hleader hhigher hheld =>
      have hlast : n.lastIndex = _ := hfollows.lastIndex
      show index <= n.lastIndex
      rw [hlast]
      exact (hfollows.termAt_le hheld).2
  | entries sender prevLogIndex prevLogTerm entries leaderCommit seq hmessage =>
      obtain ⟨hentries, hagree⟩ := hheard _ _ _ hmessage
      exact bounded_handleAppendEntries hfollows h sender leaderCommit seq hentries
        hagree
  | snapshot sender about offset data done seq members hmessage =>
      exact bounded_handleInstallSnapshot hfollows h sender about offset data done
        seq members

theorem bounded_moves {inputs : Inputs} {n n' : Node}
    (hheard : forall core sender message, inputs.heard core sender message ->
      KeepsCommitted core message)
    (hfollows : Follows n.storage.log.base.index n.storage.log.entries)
    (h : n.commitIndex <= n.lastIndex) (hmoves : Moves inputs n n') :
    n'.commitIndex <= n'.lastIndex := by
  have hcontiguous : forall core sender message,
      inputs.heard core sender message -> Contiguous message := by
    intro core sender message hmessage
    have hkeeps := hheard core sender message hmessage
    cases message with
    | appendEntries => exact hkeeps.1
    | _ => trivial
  induction hmoves with
  | refl => exact h
  | tail hbefore hmove ih =>
      exact bounded_move hheard (follows_moves hcontiguous hfollows hbefore) ih hmove

/-- A node that has applied no more than it committed, and committed no more than it
holds. -/
structure InOrder (host : Host) : Prop where
  accounted : Accounted host.node host.sinks
  within : host.node.lastApplied <= host.node.commitIndex
  held : host.node.commitIndex <= host.node.lastIndex

/-- No message replaces what was committed. -/
def Undisplaced (host : Host) : Operation -> Prop
  | Operation.receive _ message => ¬ Displaces host.node message
  | _ => True

section Step

variable {host : Host} {operation : Operation}
  (hcontiguous : forall sender message,
    operation = Operation.receive sender message -> Contiguous message)
  (hundisplaced : Undisplaced host operation)

include hcontiguous hundisplaced

theorem InOrder.respects (h : InOrder host) : RespectsApplied host operation := by
  cases operation with
  | receive sender message =>
      intro hterm
      cases message with
      | appendEntries term prevLogIndex prevLogTerm entries leaderCommit seq =>
          intro haccepts
          refine ⟨hcontiguous sender _ rfl, ?_⟩
          intro e old hmem hindex hold
          by_contra hne
          exact hundisplaced ⟨hterm, haccepts, e, old, hmem,
            Nat.le_trans hindex h.within, hold, hne⟩
      | installSnapshot term lastIndex lastTerm offset data done seq members =>
          have hwithin : host.node.core.lastApplied <= host.node.core.commitIndex :=
            h.within
          show lastIndex <= host.node.core.commitIndex ∨ _ < lastIndex
          omega
      | _ => trivial
  | _ => trivial

theorem keepsCommitted_heard
    (hcurrent : forall sender message,
      operation = Operation.receive sender message ->
        message.carriesBytes = true -> host.node.term <= message.term)
    (core : Core) (sender : NodeId) (message : Message)
    (hheard : (operation.inputs host.node).heard core sender message) :
    KeepsCommitted core message := by
  cases operation with
  | receive origin received =>
      obtain ⟨rfl, rfl, rfl⟩ := hheard
      cases message with
      | appendEntries term prevLogIndex prevLogTerm entries leaderCommit seq =>
          refine ⟨hcontiguous sender _ rfl, ?_⟩
          intro haccepts e old hmem hindex hold
          by_contra hne
          exact hundisplaced ⟨hcurrent sender _ rfl rfl, haccepts, e, old, hmem,
            hindex, hold, hne⟩
      | _ => trivial
  | _ => exact hheard.elim

theorem InOrder.bounded (h : InOrder host) (henabled : host.Enabled operation) :
    (host.run operation).1.node.commitIndex <=
      (host.run operation).1.node.lastIndex := by
  rcases host.stale_or_current operation with hsame | hcurrent
  · rw [hsame]
    exact h.held
  · have hstep := Host.step host operation
    generalize host.run operation = result at hstep ⊢
    cases hstep with
    | moves hran =>
        exact bounded_moves
          (keepsCommitted_heard hcontiguous hundisplaced hcurrent)
          h.accounted.follows h.held hran.moves
    | take hop => exact h.held
    | begin index sink hbegin => exact h.held
    | finish sink data hop =>
        subst hop
        have hsink := h.accounted.sinks sink henabled
        dsimp only
        rcases Nat.lt_or_ge host.node.storage.log.base.index sink.about.index with
          hnewer | hstale
        · have hfollows := follows_compacted h.accounted.follows hsink hnewer
            (sink.data ++ data)
          have hlast : host.node.lastIndex = _ := h.accounted.follows.lastIndex
          have hheld := h.held
          obtain ⟨hterm, _⟩ := hsink.agrees.resolve_left (Nat.not_le.mpr hnewer)
          have hend := (h.accounted.follows.termAt_le hterm).2
          rw [finishCompaction_eq h.accounted.follows hsink hnewer]
          show host.node.commitIndex <= EntryLog.lastIndex _
          rw [hfollows.lastIndex]
          show _ <= sink.about.index + (List.drop _ _).length
          rw [List.length_drop]
          omega
        · unfold Node.finishCompaction
          rw [if_pos (show (sink.writeAll data).about.index <=
            host.node.storage.snapshotMeta.index from hstale)]
          exact h.held
    | restart config hop =>
        obtain ⟨hcommit, _, hstorage⟩ := start_indices host.node.id
          host.node.bootstrap config host.node.storage
        show (Host.start _ _ _ _).node.commitIndex <=
          (Host.start _ _ _ _).node.storage.lastIndex
        rw [hcommit, hstorage]
        show host.node.storage.log.base.index <= host.node.storage.log.lastIndex
        rw [h.accounted.follows.lastIndex]
        exact Nat.le_add_right _ _

theorem InOrder.step (h : InOrder host) (henabled : host.Enabled operation)
    (hforward : Forward host operation) : InOrder (host.run operation).1 where
  accounted := h.accounted.step henabled (h.respects hcontiguous hundisplaced)
  within := within_step hforward h.within
  held := h.bounded hcontiguous hundisplaced henabled

end Step

theorem inOrder_start (id : NodeId) (bootstrap : List Member) (config : Config) :
    InOrder (Host.start id bootstrap config {}) := by
  obtain ⟨hcommit, happlied, hstorage⟩ := start_indices id bootstrap config {}
  refine ⟨accounted_start id bootstrap config trivial, ?_, ?_⟩
  · rw [hcommit, happlied]
  · rw [hcommit]
    exact Nat.zero_le _

/-!
# One membership for good

Where every node starts with the same membership and no run changes it, hosts are the
nodes of a cluster, and what was committed is never replaced.
-/

namespace Network

def cluster (bootstrap : List Member) (net : Network) : Cluster where
  bootstrap := bootstrap
  nodes n := (net.hosts n).node
  network := net.sent
  sinks n := (net.hosts n).sinks

def FixedMembership (net : Network) : Prop :=
  forall n e, e ∈ (net.hosts n).node.storage.log.entries ->
    e.command.isConfig = false

end Network

def Operation.event (n : NodeId) : Operation -> Event
  | Operation.tick => Event.tick n
  | Operation.campaign => Event.campaign n
  | Operation.preVote => Event.preVote n
  | Operation.propose command => Event.propose n command
  | Operation.proposeBatch commands => Event.proposeBatch n commands
  | Operation.proposeMembership members => Event.proposeMembership n members
  | Operation.setAutoPromote on => Event.setAutoPromote n on
  | Operation.readIndex => Event.readIndex n
  | Operation.forgetRead request => Event.forgetRead n request
  | Operation.receive sender message =>
      Event.deliver { sender := sender, dest := n, message := message }
  | Operation.takeCommitted => Event.takeCommitted n
  | Operation.beginCompaction index => Event.beginCompaction n index
  | Operation.finishCompaction sink data => Event.finishCompaction n sink data
  | Operation.restart config => Event.restart n config

namespace Network

variable {B : List Member} {net : Network} {n : NodeId}

theorem cluster_next_eq {operation : Operation} {result : Host × List Action}
    (hrun : (net.hosts n).run operation = result) {c : Cluster}
    (hbootstrap : c.bootstrap = B)
    (hnodes : c.nodes =
      Function.update (fun m => (net.hosts m).node) n result.1.node)
    (hsent : c.network = net.sent ++ result.2.map (fun action =>
      { sender := n, dest := action.dest, message := action.message }))
    (hsinks : c.sinks =
      Function.update (fun m => (net.hosts m).sinks) n result.1.sinks) :
    (net.next n operation).cluster B = c := by
  subst hrun
  obtain ⟨bootstrap, nodes, sent, sinks⟩ := c
  dsimp only at hbootstrap hnodes hsent hsinks
  subst hbootstrap hnodes hsent hsinks
  unfold cluster next
  congr 1
  · funext m
    exact Function.apply_update (fun _ host => Host.node host) net.hosts n _ m
  · funext m
    exact Function.apply_update (fun _ host => Host.sinks host) net.hosts n _ m

theorem cluster_act {operation : Operation} {result : Node × List Action}
    (hrun : (net.hosts n).run operation = (net.hosts n).act result) :
    (net.next n operation).cluster B = (net.cluster B).act n result := by
  refine cluster_next_eq hrun rfl rfl rfl ?_
  exact (Function.update_eq_self n _).symm

theorem cluster_same {operation : Operation}
    (hrun : (net.hosts n).run operation = (net.hosts n, [])) :
    (net.next n operation).cluster B = net.cluster B := by
  refine cluster_next_eq hrun rfl ?_ (List.append_nil _).symm ?_
  · exact (Function.update_eq_self n _).symm
  · exact (Function.update_eq_self n _).symm

theorem cluster_accepted {answer : Type} {operation : Operation}
    {result : Except ProposeError (Node × answer × List Action)}
    (hrun : (net.hosts n).run operation = (net.hosts n).accepted result) :
    (net.next n operation).cluster B = (net.cluster B).accepted n result := by
  cases result with
  | error e => exact cluster_same hrun
  | ok answered => exact cluster_act hrun

theorem cluster_next (hid : (net.hosts n).node.id = n)
    (hbootstrap : (net.hosts n).node.bootstrap = B) (operation : Operation) :
    (net.next n operation).cluster B =
      (net.cluster B).next (operation.event n) := by
  cases operation with
  | tick => exact cluster_act rfl
  | campaign => exact cluster_act rfl
  | preVote => exact cluster_act rfl
  | propose command => exact cluster_accepted rfl
  | proposeBatch commands => exact cluster_accepted rfl
  | proposeMembership members => exact cluster_accepted rfl
  | setAutoPromote on => exact cluster_act rfl
  | readIndex => exact cluster_act rfl
  | forgetRead request => exact cluster_act rfl
  | receive sender message => exact cluster_act rfl
  | takeCommitted => exact cluster_act rfl
  | beginCompaction index =>
      show _ = Cluster.next (net.cluster B) (Event.beginCompaction n index)
      unfold Cluster.next
      dsimp only [cluster]
      cases hbegin : (net.hosts n).node.beginCompaction index with
      | none =>
          refine cluster_same ?_
          unfold Host.run
          dsimp only
          rw [hbegin]
      | some sink =>
          have hrun : (net.hosts n).run (Operation.beginCompaction index) =
              ({ net.hosts n with sinks := sink :: (net.hosts n).sinks }, []) := by
            unfold Host.run
            dsimp only
            rw [hbegin]
          refine cluster_next_eq hrun rfl ?_ (List.append_nil _).symm rfl
          exact (Function.update_eq_self n _).symm
  | finishCompaction sink data => exact cluster_next_eq rfl rfl rfl rfl rfl
  | restart config =>
      have hrun : (net.hosts n).run (Operation.restart config) =
          (Host.start n B config (net.hosts n).node.storage, []) := by
        show (Host.start _ _ _ _, []) = _
        rw [hid, hbootstrap]
      exact cluster_next_eq hrun rfl rfl rfl rfl

theorem enabled_event {operation : Operation} (h : net.Enabled n operation) :
    (net.cluster B).Enabled (operation.event n) := by
  cases operation with
  | receive sender message => exact h.arrives
  | finishCompaction sink data => exact h.host
  | _ => trivial

theorem fixedRun_cluster {configs : NodeId -> Config}
    {allowed : Network -> NodeId -> Operation -> Prop}
    (hfixed : forall net n operation, allowed net n operation ->
      (net.next n operation).FixedMembership)
    (hrun : Run allowed (start (fun _ => B) configs) net) :
    Cluster.FixedRun (Cluster.start B configs) (net.cluster B) := by
  generalize hstart : start (fun _ => B) configs = first at hrun
  induction hrun with
  | refl =>
      subst hstart
      exact Cluster.FixedRun.refl _
  | tail m operation _ henabled hallowed ih =>
      obtain ⟨past, _, hrelated⟩ := (related_start B configs).run ih
      have hnode := hrelated.nodes m
      have hbootstrap : _ = B := hnode.bootstrap
      have hnext := cluster_next hnode.id hbootstrap operation
      have hfixed' := hfixed _ _ _ hallowed
      rw [hnext]
      refine Cluster.FixedRun.tail (operation.event m) ih (enabled_event henabled) ?_
      rw [← hnext]
      exact hfixed'

theorem held_of_fixed {configs : NodeId -> Config}
    {allowed : Network -> NodeId -> Operation -> Prop}
    (hfixed : forall net n operation, allowed net n operation ->
      (net.next n operation).FixedMembership)
    (hrun : Run allowed (start (fun _ => B) configs) net) (n : NodeId) :
    (net.hosts n).node.commitIndex <= (net.hosts n).node.lastIndex := by
  obtain ⟨past, _, hrelated⟩ := (related_start B configs).run
    (fixedRun_cluster hfixed hrun)
  have hnode := hrelated.nodes n
  have hlast : (net.hosts n).node.lastIndex = (past.log n).length :=
    hnode.storage.shows.lastIndex
  rw [hlast]
  exact hnode.commit.1

end Network

/-!
# Runs
-/

namespace Network

/-- A node applies no more than it committed, and unless it restarts neither moves
back. -/
def NeverBack (allowed : Network -> NodeId -> Operation -> Prop) (net : Network) :
    Prop :=
  forall n,
    (net.hosts n).node.lastApplied <= (net.hosts n).node.commitIndex ∧
      forall net', Run (fun net m operation => allowed net m operation ∧
          (m = n -> operation.isRestart = false)) net net' ->
        (net.hosts n).node.commitIndex <= (net'.hosts n).node.commitIndex ∧
          (net.hosts n).node.lastApplied <= (net'.hosts n).node.lastApplied

def HoldsCommits (net : Network) : Prop :=
  forall n, (net.hosts n).node.commitIndex <= (net.hosts n).node.lastIndex

def Forwards (net : Network) (n : NodeId) (operation : Operation) : Prop :=
  Forward (net.hosts n) operation

def Orderly (net : Network) (n : NodeId) (operation : Operation) : Prop :=
  Forward (net.hosts n) operation ∧ Undisplaced (net.hosts n) operation

def StaysFixed (net : Network) (n : NodeId) (operation : Operation) : Prop :=
  (net.next n operation).FixedMembership

theorem advanced_run {net net' : Network} {n : NodeId}
    (hrun : Run (fun net m operation => Forwards net m operation ∧
      (m = n -> operation.isRestart = false)) net net') :
    Advanced (net.hosts n).node (net'.hosts n).node := by
  induction hrun with
  | refl => exact Advanced.refl _
  | tail m operation _ _ hallowed ih =>
      refine ih.trans ?_
      by_cases hn : n = m
      · subst hn
        rw [hosts_next_self]
        exact advanced_step hallowed.1 (hallowed.2 rfl)
      · rw [hosts_next_of_ne _ _ hn]
        exact Advanced.refl _

theorem within_run {bootstraps : NodeId -> List Member} {configs : NodeId -> Config}
    {net : Network} (hrun : Run Forwards (start bootstraps configs) net)
    (n : NodeId) :
    (net.hosts n).node.lastApplied <= (net.hosts n).node.commitIndex := by
  refine hrun.keeps (fun net => forall n,
    (net.hosts n).node.lastApplied <= (net.hosts n).node.commitIndex) ?_ ?_ n
  · intro net m operation hwithin _ hallowed
    exact @forall_next net m operation (fun _ host =>
      host.node.lastApplied <= host.node.commitIndex) hwithin
      (within_step hallowed (hwithin m))
  · intro m
    exact (inOrder_start m (bootstraps m) (configs m)).within

theorem inOrder_run {bootstraps : NodeId -> List Member}
    {configs : NodeId -> Config} {net : Network}
    (hrun : Run Orderly (start bootstraps configs) net) :
    net.Gapless ∧ forall n, InOrder (net.hosts n) := by
  refine hrun.keeps (fun net =>
    net.Gapless ∧ forall n, InOrder (net.hosts n)) ?_ ?_
  · intro net n operation ⟨hgapless, horder⟩ henabled ⟨hforward, hundisplaced⟩
    refine ⟨hgapless.next henabled, ?_⟩
    refine @forall_next net n operation (fun _ host => InOrder host) horder ?_
    refine (horder n).step ?_ hundisplaced henabled.host hforward
    intro sender message hop
    subst hop
    exact hgapless.messages _ henabled.arrives
  · exact ⟨gapless_start _ _, fun n => inOrder_start n _ _⟩

end Network

/-- However messages are ordered, delayed, repeated and lost, the commit index and what
was applied only move forward, in their order, as long as no message that a node accepts
ends below its commit index while its leader has committed more.  The log holds what
was committed in every run that never changes the membership, and in any other as long
as nothing committed is replaced. -/
theorem commit_index_never_back (bootstraps : NodeId -> List Member)
    (B : List Member) (configs : NodeId -> Config) (net : Network) :
    (Network.Run Network.Forwards (Network.start bootstraps configs) net ->
        net.NeverBack Network.Forwards) ∧
      (Network.Run Network.Orderly (Network.start bootstraps configs) net ->
        net.HoldsCommits) ∧
      (Network.Run Network.StaysFixed (Network.start (fun _ => B) configs) net ->
        net.HoldsCommits) := by
  refine ⟨?_, ?_, ?_⟩
  · intro hrun n
    refine ⟨Network.within_run hrun n, ?_⟩
    intro net' hlater
    have hadvanced := Network.advanced_run hlater
    exact ⟨hadvanced.commit, hadvanced.applied⟩
  · intro hrun n
    exact ((Network.inOrder_run hrun).2 n).held
  · intro hrun n
    exact Network.held_of_fixed (fun _ _ _ h => h) hrun n

/-- Node 1 leads three voters.  Node 2 has learned of the first commit, its answer is
still on the way, and a second entry commits without it. -/
def unanswered : List (NodeId × Operation) :=
  [(1, Operation.campaign),
    (2, Operation.receive 1 (Message.requestVote 1 0 0)),
    (1, Operation.receive 2 (Message.requestVoteReply 1 true)),
    (3, Operation.receive 1 (Message.appendEntries 1 0 0
      [{ term := 1, index := 1, command := Command.noop }] 0 0)),
    (1, Operation.receive 3 (Message.appendEntriesReply 1 true 1 0 none 0)),
    (1, Operation.propose [7]),
    (2, Operation.receive 1 (Message.appendEntries 1 0 0
      [{ term := 1, index := 1, command := Command.noop },
        { term := 1, index := 2, command := Command.data [7] }] 1 0)),
    (3, Operation.receive 1 (Message.appendEntries 1 1 1
      [{ term := 1, index := 2, command := Command.data [7] }] 1 0)),
    (1, Operation.receive 3 (Message.appendEntriesReply 1 true 2 0 none 0)),
    (1, Operation.readIndex)]

def probing : Network :=
  (Network.start (fun _ => founders) (fun _ => {})).replay unanswered

/-- The round that a read opens probes node 2 at the index it was last known to hold,
and takes its commit index back to that. -/
theorem commit_index_goes_back :
    ¬ forall net, Network.Run (fun _ _ _ => True)
        (Network.start (fun _ => founders) (fun _ => {})) net ->
      net.NeverBack (fun _ _ _ => True) := by
  intro hall
  have hrun : Network.Run (fun _ _ _ => True)
      (Network.start (fun _ => founders) (fun _ => {})) probing :=
    Network.run_of_replays unanswered (fun _ _ _ _ => trivial) (by decide +kernel) _
      (Network.Run.refl _)
  have henabled : probing.Enabled 2
      (Operation.receive 1 (Message.appendEntries 1 0 0 [] 2 1)) :=
    ⟨trivial, by decide +kernel⟩
  have hprobe : Network.Run (fun _ m operation =>
      True ∧ (m = 2 -> operation.isRestart = false)) probing
      (probing.next 2 (Operation.receive 1 (Message.appendEntries 1 0 0 [] 2 1))) :=
    Network.Run.tail 2 _ (Network.Run.refl _) henabled ⟨trivial, fun _ => rfl⟩
  have hback := ((hall _ hrun 2).2 _ hprobe).1
  exact absurd hback (by decide +kernel)

/-- Node 1 leads two voters and commits a command.  Node 2 hands over the entry that is
committed for it, and then the leader restarts. -/
def handedOver : List (NodeId × Operation) :=
  [(1, Operation.campaign),
    (2, Operation.receive 1 (Message.requestVote 1 0 0)),
    (1, Operation.receive 2 (Message.requestVoteReply 1 true)),
    (2, Operation.receive 1 (Message.appendEntries 1 0 0
      [{ term := 1, index := 1, command := Command.noop }] 0 0)),
    (1, Operation.receive 2 (Message.appendEntriesReply 1 true 1 0 none 0)),
    (1, Operation.propose [7]),
    (2, Operation.receive 1 (Message.appendEntries 1 1 1
      [{ term := 1, index := 2, command := Command.data [7] }] 1 0)),
    (2, Operation.takeCommitted),
    (1, Operation.receive 2 (Message.appendEntriesReply 1 true 2 0 none 0)),
    (1, Operation.takeCommitted),
    (1, Operation.restart {})]

def recovering : Network :=
  (Network.start (fun _ => founders.take 2) (fun _ => {})).replay handedOver

/-- Entries reach only nodes that have committed nothing. -/
def Network.early (net : Network) (n : NodeId) : Operation -> Bool
  | Operation.receive _ (Message.appendEntries ..) =>
      decide ((net.hosts n).node.commitIndex = 0)
  | _ => true

theorem Network.orderly_of_early {net : Network} {n : NodeId} {operation : Operation}
    (h : net.early n operation = true) : net.Orderly n operation := by
  cases operation with
  | receive sender message =>
      cases message with
      | appendEntries term prevLogIndex prevLogTerm entries leaderCommit seq =>
          have hcommit : (net.hosts n).node.commitIndex = 0 := of_decide_eq_true h
          constructor
          · rintro ⟨_, _, hlower, _⟩
            rw [hcommit] at hlower
            exact Nat.not_lt_zero _ hlower
          · rintro ⟨_, _, e, old, _, hindex, hold, _⟩
            rw [hcommit] at hindex
            exact Nat.not_lt_zero _
              (Nat.lt_of_lt_of_le (EntryLog.entry_eq_some hold).1 hindex)
      | _ => exact ⟨not_false, not_false⟩
  | _ => exact ⟨trivial, trivial⟩

/-- Both voters have committed and applied, and the leader has come back. -/
theorem commit_index_never_back_recovering :
    (recovering.hosts 2).node.lastApplied = 1 ∧
      (recovering.hosts 1).node.lastIndex = 2 ∧
      recovering.NeverBack Network.Forwards ∧ recovering.HoldsCommits := by
  have hpasses : Network.passes Network.early
      (Network.start (fun _ => founders.take 2) (fun _ => {})) handedOver = true := by
    decide +kernel
  have hrun : Network.Run Network.Orderly
      (Network.start (fun _ => founders.take 2) (fun _ => {})) recovering :=
    Network.run_of_passes handedOver
      (fun _ _ _ _ hearly => Network.orderly_of_early hearly) hpasses _
      (Network.Run.refl _)
  exact ⟨by decide +kernel, by decide +kernel,
    (commit_index_never_back _ [] _ _).1 (hrun.mono fun _ _ _ horderly => horderly.1),
    (commit_index_never_back _ [] _ _).2.1 hrun⟩

end Raft
end Minicask
