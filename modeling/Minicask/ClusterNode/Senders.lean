import Minicask.ClusterNode.AddressBook

/-!
# Who can be reached

A leader sends to its replicas: every other member, and for a while whoever the
membership dropped.  The address book is trimmed to the membership as soon as it is
logged.
-/

namespace Minicask
namespace ClusterNode

open Raft

/-!
# Replicas
-/

def NotSelf (n : Node) : Prop :=
  forall id, id ∈ n.replicas -> id ≠ n.id

theorem mem_sortDedup {ids : List NodeId} {id : NodeId} :
    id ∈ Node.sortDedup ids ↔ id ∈ ids := by
  rw [Node.sortDedup, List.mem_dedup]
  exact List.mem_insertionSort _

theorem notSelf_of_eq {n n' : Node} (h : NotSelf n)
    (hreplicas : n'.replicas = n.replicas) (hid : n'.id = n.id) : NotSelf n' := by
  unfold NotSelf
  rw [hreplicas, hid]
  exact h

theorem notSelf_reloadMembership (n : Node) : NotSelf n.reloadMembership := by
  intro id hin
  rw [id_reloadMembership]
  rw [replicas_reloadMembership, Node.replicasOf, mem_sortDedup] at hin
  rcases List.mem_append.mp hin with hother | hdeparting
  · have hne := (List.mem_filter.mp hother).2
    exact bne_iff_ne.mp hne
  · split at hdeparting
    · have hne := (List.mem_filter.mp hdeparting).2
      rw [Bool.and_eq_true] at hne
      exact bne_iff_ne.mp hne.1
    · cases hdeparting

theorem notSelf_handleAppendEntries {n : Node} (h : NotSelf n) (sender : NodeId)
    (prevLogIndex prevLogTerm : Nat) (entries : List Entry)
    (leaderCommit seq : Nat) :
    NotSelf (n.handleAppendEntries sender prevLogIndex prevLogTerm entries
      leaderCommit seq).1 := by
  have haccept : forall (m : Node) (prev : Nat) (es : List Entry),
      NotSelf m -> NotSelf (m.acceptEntries prev es) := by
    intro m prev es hm
    unfold Node.acceptEntries
    dsimp only
    split
    · exact notSelf_reloadMembership _
    · exact notSelf_of_eq hm rfl rfl
  unfold Node.handleAppendEntries
  dsimp only
  split
  · exact notSelf_of_eq h rfl rfl
  · split
    · split
      · exact notSelf_of_eq h rfl rfl
      · exact notSelf_of_eq h rfl rfl
    · have hself := fun prev es => haccept
        (Node.resetElectionTimer { n with
          role := Role.follower
          leaderId := some sender }) prev es (notSelf_of_eq h rfl rfl)
      dsimp only
      split
      · exact notSelf_of_eq (hself _ _) rfl rfl
      · exact hself _ _

theorem notSelf_handleInstallSnapshot {n : Node} (h : NotSelf n)
    (sender : NodeId) (about : SnapshotMeta) (offset : Nat) (data : Bytes)
    (done : Bool) (seq : Nat) (members : Option (List Member)) :
    NotSelf (n.handleInstallSnapshot sender about offset data done seq
      members).1 := by
  unfold Node.handleInstallSnapshot
  dsimp only
  split
  · exact notSelf_of_eq h rfl rfl
  · split
    · exact notSelf_of_eq h rfl rfl
    · split
      · exact notSelf_of_eq h rfl rfl
      · split
        · exact notSelf_of_eq h rfl rfl
        · exact notSelf_of_eq (notSelf_reloadMembership _) rfl rfl

theorem notSelf_of_moves {inputs : Inputs} {n n' : Node} (h : NotSelf n)
    (hmoves : Moves inputs n n') : NotSelf n' := by
  induction hmoves with
  | refl => exact h
  | tail _ hmove ih =>
      cases hmove with
      | idle h =>
          exact notSelf_of_eq ih (congrArg Core.replicas h.core)
            (congrArg Core.id h.core)
      | reload => exact notSelf_reloadMembership _
      | configure members h => exact notSelf_reloadMembership _
      | entries => exact notSelf_handleAppendEntries ih _ _ _ _ _ _
      | snapshot => exact notSelf_handleInstallSnapshot ih _ _ _ _ _ _ _
      | lead => exact notSelf_of_eq ih rfl rfl
      | extend => exact notSelf_of_eq ih rfl rfl
      | commit => exact notSelf_of_eq ih rfl rfl

theorem notSelf_start (id : NodeId) (bootstrap : List Member) (config : Config)
    (storage : MemStorage) :
    NotSelf (Host.start id bootstrap config storage).node := by
  unfold Host.start Node.withMembers
  exact notSelf_reloadMembership _

theorem notSelf_run {host : Host} (h : NotSelf host.node) (operation : Operation) :
    NotSelf (host.run operation).1.node := by
  have hstep := Host.step host operation
  generalize host.run operation = result at hstep ⊢
  cases hstep with
  | moves hran => exact notSelf_of_moves h hran.moves
  | take => exact notSelf_of_eq h rfl rfl
  | «begin» => exact h
  | finish sink data =>
      show NotSelf (host.node.finishCompaction (sink.writeAll data)).1
      unfold Node.finishCompaction
      split
      · exact h
      · exact notSelf_of_eq h rfl rfl
  | restart => exact notSelf_start _ _ _ _

/-!
# Senders
-/

namespace AddressBook

theorem sender_update {book : AddressBook} {members : List Member}
    (hformed : WellFormed members) {id : NodeId} (hme : id ≠ book.me)
    (h : id ∈ members.map Member.id ∨
      (book.configured id).isSome = true ∧ book.senders id ≠ none) :
    (book.update members).senders id ≠ none := by
  have hentry := entry_update book members id
  have hkept : ((members.map Member.id).contains id ||
      (book.configured id).isSome) = true := by
    rw [Bool.or_eq_true, List.contains_iff_mem]
    exact h.imp_right And.left
  rw [if_pos hkept] at hentry
  by_cases hnew : book.senders id = none
  · rcases h with hin | hknown
    · rcases (contains_iff_find? members id).mp (List.contains_iff_mem.mpr hin) with
        ⟨member, hfind⟩
      have hsome : exists address,
          memberAddress book.configured member = some address := by
        unfold memberAddress
        split
        · exact ⟨_, rfl⟩
        · exact Option.isSome_iff_exists.mp
            (hformed member (List.mem_of_find?_eq_some hfind))
      rcases hsome with ⟨address, haddress⟩
      rw [entry_connectAll_new hme hnew, find?_memberPlaces hformed, hfind,
        Option.bind_some, haddress] at hentry
      have hsender : (book.update members).senders id = some address.1 :=
        congrArg Prod.fst hentry
      rw [hsender]
      nofun
    · exact absurd hnew hknown.2
  · rw [entry_connectAll_known (Or.inr hnew)] at hentry
    have hsender : (book.update members).senders id = book.senders id :=
      congrArg Prod.fst hentry
    rw [hsender]
    exact hnew

end AddressBook

namespace Shared

/-- Every member and every configured peer has a sender. -/
structure Reaches (s : Shared) : Prop where
  me : s.addresses.me = s.host.node.id
  peers : forall id, id ≠ s.addresses.me ->
    (s.addresses.configured id).isSome = true -> s.addresses.senders id ≠ none
  members : forall m, m ∈ s.host.node.members -> m.id ≠ s.addresses.me ->
    s.addresses.senders m.id ≠ none
  replicas : NotSelf s.host.node

/-- An operation that brings in a member who is not configured moves the index that the
book goes by, and is followed by a look at it. -/
def Introduces (s : Shared) (operation : Operation) : Prop :=
  forall m, m ∈ (s.host.run operation).1.node.members ->
    m.id = s.addresses.me ∨ (s.addresses.configured m.id).isSome = true ∨
      m.id ∈ s.host.node.members.map Member.id ∨
      (s.looks operation = true ∧
        s.addresses.seen ≠ (s.host.run operation).1.node.membershipIndex)

/-- Whoever a leader still sends to, though the membership no longer lists it, is a
configured peer. -/
def Departing (s : Shared) : Prop :=
  s.host.node.role = Role.leader -> forall id, id ∈ s.host.node.replicas ->
    id ∉ s.host.node.members.map Member.id ->
      (s.addresses.configured id).isSome = true

/-- A process that starts again binds anew. -/
def Enabled (s : Shared) (operation : Operation) : Prop :=
  s.host.Enabled operation ∧ operation.isRestart = false

inductive Run (allowed : Shared -> Operation -> Prop) : Shared -> Shared -> Prop where
  | refl (s : Shared) : Run allowed s s
  | tail {s s' : Shared} (operation : Operation) :
      Run allowed s s' ->
      s'.Enabled operation ->
      WellFormed (s'.run operation).1.host.node.members ->
      allowed s' operation ->
      Run allowed s (s'.run operation).1

theorem reaches_bind (me : NodeId) (peers : List Peer) (join : Bool)
    (own : Bytes) (config : Config) (storage : MemStorage)
    (hformed : WellFormed
      (bind me peers join own config storage).host.node.members) :
    (bind me peers join own config storage).Reaches := by
  generalize hshared : bind me peers join own config storage = s at hformed ⊢
  have hbook : s.addresses = (AddressBook.peersOnly me peers
      s.host.node.membershipIndex).update s.host.node.members := by
    rw [← hshared, ← AddressBook.bind_eq]
    rfl
  have hid : s.host.node.id = me := by
    rw [← hshared]
    exact id_reloadMembership _
  obtain ⟨hme, hconfigured, _⟩ :=
    AddressBook.peersOnly_fixed me peers s.host.node.membershipIndex
  obtain ⟨hme', hconfigured', _⟩ := AddressBook.update_fixed
    (AddressBook.peersOnly me peers s.host.node.membershipIndex)
    s.host.node.members
  constructor
  · rw [hbook, hid]
    exact hme'.trans hme
  · rw [hbook, hme', hme, hconfigured', hconfigured]
    intro id hne hpeer
    exact AddressBook.sender_update hformed (hme.symm ▸ hne)
      (Or.inr ⟨hconfigured.symm ▸ hpeer, AddressBook.sender_peersOnly hne hpeer⟩)
  · rw [hbook, hme', hme]
    intro m hm hne
    exact AddressBook.sender_update hformed (hme.symm ▸ hne)
      (Or.inl (List.mem_map_of_mem hm))
  · rw [← hshared]
    exact notSelf_start _ _ _ _

theorem addresses_run (s : Shared) (operation : Operation) :
    (s.run operation).1.addresses =
      if s.looks operation = true then
        s.addresses.followMembership
          (s.host.run operation).1.node.membershipIndex
          (s.host.run operation).1.node.members
      else s.addresses :=
  rfl

theorem Reaches.run {s : Shared} (h : s.Reaches) {operation : Operation}
    (hformed : WellFormed (s.run operation).1.host.node.members)
    (hintroduces : s.Introduces operation) : (s.run operation).1.Reaches := by
  have hid := Host.id_run s.host operation
  have hself := notSelf_run h.replicas operation
  by_cases hlook : s.looks operation = true ∧
      s.addresses.seen ≠ (s.host.run operation).1.node.membershipIndex
  · have hbook : (s.run operation).1.addresses =
        { s.addresses.update (s.host.run operation).1.node.members with
          seen := (s.host.run operation).1.node.membershipIndex } := by
      rw [addresses_run, if_pos hlook.1, AddressBook.followMembership,
        if_neg hlook.2]
    obtain ⟨hme, hconfigured, _⟩ := AddressBook.update_fixed s.addresses
      (s.host.run operation).1.node.members
    constructor
    · rw [hbook]
      exact (hme.trans h.me).trans hid.symm
    · rw [hbook]
      intro id hne hpeer
      have hne : id ≠ s.addresses.me := hme ▸ hne
      have hpeer : (s.addresses.configured id).isSome = true :=
        hconfigured ▸ hpeer
      exact AddressBook.sender_update hformed hne
        (Or.inr ⟨hpeer, h.peers id hne hpeer⟩)
    · rw [hbook]
      intro m hm hne
      exact AddressBook.sender_update hformed (hme ▸ hne)
        (Or.inl (List.mem_map_of_mem hm))
    · exact hself
  · have hbook : (s.run operation).1.addresses = s.addresses := by
      rw [addresses_run]
      split
      · next hlooks =>
          rw [AddressBook.followMembership, if_pos]
          by_contra hmoved
          exact hlook ⟨hlooks, hmoved⟩
      · rfl
    constructor
    · rw [hbook]
      exact h.me.trans hid.symm
    · rw [hbook]
      exact h.peers
    · rw [hbook]
      intro m hm hne
      rcases hintroduces m hm with heq | hpeer | hmember | hmoved
      · exact absurd heq hne
      · exact h.peers m.id hne hpeer
      · rcases List.mem_map.mp hmember with ⟨old, hold, heq⟩
        rw [← heq] at hne ⊢
        exact h.members old hold hne
      · exact absurd hmoved hlook
    · exact hself

theorem Reaches.of_run {s s' : Shared} (h : s.Reaches)
    {allowed : Shared -> Operation -> Prop} (hrun : Run allowed s s')
    (hintroduces : forall s operation, allowed s operation ->
      s.Introduces operation) : s'.Reaches := by
  induction hrun with
  | refl => exact h
  | tail operation _ _ hformed hallowed ih =>
      exact ih.run hformed (hintroduces _ operation hallowed)

/-- What the address book relies on: it sees every member that is new, and whoever it
drops too early is a configured peer. -/
structure Followed (s : Shared) (operation : Operation) : Prop where
  introduces : s.Introduces operation
  departing : (s.run operation).1.Departing

theorem departing_of_run {s s' : Shared} (h : s.Departing)
    (hrun : Run Followed s s') : s'.Departing := by
  cases hrun with
  | refl => exact h
  | tail operation _ _ _ hallowed => exact hallowed.departing

end Shared

/-- In every state in which the node leads, each of its replicas has a sender, and no
message to one is dropped. -/
theorem replicas_reached {me : NodeId} {peers : List Peer} {join : Bool}
    {own : Bytes} {config : Config} {storage : MemStorage}
    (hformed : WellFormed
      (Shared.bind me peers join own config storage).host.node.members)
    {s : Shared}
    (hrun : Shared.Run Shared.Followed
      (Shared.bind me peers join own config storage) s)
    (hleads : s.host.node.role = Role.leader) :
    (forall id, id ∈ s.host.node.replicas ->
      (s.addresses.senders id).isSome = true) ∧
      forall actions, (forall action, action ∈ actions ->
        action.dest ∈ s.host.node.replicas) ->
          Shared.dispatch s.addresses actions = actions := by
  have hreaches := (Shared.reaches_bind me peers join own config storage
    hformed).of_run hrun (fun _ _ hallowed => hallowed.introduces)
  have hstart : (Shared.bind me peers join own config storage).Departing := by
    intro hrole
    exfalso
    have hfollower : (Shared.bind me peers join own config storage).host.node.role =
        Role.follower := role_reloadMembership _
    rw [hfollower] at hrole
    cases hrole
  have hdeparting := Shared.departing_of_run hstart hrun
  have hall : forall id, id ∈ s.host.node.replicas ->
      (s.addresses.senders id).isSome = true := by
    intro id hin
    have hne : id ≠ s.addresses.me := by
      rw [hreaches.me]
      exact hreaches.replicas id hin
    rw [Option.isSome_iff_ne_none]
    by_cases hmember : id ∈ s.host.node.members.map Member.id
    · rcases List.mem_map.mp hmember with ⟨m, hm, heq⟩
      rw [← heq] at hne ⊢
      exact hreaches.members m hm hne
    · exact hreaches.peers id hne (hdeparting hleads id hin hmember)
  refine ⟨hall, ?_⟩
  intro actions hactions
  exact List.filter_eq_self.mpr (fun action haction =>
    hall action.dest (hactions action haction))

namespace Shared

instance (s : Shared) (operation : Operation) :
    Decidable (s.Enabled operation) :=
  inferInstanceAs (Decidable (_ ∧ _))

instance (members : List Member) : Decidable (WellFormed members) :=
  inferInstanceAs (Decidable (forall m, m ∈ members -> _))

instance (s : Shared) (operation : Operation) :
    Decidable (s.Introduces operation) :=
  inferInstanceAs (Decidable
    (forall m, m ∈ (s.host.run operation).1.node.members -> _))

instance (s : Shared) : Decidable s.Departing :=
  inferInstanceAs (Decidable (_ -> forall id, id ∈ s.host.node.replicas -> _))

instance (s : Shared) (operation : Operation) :
    Decidable (s.Followed operation) :=
  decidable_of_iff (s.Introduces operation ∧ (s.run operation).1.Departing)
    ⟨fun h => ⟨h.1, h.2⟩, fun h => ⟨h.1, h.2⟩⟩

def runAll (s : Shared) (operations : List Operation) : Shared :=
  operations.foldl (fun s operation => (s.run operation).1) s

def runs (allowed : Shared -> Operation -> Prop)
    [forall s operation, Decidable (allowed s operation)] :
    Shared -> List Operation -> Bool
  | _, [] => true
  | s, operation :: rest =>
      decide (s.Enabled operation) &&
        decide (WellFormed (s.run operation).1.host.node.members) &&
        decide (allowed s operation) && runs allowed (s.run operation).1 rest

theorem run_of_runs {allowed : Shared -> Operation -> Prop}
    [forall s operation, Decidable (allowed s operation)] {first s : Shared}
    (hrun : Run allowed first s) {operations : List Operation}
    (h : runs allowed s operations = true) :
    Run allowed first (s.runAll operations) := by
  induction operations generalizing s with
  | nil => exact hrun
  | cons operation rest ih =>
      rw [runs, Bool.and_eq_true, Bool.and_eq_true, Bool.and_eq_true,
        decide_eq_true_eq, decide_eq_true_eq, decide_eq_true_eq] at h
      exact ih (Run.tail operation hrun h.1.1.1 h.1.1.2 h.1.2) h.2

end Shared

def pair : Shared :=
  Shared.bind 1 [{ id := 2, raftAddr := "p:2", clientAddr := "q:2" }] false
    (memberContext "p:1" "q:1") {} {}

def pairMembers : List Member :=
  [{ id := 1, context := memberContext "p:1" "q:1", learner := false },
    { id := 2, context := memberContext "p:2" "q:2", learner := false }]

def withFour : List Member :=
  pairMembers ++
    [{ id := 4, context := memberContext "p:4" "q:4", learner := true }]

def adding : List Operation :=
  List.replicate 15 Operation.tick ++
    [Operation.receive 2 (Message.preVoteReply 1 true),
      Operation.receive 2 (Message.requestVoteReply 1 true),
      Operation.receive 2 (Message.appendEntriesReply 1 true 1 0 none 0),
      Operation.proposeMembership withFour]

def removing : List Operation :=
  adding ++
    [Operation.receive 2 (Message.appendEntriesReply 1 true 2 0 none 0),
      Operation.proposeMembership pairMembers]

/-- The removal has not committed, node 4 is a replica, and there is no sender for
it. -/
theorem departing_replica_without_sender :
    WellFormed pair.host.node.members ∧
      Shared.Run (fun _ _ => True) pair (pair.runAll removing) ∧
      (pair.runAll removing).host.node.role = Role.leader ∧
      (pair.runAll removing).host.node.commitIndex <
        (pair.runAll removing).host.node.membershipIndex ∧
      4 ∈ (pair.runAll removing).host.node.replicas ∧
      ¬ ((pair.runAll removing).addresses.senders 4).isSome = true := by
  refine ⟨by decide +kernel,
    Shared.run_of_runs (Shared.Run.refl _) (by decide +kernel), ?_⟩
  decide +kernel

/-- Both replicas have senders, node 4 from the log. -/
theorem replicas_reached_added :
    (pair.runAll adding).host.node.replicas = [2, 4] ∧
      forall id, id ∈ (pair.runAll adding).host.node.replicas ->
        ((pair.runAll adding).addresses.senders id).isSome = true := by
  have hrun : Shared.Run Shared.Followed pair (pair.runAll adding) :=
    Shared.run_of_runs (Shared.Run.refl _) (by decide +kernel)
  have hformed : WellFormed pair.host.node.members := by
    decide +kernel
  exact ⟨by decide +kernel,
    (replicas_reached hformed hrun (by decide +kernel)).1⟩

end ClusterNode
end Minicask
