import Minicask.Raft.Hosts

/-!
# A snapshot received in pieces

What a follower keeps of a snapshot is always the beginning of what one sender holds
for it.  So the snapshot it installs is the whole of it, whatever arrived in between.
-/

namespace Minicask
namespace Raft

/-- A slice of the data at its offset, marked as the last one where it reaches the
end. -/
structure PieceOf (whole : Bytes) (offset : Nat) (data : Bytes) (done : Bool) :
    Prop where
  slice : exists len, data = (whole.drop offset).take len
  done : done = true ↔ whole.length <= offset + data.length

/-- The pieces a message brings are slices of what its sender holds. -/
def Faithful (held : NodeId -> SnapshotMeta -> Bytes) (sender : NodeId) :
    Message -> Prop
  | Message.installSnapshot _ lastIndex lastTerm offset data done _ _ =>
      PieceOf (held sender { index := lastIndex, term := lastTerm }) offset data
        done
  | _ => True

/-- Any operation at any time, as long as pieces of snapshots are slices. -/
def FaithfulPieces (held : NodeId -> SnapshotMeta -> Bytes) (_ : Host) :
    Operation -> Prop
  | Operation.receive sender message => Faithful held sender message
  | _ => True

/-- What is kept of a snapshot is the beginning of what its sender holds. -/
def Beginning (held : NodeId -> SnapshotMeta -> Bytes) (n : Node) : Prop :=
  forall origin sink, n.incoming = some (origin, sink) ->
    sink.data <+: held origin sink.about

section Pieces

variable {held : NodeId -> SnapshotMeta -> Bytes} {n n' : Node}

theorem Beginning.of_incoming (h : Beginning held n)
    (hincoming : n'.incoming = n.incoming) : Beginning held n' := by
  intro origin sink hsome
  rw [hincoming] at hsome
  exact h origin sink hsome

theorem Beginning.nothing (hincoming : n.incoming = none) : Beginning held n := by
  intro origin sink hsome
  rw [hincoming] at hsome
  cases hsome

theorem Beginning.kept (sender : NodeId) {sink : MemSnapshot}
    (hincoming : n.incoming = some (sender, sink))
    (hdata : sink.data <+: held sender sink.about) : Beginning held n := by
  intro origin other hsome
  rw [hincoming] at hsome
  obtain ⟨rfl, rfl⟩ := Prod.mk.inj (Option.some.inj hsome)
  exact hdata

/-- The sink that the pieces of a sender go into is about that snapshot, and holds the
beginning of it. -/
theorem Beginning.continuing (h : Beginning held n) (sender : NodeId)
    (about : SnapshotMeta) (members : Option (List Member)) :
    let sink := (n.continuing sender about).getD
      (MemStorage.newSnapshot about members)
    sink.about = about ∧ sink.data <+: held sender about := by
  refine ⟨Node.continuing_about n sender about members, ?_⟩
  unfold Node.continuing
  split
  · next origin sink hsome =>
      split
      · next hsame =>
          obtain ⟨rfl, rfl⟩ := hsame
          exact h origin sink hsome
      · exact List.nil_prefix
  · exact List.nil_prefix

theorem PieceOf.extends {whole before data : Bytes} {offset : Nat} {done : Bool}
    (h : PieceOf whole offset data done) (hbefore : before <+: whole)
    (hoffset : offset = before.length) : before ++ data <+: whole := by
  obtain ⟨len, rfl⟩ := h.slice
  obtain ⟨after, rfl⟩ := hbefore
  subst hoffset
  rw [List.drop_left, List.prefix_append_right_inj]
  exact List.take_prefix len after

theorem PieceOf.completes {whole before data : Bytes} {offset : Nat}
    (h : PieceOf whole offset data true) (hbefore : before <+: whole)
    (hoffset : offset = before.length) : before ++ data = whole := by
  apply (h.extends hbefore hoffset).eq_of_length_le
  rw [List.length_append, ← hoffset]
  exact h.done.mp rfl

theorem storage_installReceived (n : Node) (sink : MemSnapshot)
    (about : SnapshotMeta) :
    (n.installReceived sink about).storage = n.storage.installSnapshot sink := by
  unfold Node.installReceived
  exact storage_reloadMembership _

/-- Installing does nothing, or puts the snapshot in place. -/
theorem installSnapshot_cases (s : MemStorage) {sink : MemSnapshot}
    {about : SnapshotMeta} {whole : Bytes} (habout : sink.about = about)
    (hwhole : sink.data = whole) :
    s.installSnapshot sink = s ∨
      (s.installSnapshot sink).snapshotMeta = about ∧
        (s.installSnapshot sink).snapshot = whole := by
  subst habout hwhole
  unfold MemStorage.installSnapshot EntryLog.compact
  split
  · next log hcompact =>
      split at hcompact
      · cases hcompact
      · obtain ⟨_, rfl⟩ := Prod.mk.inj hcompact
        exact Or.inr ⟨rfl, rfl⟩
  · exact Or.inl rfl

theorem incoming_acceptEntries (n : Node) (prevLogIndex : Nat)
    (entries : List Entry) :
    (n.acceptEntries prevLogIndex entries).incoming = n.incoming := by
  obtain ⟨appendFrom, conflict, _, hreload | ⟨_, _, hsame⟩⟩ :=
    acceptEntries_cases n prevLogIndex entries
  · rw [hreload, incoming_reloadMembership]
  · rw [hsame]

theorem incoming_handleAppendEntries (n : Node) (sender : NodeId)
    (prevLogIndex prevLogTerm : Nat) (entries : List Entry)
    (leaderCommit seq : Nat) :
    (n.handleAppendEntries sender prevLogIndex prevLogTerm entries leaderCommit
      seq).1.incoming = n.incoming := by
  rcases handleAppendEntries_cases n sender prevLogIndex prevLogTerm entries
    leaderCommit seq with hidle | ⟨middle, prev, term, rest, hidle, _, _, _, heq⟩
  · exact congrArg Core.incoming hidle.core
  · rw [heq]
    exact (incoming_acceptEntries middle prev rest).trans
      (congrArg Core.incoming hidle.core)

theorem Beginning.piece (h : Beginning held n) {sender : NodeId}
    {about : SnapshotMeta} {offset : Nat} {data : Bytes} {done : Bool}
    (hpiece : PieceOf (held sender about) offset data done) (seq : Nat)
    (members : Option (List Member)) :
    Beginning held
      (n.handleInstallSnapshot sender about offset data done seq members).1 := by
  obtain ⟨habout, hbeginning⟩ := h.continuing sender about members
  obtain ⟨middle, hidle, _, hsame | hdropped | ⟨_, hkept | ⟨hoffset, hmore |
    ⟨_, hlast⟩⟩⟩⟩ := handleInstallSnapshot_cases n sender about offset data done
      seq members
  · rw [hsame]
    exact h.of_incoming (congrArg Core.incoming hidle.core)
  · rw [hdropped]
    exact Beginning.nothing rfl
  · rw [hkept]
    refine Beginning.kept sender rfl ?_
    rw [habout]
    exact hbeginning
  · rw [hmore]
    refine Beginning.kept sender rfl ?_
    have hextends := hpiece.extends hbeginning hoffset
    rw [← congrArg (held sender) habout] at hextends
    exact hextends
  · rw [hlast]
    exact Beginning.nothing (incoming_reloadMembership _)

theorem Beginning.move {inputs : Inputs}
    (hfaithful : forall core sender message, inputs.heard core sender message ->
      Faithful held sender message)
    (h : Beginning held n) (hmove : Move inputs n n') : Beginning held n' := by
  cases hmove with
  | idle hidle => exact h.of_incoming (congrArg Core.incoming hidle.core)
  | reload => exact h.of_incoming (incoming_reloadMembership n)
  | lead => exact h.of_incoming rfl
  | extend es hfresh => exact h.of_incoming rfl
  | configure members hadmitted =>
      exact h.of_incoming (incoming_reloadMembership _)
  | commit index hleader hhigher hheld => exact h.of_incoming rfl
  | entries sender prevLogIndex prevLogTerm entries leaderCommit seq hheard =>
      exact h.of_incoming (incoming_handleAppendEntries n _ _ _ _ _ _)
  | snapshot sender about offset data done seq members hheard =>
      exact h.piece (hfaithful _ _ _ hheard) seq members

theorem Beginning.moves {inputs : Inputs}
    (hfaithful : forall core sender message, inputs.heard core sender message ->
      Faithful held sender message)
    (h : Beginning held n) (hmoves : Moves inputs n n') : Beginning held n' := by
  induction hmoves with
  | refl => exact h
  | tail _ hmove ih => exact ih.move hfaithful hmove

theorem Beginning.step {host : Host} {operation : Operation}
    (h : Beginning held host.node) (hallowed : FaithfulPieces held host operation) :
    Beginning held (host.run operation).1.node := by
  have hfaithful : forall core sender message,
      (operation.inputs host.node).heard core sender message ->
        Faithful held sender message := by
    intro core sender message hheard
    cases operation with
    | receive origin received =>
        obtain ⟨_, rfl, rfl⟩ := hheard
        exact hallowed
    | _ => exact hheard.elim
  have hstep := Host.step host operation
  generalize host.run operation = result at hstep ⊢
  cases hstep with
  | moves hran => exact h.moves hfaithful hran.moves
  | take hop => exact h.of_incoming rfl
  | begin index sink hbegin => exact h
  | finish sink data hop =>
      refine h.of_incoming ?_
      unfold Node.finishCompaction
      split <;> rfl
  | restart config hop => exact Beginning.nothing (incoming_reloadMembership _)

theorem Beginning.run {host host' : Host}
    (hrun : Host.Run (FaithfulPieces held) host host')
    (h : Beginning held host.node) : Beginning held host'.node := by
  induction hrun with
  | refl => exact h
  | tail operation _ _ hallowed ih => exact ih.step hallowed

end Pieces

/-- However the pieces of any snapshots of any senders were lost, repeated and mixed,
with whatever else a follower did in between, a piece that arrives now leaves the
storage as it is or completes a snapshot that is all of what its sender holds for
it. -/
theorem installed_snapshot_whole {held : NodeId -> SnapshotMeta -> Bytes}
    {host host' : Host} (hstart : host.node.incoming = none)
    (hrun : Host.Run (FaithfulPieces held) host host') {sender : NodeId}
    {about : SnapshotMeta} {offset : Nat} {data : Bytes} {done : Bool}
    (hpiece : PieceOf (held sender about) offset data done) (seq : Nat)
    (members : Option (List Member)) :
    let n := host'.node
    let n' := (n.handleInstallSnapshot sender about offset data done seq members).1
    (n'.storage = n.storage ∧ n'.commitIndex = n.commitIndex ∧
        n'.lastApplied = n.lastApplied) ∨
      exists sink : MemSnapshot, sink.about = about ∧
        sink.data = held sender about ∧
        n'.storage = n.storage.installSnapshot sink ∧
        (n'.storage = n.storage ∨
          n'.storage.snapshotMeta = about ∧
            n'.storage.snapshot = held sender about) := by
  intro n n'
  have hbegin : Beginning held n := (Beginning.nothing hstart).run hrun
  obtain ⟨habout, hbeginning⟩ := hbegin.continuing sender about members
  have hquiet : forall (middle : Node) (incoming : Option (NodeId × MemSnapshot)),
      Idle n middle -> middle.storage = n.storage ->
      n' = { middle with incoming := incoming } ->
      n'.storage = n.storage ∧ n'.commitIndex = n.commitIndex ∧
        n'.lastApplied = n.lastApplied := by
    intro middle incoming hidle hstorage hsame
    rw [hsame]
    exact ⟨hstorage, congrArg Core.commitIndex hidle.core,
      congrArg Core.lastApplied hidle.core⟩
  obtain ⟨middle, hidle, hstorage, hsame | hdropped | ⟨_, hkept | ⟨hoffset,
    hmore | ⟨hdone, hlast⟩⟩⟩⟩ := handleInstallSnapshot_cases n sender about offset
      data done seq members
  · exact Or.inl (hquiet middle middle.incoming hidle hstorage hsame)
  · exact Or.inl (hquiet middle none hidle hstorage hdropped)
  · exact Or.inl (hquiet middle _ hidle hstorage hkept)
  · exact Or.inl (hquiet middle _ hidle hstorage hmore)
  · subst hdone
    have hwhole := hpiece.completes hbeginning hoffset
    have hinstalled : n'.storage = n.storage.installSnapshot
        (((n.continuing sender about).getD
          (MemStorage.newSnapshot about members)).writeAll data) := by
      rw [← hstorage]
      exact (congrArg Node.storage hlast).trans (storage_installReceived _ _ _)
    refine Or.inr ⟨((n.continuing sender about).getD
      (MemStorage.newSnapshot about members)).writeAll data, habout, hwhole,
      hinstalled, ?_⟩
    rw [hinstalled]
    exact installSnapshot_cases n.storage habout hwhole

def twoLeaders (sender : NodeId) (_ : SnapshotMeta) : Bytes :=
  if sender = 1 then [10, 20, 30] else [40, 50]

def follower : Host :=
  Host.start 3 [{ id := 3, context := [], learner := false }]
    {} {}

theorem installed_snapshot_whole_interleaved :
    follower.node.storage.snapshot = [] ∧
      (let n := ((follower.run (Operation.receive 1 (Message.installSnapshot 1 3 1 0
          [10, 20] false 0 none))).1.run (Operation.receive 2
          (Message.installSnapshot 1 3 1 0 [40] false 0 none))).1.node
       let n' := (n.handleInstallSnapshot 2 { index := 3, term := 1 } 1 [50] true 0
          none).1
       (n'.storage = n.storage ∧ n'.commitIndex = n.commitIndex ∧
          n'.lastApplied = n.lastApplied) ∨
        exists sink : MemSnapshot, sink.about = { index := 3, term := 1 } ∧
          sink.data = [40, 50] ∧
          n'.storage = n.storage.installSnapshot sink ∧
          (n'.storage = n.storage ∨
            n'.storage.snapshotMeta = { index := 3, term := 1 } ∧
              n'.storage.snapshot = [40, 50])) := by
  refine ⟨rfl, ?_⟩
  have hfirst : Host.Run (FaithfulPieces twoLeaders) follower
      (follower.run (Operation.receive 1
        (Message.installSnapshot 1 3 1 0 [10, 20] false 0 none))).1 :=
    Host.Run.tail _ (Host.Run.refl follower) trivial ⟨⟨2, rfl⟩, by decide⟩
  have hsecond := Host.Run.tail (Operation.receive 2
    (Message.installSnapshot 1 3 1 0 [40] false 0 none)) hfirst trivial
    ⟨⟨1, rfl⟩, by decide⟩
  exact installed_snapshot_whole rfl hsecond ⟨⟨1, rfl⟩, by decide⟩ 0 none

end Raft
end Minicask
