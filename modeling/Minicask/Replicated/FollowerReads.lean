import Minicask.Raft.ForwardedReads
import Minicask.Replicated.FleetReads

/-!
# Reads that a fleet forwards

A replica that does not lead asks its leader, and takes the answer by the number of its
question.  As long as no answer to the number has been sent or is pending when it asks,
whatever answer it takes covers all that was committed then, also where replicas stop
and come back in between.
-/

namespace Minicask
namespace Replicated

open Raft Consensus

/-!
# What an event does to the reads of a node
-/

/-- What can come of the reads of a node that hears some messages. -/
structure ReadsBy (heard : NodeId -> Message -> Prop) (node : Node)
    (result : Node × List Action) : Prop where
  pending : result.1.role = Role.leader ->
    forall read, read ∈ result.1.remoteReads ->
      node.role = Role.leader ∧ result.1.term = node.term ∧
        (read ∈ node.remoteReads ∨ exists sender term id,
          heard sender (Message.readIndex term id) ∧ read = asked node sender id)
  ready : forall id index,
    result.1.forwarded id = some (Answer.ready index) ->
      node.forwarded id = some (Answer.ready index) ∨ exists sender term,
        heard sender (Message.readIndexReply term id (some index))
  answers : forall action term id index, action ∈ result.2 ->
    action.message = Message.readIndexReply term id (some index) ->
      exists sender message read, heard sender message ∧
        Released node sender message read ∧ action.dest = read.sender ∧
        id = read.id ∧ index = read.index

section Events

variable {heard : NodeId -> Message -> Prop} {node : Node}
  {result : Node × List Action}

theorem ReadsBy.of_step {sender : NodeId} {message : Message}
    (h : ReadsStep node sender message result) (hheard : heard sender message) :
    ReadsBy heard node result where
  pending hrole read hread := by
    rcases h.pending hrole read hread with
      ⟨hlead, hterm, hold | ⟨term, id, rfl, hasked⟩⟩
    · exact ⟨hlead, hterm, Or.inl hold⟩
    · exact ⟨hlead, hterm, Or.inr ⟨sender, term, id, hheard, hasked⟩⟩
  ready id index hready := by
    rcases h.ready id index hready with hold | ⟨term, rfl⟩
    · exact Or.inl hold
    · exact Or.inr ⟨sender, term, hheard⟩
  answers action term id index haction hmessage := by
    rcases h.answers action term id index haction hmessage with ⟨read, hreleased⟩
    exact ⟨sender, message, read, hheard, hreleased⟩

theorem ReadsBy.of_kept (h : ReadsKept node result) :
    ReadsBy heard node result where
  pending hrole read hread := by
    rcases h.pending hrole with hnone | ⟨hlead, hterm, hsame⟩
    · rw [hnone] at hread
      cases hread
    · rw [hsame] at hread
      exact ⟨hlead, hterm, Or.inl hread⟩
  ready id index hready := by
    rw [h.forwarded] at hready
    exact Or.inl hready
  answers action term id index haction hmessage :=
    absurd hmessage (h.silent action haction term id index)

theorem readsBy_readIndex (node : Node) :
    ReadsBy heard node (node.readIndex.1, node.readIndex.2.2) := by
  unfold Node.readIndex
  split
  · exact ReadsBy.of_kept (readsKept_of_view rfl (openReadRound_silent _))
  · next hrole =>
      cases node.leaderId with
      | none => exact ReadsBy.of_kept (readsKept_self _)
      | some leader =>
          refine ⟨fun hlead => absurd hlead hrole, fun id index hready => ?_,
            fun action term id index haction hmessage => ?_⟩
          · rcases Table.insert_eq_some hready with ⟨_, hanswer⟩ | hold
            · cases hanswer
            · exact Or.inl hold
          · rw [List.mem_singleton.mp haction] at hmessage
            cases hmessage

theorem readsBy_forgetRead (node : Node) (request : ReadRequest) :
    ReadsBy heard node (node.forgetRead request, []) where
  pending hrole read hread := by
    rw [forgetRead_role] at hrole
    rw [forgetRead_remoteReads] at hread
    exact ⟨hrole, forgetRead_term node request, Or.inl hread⟩
  ready id index hready := Or.inl (forgetRead_ready node request hready)
  answers action term id index haction := absurd haction List.not_mem_nil

theorem accepted_elim {answer : Type} {P : Node × List Action -> Prop} {node : Node}
    {result : Except ProposeError (Node × answer × List Action)} (hself : P (node, []))
    (hok : forall next value actions, result = Except.ok (next, value, actions) ->
      P (next, actions)) :
    P ((({ node := node } : Host).accepted result).1.node,
      (({ node := node } : Host).accepted result).2) := by
  cases result with
  | error why => exact hself
  | ok done => exact hok done.1 done.2.1 done.2.2 rfl

/-- What an event does to the reads of the node. -/
theorem Event.readsBy (r : ReplicatedStore) (e : Event) :
    ReadsBy (fun sender message => exists env, e = Event.step env sender message)
      r.node (e.node r, e.sent r) := by
  rcases Event.node_cases r e with ⟨hnone, hnode⟩ | ⟨operation, hsome, hnode⟩
  · rw [hnode, Event.sent_none hnone]
    exact ReadsBy.of_kept (readsKept_self _)
  · rw [hnode, Event.sent_some hsome]
    cases Event.comes hsome with
    | tick => exact ReadsBy.of_kept (readsKept_tick _)
    | campaign => exact ReadsBy.of_kept (readsKept_campaign _)
    | propose hcommand =>
        exact accepted_elim (ReadsBy.of_kept (readsKept_self _))
          fun _ _ _ hok => ReadsBy.of_kept (readsKept_propose _ hok)
    | proposeBatch hcommands =>
        exact accepted_elim (ReadsBy.of_kept (readsKept_self _))
          fun _ _ _ hok => ReadsBy.of_kept (readsKept_proposeBatch _ hok)
    | proposeMembership members =>
        exact accepted_elim (ReadsBy.of_kept (readsKept_self _))
          fun _ _ _ hok => ReadsBy.of_kept (readsKept_proposeMembership _ hok)
    | readIndex => exact readsBy_readIndex _
    | forgetRead request => exact readsBy_forgetRead _ request
    | receive heq => exact ReadsBy.of_step (readsStep_step _ _ _) ⟨_, heq⟩

theorem keeps_readView (view : Role × Nat × List RemoteRead × Table Answer) :
    Keeps (fun n => readView n = view) (fun _ => True) where
  take h := h
  begins _ _ := trivial
  written _ _ := trivial
  finish {n sink} h _ := by
    rw [← h]
    unfold Node.finishCompaction
    split
    · rfl
    · simp only [readView, Node.term, MemStorage.installSnapshot]
      split <;> rfl

theorem System.next_readView {s s' : System} {e : Event}
    (hnext : s.next e = Except.ok s') :
    readView s'.replica.node = readView (e.node s.replica) := by
  have hbegun : Begun (fun _ => True) s.snapshot := by
    cases s.snapshot <;> trivial
  exact ((keeps_readView _).next rfl hbegun hnext).1

end Events

/-!
# Answers along a run of a fleet
-/

/-- A pending read of this number covers what was committed at `a₀`, and so does an
answer that the replica has. -/
def Awaiting (B : List Member) (a₀ a : Past) (n : NodeId) (id : Nat) (m : NodeId) :
    Stage -> Prop
  | Stage.up s =>
      (s.replica.node.role = Role.leader ->
        forall read, read ∈ s.replica.node.remoteReads -> read.sender = n ->
          read.id = id -> exists a₁, Consensus.Run (setting B) a₀ a₁ ∧
            Raft.Opened B a₁ a m read.seq read.index) ∧
      (m = n -> forall index,
        s.replica.node.forwarded id = some (Answer.ready index) -> Covers a₀ index)
  | Stage.down _ _ => True

/-- Every answer to a question of this number that was sent or taken covers what was
committed at `a₀`, and so will every answer still pending. -/
structure Questioned (B : List Member) (a₀ a : Past) (n : NodeId) (id : Nat)
    (f : Fleet) : Prop where
  sent : forall envelope term index, envelope ∈ f.sent -> envelope.dest = n ->
    envelope.message = Message.readIndexReply term id (some index) ->
    Covers a₀ index
  hosts : forall m, Awaiting B a₀ a n id m (f.hosts m)

section Answers

variable {B : List Member} {a₀ a b : Past} {n m : NodeId} {id : Nat} {f g : Fleet}

theorem Awaiting.still {stage : Stage} (h : Awaiting B a₀ a n id m stage)
    (hrun : Consensus.Run (setting B) a b) (ha : Hosted B a m stage)
    (hb : Hosted B b m stage) : Awaiting B a₀ b n id m stage := by
  cases stage with
  | down disk storage => trivial
  | up s =>
      refine ⟨fun hrole read hread hsender hid => ?_, h.2⟩
      rcases h.1 hrole read hread hsender hid with ⟨a₁, hrun₁, hopened⟩
      exact ⟨a₁, hrun₁, hopened.run_on hrun (hb.1.term_eq.symm.trans ha.1.term_eq)⟩

theorem Questioned.still (h : Questioned B a₀ a n id f) (ha : Traced B f a)
    (hrun : Consensus.Run (setting B) a b) (hb : Traced B f b) :
    Questioned B a₀ b n id f :=
  ⟨h.sent, fun m => (h.hosts m).still hrun (ha.hosts m) (hb.hosts m)⟩

theorem Questioned.moved (h : Questioned B a₀ a n id f) (ha : Traced B f a)
    (hsince : Consensus.Run (setting B) a₀ a) (hrun : Consensus.Run (setting B) a b)
    {s s' : System} (hup : f.hosts m = Stage.up s) (hb : NodeOk B b m s'.replica.node)
    {heard : NodeId -> Message -> Prop} {node : Node} {actions : List Action}
    (hreads : ReadsBy heard s.replica.node (node, actions))
    (hview : readView s'.replica.node = readView node)
    (harrives : forall sender message, heard sender message ->
      { sender := sender, dest := m, message := message } ∈ f.sent) :
    Awaiting B a₀ b n id m (Stage.up s') := by
  have hhosted := ha.hosts m
  have hawaiting := h.hosts m
  rw [hup] at hhosted hawaiting
  simp only [readView, Prod.mk.injEq] at hview
  rcases hview with ⟨hrole', hterm', hremote', hforwarded'⟩
  refine ⟨fun hrole read hread hsender hid => ?_, fun hm index hready => ?_⟩
  · rw [hrole'] at hrole
    rw [hremote'] at hread
    rcases hreads.pending hrole read hread with
      ⟨hlead, hterm, hold | ⟨sender, term, id', _, hasked⟩⟩
    · rcases hawaiting.1 hlead read hold hsender hid with ⟨a₁, hrun₁, hopened⟩
      refine ⟨a₁, hrun₁, hopened.run_on hrun ?_⟩
      rw [← hb.term_eq, hterm', hterm, hhosted.1.term_eq]
    · rw [hasked]
      refine ⟨a, hsince, hhosted.1.opened hlead hrun ?_⟩
      rw [← hb.term_eq, hterm', hterm, hhosted.1.term_eq]
  · rw [hforwarded'] at hready
    rcases hreads.ready id index hready with hold | ⟨sender, term, hheard⟩
    · exact hawaiting.2 hm index hold
    · exact h.sent _ term index (harrives sender _ hheard) hm rfl

/-- An answer that is sent is to a read that was pending, and whose round has been
confirmed. -/
theorem Questioned.answers (h : Questioned B a₀ a n id f)
    (hinv : Inv (setting B) a₀) (ha : Traced B f a) {s : System}
    (hup : f.hosts m = Stage.up s) {heard : NodeId -> Message -> Prop}
    {result : Node × List Action} (hreads : ReadsBy heard s.replica.node result)
    (harrives : forall sender message, heard sender message ->
      { sender := sender, dest := m, message := message } ∈ f.sent)
    {action : Action} {term index : Nat} (haction : action ∈ result.2)
    (hdest : action.dest = n)
    (hmessage : action.message = Message.readIndexReply term id (some index)) :
    Covers a₀ index := by
  have hhosted := ha.hosts m
  have hawaiting := h.hosts m
  rw [hup] at hhosted hawaiting
  rcases hreads.answers action term id index haction hmessage with
    ⟨sender, message, read, hheard, ⟨hmem, hrole, term', seq, next, released, hround,
      hround', hconfirmed⟩, hsender, hid, hindex⟩
  rcases hawaiting.1 hrole read hmem (hsender ▸ hdest) hid.symm with
    ⟨a₁, hrun, hopened⟩
  have hmsg := ha.messages _ (harrives sender message hheard)
  rcases hhosted.1.heardRound (heard_of_msgOk hround hmsg) hround' with
    ⟨_, hnextRole, hnext, _⟩
  have hcovers := hopened.covers (hinv.run_extends hrun).1
    (hnext.roundConfirmed hnextRole hconfirmed)
  rw [hindex]
  exact hcovers.of_run hinv hrun

theorem Questioned.put (h : Questioned B a₀ a n id f) (ha : Traced B f a)
    (hrun : Consensus.Run (setting B) a b) {stage : Stage} {actions : List Action}
    (hb : Traced B (f.put m stage actions) b)
    (hstage : Awaiting B a₀ b n id m stage)
    (hsent : forall action term index, action ∈ actions -> action.dest = n ->
      action.message = Message.readIndexReply term id (some index) ->
      Covers a₀ index) :
    Questioned B a₀ b n id (f.put m stage actions) := by
  refine ⟨fun envelope term index hmem hdest hmessage => ?_, fun k => ?_⟩
  · rcases Fleet.mem_sent_put hmem with hold | ⟨action, haction, rfl⟩
    · exact h.sent envelope term index hold hdest hmessage
    · exact hsent action term index haction hdest hmessage
  · by_cases hk : k = m
    · subst hk
      rw [Fleet.put_self]
      exact hstage
    · have hhosted := hb.hosts k
      rw [Fleet.put_of_ne hk] at hhosted ⊢
      exact (h.hosts k).still hrun (ha.hosts k) hhosted

/-- Nothing that happens to a fleet makes an answer worse. -/
theorem Questioned.step {allowed : Bytes -> Prop} (h : Questioned B a₀ a n id f)
    (hinv : Inv (setting B) a₀) (ha : Traced B f a)
    (hsince : Consensus.Run (setting B) a₀ a)
    (hrun : Consensus.Run (setting B) a b) (hb : Traced B g b)
    (hstep : Fleet.Step B allowed f g) : Questioned B a₀ b n id g := by
  cases hstep with
  | @next k e s s' hup hallows hnext hindex =>
      have hreads := Event.readsBy s.replica e
      have harrives : forall sender message,
          (exists env, e = Event.step env sender message) ->
          { sender := sender, dest := k, message := message } ∈ f.sent := by
        rintro sender message ⟨env, he⟩
        exact hallows.arrives env sender message he
      have hhosted := hb.hosts k
      rw [Fleet.put_self] at hhosted
      exact h.put ha hrun hb
        (h.moved ha hsince hrun hup hhosted.1 hreads (System.next_readView hnext)
          harrives)
        fun action term index haction hdest hmessage =>
          h.answers hinv ha hup hreads harrives haction hdest hmessage
  | @restarted k disk storage hdown opts config env snapshotEvery background store r
      hopen hnew hindex =>
      have hview : readView r.node =
          (Role.follower, storage.hardState.term, [], Table.empty) := by
        rw [(new_cases hnew).node_eq]
        exact withMembers_readView k B config storage
      simp only [readView, Prod.mk.injEq] at hview
      rcases hview with ⟨hrole, _, _, hforwarded⟩
      refine h.put ha hrun hb ⟨fun hlead => ?_, fun _ index hready => ?_⟩
        fun _ _ _ haction => absurd haction List.not_mem_nil
      · cases hrole.symm.trans hlead
      · cases (congrFun hforwarded id).symm.trans hready
  | _ =>
      exact h.put ha hrun hb trivial fun _ _ _ haction =>
        absurd haction List.not_mem_nil

end Answers

/-!
# The question itself
-/

/-- No answer to the next question of a replica is around: none was sent to it, and no
leader has one pending. -/
def Fleet.Unanswered (f : Fleet) (n : NodeId) (s : System) : Prop :=
  (forall envelope term index, envelope ∈ f.sent -> envelope.dest = n ->
    envelope.message ≠ Message.readIndexReply term
      (s.replica.node.nextRead + 1) (some index)) ∧
  forall m t read, f.hosts m = Stage.up t -> t.replica.node.role = Role.leader ->
    read ∈ t.replica.node.remoteReads -> read.sender = n ->
    read.id ≠ s.replica.node.nextRead + 1

theorem forwarded_ready {n : Node} {id leader i : Nat}
    (h : n.readState (ReadRequest.forwarded id leader) = ReadState.ready i) :
    n.forwarded id = some (Answer.ready i) := by
  unfold Node.readState at h
  dsimp only at h
  split at h
  · next heq =>
      cases h
      exact heq
  · split at h <;> cases h
  · cases h

theorem questioned_of_unanswered {B : List Member} {a₀ a : Past} {f : Fleet}
    {n leader : NodeId} {s : System} (hrole : s.replica.node.role ≠ Role.leader)
    (hleader : s.replica.node.leaderId = some leader) (h : f.Unanswered n s) :
    Questioned B a₀ a n (s.replica.node.nextRead + 1) (f.ask n s) := by
  have hasked := readIndex_forwarded hrole hleader
  have hnode : s.replica.readIndex.1.node = s.replica.node.readIndex.1 := rfl
  have hsent : Event.readIndex.sent s.replica = s.replica.node.readIndex.2.2 := rfl
  rw [hasked] at hnode hsent
  unfold Fleet.ask
  rw [hsent]
  refine ⟨fun envelope term index hmem hdest hmessage => ?_, fun m => ?_⟩
  · rcases Fleet.mem_sent_put hmem with hold | ⟨action, haction, rfl⟩
    · exact absurd hmessage (h.1 envelope term index hold hdest)
    · rw [List.mem_singleton.mp haction] at hmessage
      cases hmessage
  · by_cases hm : m = n
    · subst hm
      rw [Fleet.put_self]
      refine ⟨fun hlead => ?_, fun _ index hready => ?_⟩
      · change s.replica.readIndex.1.node.role = Role.leader at hlead
        rw [hnode] at hlead
        exact absurd hlead hrole
      · change s.replica.readIndex.1.node.forwarded _ = _ at hready
        rw [hnode] at hready
        simp [Table.insert] at hready
    · rw [Fleet.put_of_ne hm]
      cases hup : f.hosts m with
      | down disk storage => trivial
      | up t =>
          refine ⟨fun hlead read hread hsender hid => ?_, fun hmn => absurd hmn hm⟩
          exact absurd hid (h.2 m t read hup hlead hread hsender)

/-- A read that is ready covers what was committed when it was asked, if the answers to
a forwarded one do. -/
theorem ready_covers {B : List Member} {a b : Past} {f g : Fleet} {n : NodeId}
    {s t : System} {i : Nat} (ha : Traced B f a) (hrun : Consensus.Run (setting B) a b)
    (hb : Traced B g b) (hup : f.hosts n = Stage.up s)
    (hread : g.hosts n = Stage.up t)
    (hanswers : s.replica.node.role ≠ Role.leader ->
      forall leader, s.replica.node.leaderId = some leader ->
        Questioned B a b n (s.replica.node.nextRead + 1) g)
    (hready : t.replica.node.readState s.replica.readIndex.2.1 =
      ReadState.ready i) : Covers a i := by
  have hasking := ha.hosts n
  have hreading := hb.hosts n
  rw [hup] at hasking
  rw [hread] at hreading
  have hrequest : s.replica.readIndex.2.1 = s.replica.node.readIndex.2.1 := rfl
  rw [hrequest] at hready
  by_cases hrole : s.replica.node.role = Role.leader
  · unfold Node.readIndex at hready
    rw [if_pos hrole] at hready
    rcases localRead_ready hready with ⟨hleads, hterm, hconfirmed, rfl⟩
    have hsame : b.term n = a.term n := by
      rw [← hreading.1.term_eq, ← hasking.1.term_eq]
      exact hterm
    exact (hasking.1.opened hrole hrun hsame).covers ha.inv
      (hreading.1.roundConfirmed hleads hconfirmed)
  · cases hleader : s.replica.node.leaderId with
    | none =>
        unfold Node.readIndex at hready
        rw [if_neg hrole, hleader] at hready
        cases hready
    | some leader =>
        rw [readIndex_forwarded hrole hleader] at hready
        have hlast := (hanswers hrole leader hleader).hosts n
        rw [hread] at hlast
        exact hlast.2 rfl i (forwarded_ready hready)

end Replicated
end Minicask
