import Minicask.Raft.Questions
import Minicask.Replicated.FollowerReads

/-!
# Reads of a replica that has not been stopped

A replica counts its questions from one, and starts over only when it is stopped.  Until
then no answer to its next question can be around, and whatever answer it takes covers
all that any replica had applied when it asked, whether it leads or not.
-/

namespace Minicask
namespace Replicated

open Raft Consensus

/-!
# What an event does to the numbers
-/

theorem Event.counts (r : ReplicatedStore) (e : Event) :
    CountsReads r.node (e.node r, e.sent r) := by
  rcases Event.node_cases r e with ⟨hnone, hnode⟩ | ⟨operation, hsome, hnode⟩
  · rw [hnode, Event.sent_none hnone]
    exact (unasking_none _ rfl).counts
  · rw [hnode, Event.sent_some hsome]
    cases Event.comes hsome with
    | tick => exact (unasking_tick _).counts
    | campaign => exact (unasking_campaign _).counts
    | propose hcommand =>
        exact accepted_elim (unasking_none _ rfl).counts
          fun _ _ _ hok => (unasking_propose _ hok).counts
    | proposeBatch hcommands =>
        exact accepted_elim (unasking_none _ rfl).counts
          fun _ _ _ hok => (unasking_proposeBatch _ hok).counts
    | proposeMembership members =>
        exact accepted_elim (unasking_none _ rfl).counts
          fun _ _ _ hok => (unasking_proposeMembership _ hok).counts
    | readIndex => exact counts_readIndex _
    | forgetRead request =>
        exact (unasking_none _ (nextRead_forgetRead _ request)).counts
    | receive heq => exact (unasking_step _ _ _).counts

theorem keeps_nextRead (k : Nat) :
    Keeps (fun n => n.nextRead = k) (fun _ => True) where
  take h := h
  begins _ _ := trivial
  written _ _ := trivial
  finish h _ := (nextRead_finishCompaction _ _).trans h

theorem System.next_nextRead {s s' : System} {e : Event}
    (hnext : s.next e = Except.ok s') :
    s'.replica.node.nextRead = (e.node s.replica).nextRead := by
  have hbegun : Begun (fun _ => True) s.snapshot := by
    cases s.snapshot <;> trivial
  exact ((keeps_nextRead _).next rfl hbegun hnext).1

/-!
# Where the numbers are
-/

/-- The numbers of a replica's questions, wherever they are, go up to `k`. -/
structure Numbered (n : NodeId) (k : Nat) (f : Fleet) : Prop where
  questions : forall envelope term id, envelope ∈ f.sent -> envelope.sender = n ->
    envelope.message = Message.readIndex term id -> id <= k
  answers : forall envelope term id index, envelope ∈ f.sent -> envelope.dest = n ->
    envelope.message = Message.readIndexReply term id (some index) -> id <= k
  pending : forall m t read, f.hosts m = Stage.up t ->
    t.replica.node.role = Role.leader -> read ∈ t.replica.node.remoteReads ->
    read.sender = n -> read.id <= k

def Stage.asked : Stage -> Nat
  | Stage.up s => s.replica.node.nextRead
  | Stage.down _ _ => 0

section Numbers

variable {B : List Member} {allowed : Bytes -> Prop} {n m : NodeId} {k k' : Nat}
  {f g : Fleet}

theorem Numbered.start (n : NodeId) : Numbered n 0 Fleet.start where
  questions _ _ _ hmem := absurd hmem List.not_mem_nil
  answers _ _ _ _ hmem := absurd hmem List.not_mem_nil
  pending _ _ _ hup := by cases hup

theorem Numbered.put (h : Numbered n k f) (hle : k <= k') {stage : Stage}
    {actions : List Action}
    (hquestions : forall action term id, action ∈ actions -> m = n ->
      action.message = Message.readIndex term id -> id <= k')
    (hanswers : forall action term id index, action ∈ actions -> action.dest = n ->
      action.message = Message.readIndexReply term id (some index) -> id <= k')
    (hpending : forall t read, stage = Stage.up t ->
      t.replica.node.role = Role.leader -> read ∈ t.replica.node.remoteReads ->
      read.sender = n -> read.id <= k') : Numbered n k' (f.put m stage actions) := by
  refine ⟨fun envelope term id hmem hsender hmessage => ?_,
    fun envelope term id index hmem hdest hmessage => ?_,
    fun j t read hup hrole hread hsender => ?_⟩
  · rcases Fleet.mem_sent_put hmem with hold | ⟨action, haction, rfl⟩
    · exact (h.questions envelope term id hold hsender hmessage).trans hle
    · exact hquestions action term id haction hsender hmessage
  · rcases Fleet.mem_sent_put hmem with hold | ⟨action, haction, rfl⟩
    · exact (h.answers envelope term id index hold hdest hmessage).trans hle
    · exact hanswers action term id index haction hdest hmessage
  · by_cases hj : j = m
    · subst hj
      rw [Fleet.put_self] at hup
      exact hpending t read hup hrole hread hsender
    · rw [Fleet.put_of_ne hj] at hup
      exact (h.pending j t read hup hrole hread hsender).trans hle

theorem Numbered.settle (h : Numbered n k f) {stage : Stage}
    (hpending : forall t, stage = Stage.up t ->
      t.replica.node.role ≠ Role.leader) : Numbered n k (f.put m stage []) :=
  h.put (Nat.le_refl k) (fun _ _ _ haction => absurd haction List.not_mem_nil)
    (fun _ _ _ _ haction => absurd haction List.not_mem_nil)
    fun t _ hup hrole => absurd hrole (hpending t hup)

/-- An event answers questions and takes them up, and what the replica itself asks has a
number that it has counted to. -/
theorem Numbered.next (h : Numbered n k f) (hle : k <= k') {s s' : System} {e : Event}
    (hup : f.hosts m = Stage.up s) (hallows : f.Allows allowed m s.replica e)
    (hnext : s.next e = Except.ok s')
    (hasked : m = n -> s'.replica.node.nextRead <= k') :
    Numbered n k' (f.put m (Stage.up s') (e.sent s.replica)) := by
  have hreads := Event.readsBy s.replica e
  have hview := System.next_readView hnext
  simp only [readView, Prod.mk.injEq] at hview
  rcases hview with ⟨hrole', _, hremote', _⟩
  refine h.put hle (fun action term id haction hm hmessage => ?_)
    (fun action term id index haction hdest hmessage => ?_)
    fun t read ht hrole hread hsender => ?_
  · have hcounted := (Event.counts s.replica e).asked action term id haction hmessage
    rw [← System.next_nextRead hnext] at hcounted
    exact hcounted.trans (hasked hm)
  · rcases hreads.answers action term id index haction hmessage with
      ⟨_, _, read, _, ⟨hmem, hlead, _⟩, hdest', hid, _⟩
    rw [hid]
    exact (h.pending m s read hup hlead hmem (hdest'.symm.trans hdest)).trans hle
  · cases ht
    rw [hrole'] at hrole
    rw [hremote'] at hread
    rcases hreads.pending hrole read hread with
      ⟨hlead, _, hold | ⟨sender, term, id, ⟨env, he⟩, hasking⟩⟩
    · exact (h.pending m s read hup hlead hold hsender).trans hle
    · rw [hasking] at hsender ⊢
      have harrived := hallows.arrives env sender _ he
      exact (h.questions _ term id harrived hsender rfl).trans hle

theorem follows_up {s : System} (h : s.replica.node.role = Role.follower) :
    forall t, Stage.up s = Stage.up t -> t.replica.node.role ≠ Role.leader := by
  intro t ht hrole
  cases ht
  cases h.symm.trans hrole

theorem Numbered.stopped (h : Numbered n (f.hosts n).asked f) {s : System}
    {disk : Disk} {storage : MemStorage} (hup : f.hosts m = Stage.up s)
    (hspared : (f.hosts n).runs = true ->
      ((f.put m (Stage.down disk storage) []).hosts n).runs = true) :
    Numbered n ((f.put m (Stage.down disk storage) []).hosts n).asked
      (f.put m (Stage.down disk storage) []) := by
  by_cases hm : n = m
  · subst hm
    rw [hup, Fleet.put_self] at hspared
    cases hspared rfl
  · rw [Fleet.put_of_ne hm]
    exact h.settle (by simp)

/-- As long as a replica is not stopped, it has counted as far as its numbers go. -/
theorem Numbered.spares (h : Numbered n (f.hosts n).asked f)
    (hspares : Fleet.Spares B allowed n f g) : Numbered n (g.hosts n).asked g := by
  rcases hspares with ⟨hstep, hspared⟩
  cases hstep with
  | @next m e s s' hup hallows hnext hindex =>
      by_cases hm : n = m
      · subst hm
        rw [Fleet.put_self]
        rw [hup] at h
        refine h.next ?_ hup hallows hnext fun _ => Nat.le_refl _
        show s.replica.node.nextRead <= s'.replica.node.nextRead
        rw [System.next_nextRead hnext]
        exact (Event.counts s.replica e).grows
      · rw [Fleet.put_of_ne hm]
        exact h.next (Nat.le_refl _) hup hallows hnext fun heq => absurd heq.symm hm
  | stopped m hup hquiet hkilled => exact h.stopped hup hspared
  | caught m hup hallows happlies hquiet hindex hkilled =>
      exact h.stopped hup hspared
  | @restarted m disk storage hdown opts config env snapshotEvery background store r
      hopen hnew hindex =>
      have hnode : r.node = Node.withMembers m B config storage :=
        (new_cases hnew).node_eq
      have hview := withMembers_readView m B config storage
      rw [← hnode] at hview
      simp only [readView, Prod.mk.injEq] at hview
      by_cases hm : n = m
      · subst hm
        rw [hdown] at h
        rw [Fleet.put_self]
        have hcounted : r.node.nextRead = 0 := by
          rw [hnode]
          exact nextRead_withMembers _ _ _ _
        show Numbered n r.node.nextRead _
        rw [hcounted]
        exact h.settle (follows_up hview.1)
      · rw [Fleet.put_of_ne hm]
        exact h.settle (follows_up hview.1)

theorem Numbered.steady (h : Numbered n (f.hosts n).asked f)
    (hrun : Fleet.Steady B allowed n f g) : Numbered n (g.hosts n).asked g := by
  induction hrun with
  | refl => exact h
  | tail _ hspares ih => exact ih.spares hspares

/-- A replica that has not been stopped has a number for its next question that no
answer has. -/
theorem unanswered_of_steady (hrun : Fleet.Steady B allowed n Fleet.start f)
    {s : System} (hup : f.hosts n = Stage.up s) : f.Unanswered n s := by
  have hnumbered := (Numbered.start n).steady hrun
  rw [hup] at hnumbered
  refine ⟨fun envelope term index hmem hdest hmessage => ?_,
    fun m t read ht hrole hread hsender hid => ?_⟩
  · exact Nat.not_succ_le_self _
      (hnumbered.answers envelope term _ index hmem hdest hmessage)
  · have hcounted := hnumbered.pending m t read ht hrole hread hsender
    rw [hid] at hcounted
    exact Nat.not_succ_le_self _ hcounted

end Numbers

/-!
# The read itself
-/

theorem Tracked.answers {B : List Member} {allowed : Bytes -> Prop}
    (hallowed : forall command, allowed command -> Writes command) {a₀ a : Past}
    {known : Nat -> Entry -> Prop} {n : NodeId} {id : Nat} {f g : Fleet}
    {forwards : Prop} (ha : Tracked B allowed f a known) (hinv : Inv (setting B) a₀)
    (hsince : Consensus.Run (setting B) a₀ a)
    (h : forwards -> Questioned B a₀ a n id f) (hrun : Fleet.Run B allowed f g) :
    exists b known', Consensus.Run (setting B) a₀ b ∧
      (forall i e, known i e -> known' i e) ∧ Tracked B allowed g b known' ∧
      (forwards -> Questioned B a₀ b n id g) := by
  induction hrun with
  | refl => exact ⟨a, known, hsince, fun _ _ hknown => hknown, ha, h⟩
  | tail _ hstep ih =>
      rcases ih with ⟨b, known', hsinceb, hmore, hb, hanswers⟩
      rcases hb.step hallowed hstep with ⟨d, known'', hbd, hmore', hd, _⟩
      refine ⟨d, known'', hsinceb.trans hbd,
        fun i e hknown => hmore' i e (hmore i e hknown), hd, fun hforwards => ?_⟩
      exact (hanswers hforwards).step hinv hb.traced hsinceb hbd hd.traced hstep

/-- A replica that has not been stopped asks for a read, itself or through its leader,
and no answer to the question is around.  Whatever happens then, when the read is ready
it sees all that any replica had applied when it was asked. -/
theorem steady_read_sees_all {B : List Member} {allowed : Bytes -> Prop}
    (hallowed : forall command, allowed command -> Writes command) {f g : Fleet}
    {n : NodeId} {s t : System} {i : Nat}
    (hf : Fleet.Steady B allowed n Fleet.start f) (hup : f.hosts n = Stage.up s)
    (hasked : Fleet.Step B allowed f (f.ask n s))
    (hg : Fleet.Run B allowed (f.ask n s) g) (hread : g.hosts n = Stage.up t)
    (hready : t.replica.readState s.replica.readIndex.2.1 = ReadState.ready i) :
    f.Unanswered n s ∧
    exists c : Committed, c.Short ∧ (forall j, (c.entry j).Allowed allowed) ∧
      f.Folds c ∧ (forall m, (f.hosts m).applied <= t.replica.applied) ∧
      forall k, t.replica.get k =
        Except.ok (c.contents t.replica.applied k) := by
  have hunanswered := unanswered_of_steady hf hup
  rcases (Tracked.start B allowed).run hallowed hf.run with ⟨a, known, _, _, ha, _⟩
  rcases readState_ready hready with ⟨hready, hreached⟩
  rcases ha.step hallowed hasked with ⟨a', known₁, hrun₁, hmore₁, ha', _⟩
  have hfirst : s.replica.node.role ≠ Role.leader ∧
        (exists leader, s.replica.node.leaderId = some leader) ->
      Questioned B a a' n (s.replica.node.nextRead + 1) (f.ask n s) := by
    rintro ⟨hrole, leader, hleader⟩
    exact questioned_of_unanswered hrole hleader hunanswered
  rcases ha'.answers hallowed ha.traced.inv hrun₁ hfirst hg with
    ⟨b, known', hrun, hmore, hb, hlast⟩
  have hcovers : Covers a i := ready_covers ha.traced hrun hb.traced hup hread
    (fun hrole leader hleader => hlast ⟨hrole, leader, hleader⟩) hready
  rcases hb.learned.exists_log hb.traced.inv hallowed with
    ⟨c, hshort, hrecords, hcommands⟩
  refine ⟨hunanswered, c, hshort, hcommands, (ha.stands c hshort
    fun j e hknown => hrecords j e (hmore j e (hmore₁ j e hknown))).folds,
    fun m => ?_, ?_⟩
  · rcases (ha.reached m).counted with ⟨U, hU⟩
    exact (hU.trans (hcovers U)).trans hreached
  · exact ((hb.stands c hshort hrecords).folds n t hread).1

/-- What node 1 sends and hears when node 2 has asked it for a read. -/
def pairReplies : List Gesture :=
  [Gesture.receive ⟨2, 1, Message.readIndex 1 1⟩,
    Gesture.receive ⟨1, 2, Message.appendEntries 1 2 1 [] 2 1⟩,
    Gesture.receive ⟨2, 1, Message.appendEntriesReply 1 true 2 0 none 1⟩,
    Gesture.receive ⟨1, 2, Message.readIndexReply 1 1 (some 2)⟩]

/-- Node 2 has a put of its leader and asks for a read, and the leader is stopped once it
has answered. -/
theorem steady_read_sees_all_pair :
    exists (f g : Fleet) (s t : System) (c : Committed),
      f.hosts 2 = Stage.up s ∧ s.replica.node.role = Role.follower ∧
      f.Unanswered 2 s ∧ g.hosts 2 = Stage.up t ∧ t.replica.applied = 2 ∧ c.Short ∧
      f.Folds c ∧ (forall m, (f.hosts m).applied <= 2) ∧
      t.replica.get [7] = Except.ok (c.contents 2 [7]) := by
  let asking := Sketch.pair.replay (pairElects ++ pairWrites)
  let asked := asking.next (Gesture.readIndex 2)
  let answered := asked.replay (pairReplies ++ [Gesture.restart 1])
  have hstate : (asking.nodes 2).role = Role.follower ∧
      asking.allows (Gesture.readIndex 2) = true ∧ answered.applied 2 = 2 ∧
      (answered.nodes 2).readState (asking.nodes 2).readIndex.2.1 =
        ReadState.ready 2 := by decide +kernel
  rcases hstate with ⟨hrole, hallows, happlied, hready⟩
  rcases Sketch.exists_pair with ⟨_, hstart, hpair⟩
  rcases hpair.replay (pairElects ++ pairWrites) (by decide +kernel) with
    ⟨f, _, hsteady, hf⟩
  rcases hf.hosts 2 (by decide) with ⟨s, hup, hs⟩
  rcases hf.asks hup hs hallows with ⟨hasks, hasked⟩
  rcases hasked.replay (pairReplies ++ [Gesture.restart 1]) (by decide +kernel) with
    ⟨g, hreplies, _, hg⟩
  rcases hg.hosts 2 (by decide) with ⟨t, hread, ht⟩
  rw [happlied] at ht
  rcases steady_read_sees_all OnlyPut.writes
    ((hstart 2).trans (hsteady 2 (by decide))) hup hasks hreplies hread
    (readState_shown hs ht hready) with
    ⟨hunanswered, c, hlog, _, hfolds, hreached, hget⟩
  rw [ht.applied] at hreached hget
  exact ⟨f, g, s, t, c, hup, hs.node ▸ hrole, hunanswered, hread, ht.applied, hlog, hfolds,
    hreached, hget [7]⟩

end Replicated
end Minicask
