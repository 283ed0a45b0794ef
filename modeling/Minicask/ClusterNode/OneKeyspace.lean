import Minicask.ClusterNode.Commands
import Minicask.ClusterNode.Linearizable

/-!
# A cluster serves one keyspace

What `server.rs` serves from a store, a cluster serves from its log: a keyspace that its
writes change one after another, and that its reads look at.
-/

namespace Minicask
namespace ClusterNode

open Replicated Resp Replay
open Raft hiding Event
open Server (Keyspace)

theorem exists_keyspaces (c : Committed) :
    exists m : Nat -> Keyspace, forall p, (m p).value = c.contents p := by
  have hall : forall p, exists m : Keyspace, m.value = c.contents p := by
    intro p
    induction p with
    | zero => exact ⟨Keyspace.nothing, rfl⟩
    | succ p ih =>
        rcases ih with ⟨m, hm⟩
        rw [Committed.contents_succ, ← hm]
        cases c.op (p + 1) with
        | none => exact ⟨m, rfl⟩
        | some op =>
            cases op with
            | put key value => exact ⟨m.put key value, rfl⟩
            | delete key =>
                refine ⟨m.remove {key}, funext fun k => ?_⟩
                show (if k ∈ ({key} : Finset Bytes) then none else m.value k) =
                  Function.update m.value key none k
                rw [Function.update_apply]
                simp only [Finset.mem_singleton]
  choose m hm using hall
  exact ⟨m, hm⟩

/-- Commands are served by keyspaces along a log: a read as the keyspace at its point
answers it, and a write takes the keyspace before it to the one at its point. -/
structure ServedBy (m : Nat -> Keyspace) (run : Nat -> Fleet) : Prop where
  reads : forall {command args f k l n request p},
    dispatch command args = Errand.read f ->
      Served run k l n (Ticket.read request) p ->
        exists t, (run l).hosts n = Stage.up t ∧
          (m p).serve command args = (f t.replica, m p)
  writes : forall {command args op now bytes k l n index term p},
    dispatch command args = Errand.write op -> op.encode now = Except.ok bytes ->
      Served run k l n (Ticket.write index term bytes) p ->
        0 < p ∧ ((m (p - 1)).serve command args).2 = m p

theorem servedBy_of_log {c : Committed} {m : Nat -> Keyspace} {run : Nat -> Fleet}
    (hm : forall p, (m p).value = c.contents p) (h : Linearizes c run) :
    ServedBy m run where
  reads {command args f k l n request p} hdispatch hserved := by
    rcases h.reads hserved with ⟨t, hup, hget, hkeys⟩
    rw [← hm p] at hget hkeys
    refine ⟨t, hup, read_answers hget ?_ hdispatch⟩
    ext key
    rw [List.mem_toFinset, hkeys, (m p).mem_keys]
  writes {command args op now bytes k l n index term p} hdispatch hencode hserved := by
    have hpos : 0 < p := h.positive hserved
    refine ⟨hpos, Keyspace.ext ?_⟩
    have hsucc : p - 1 + 1 = p := Nat.sub_add_cancel hpos
    have hcarries := c.carries p
    rw [h.writes hserved] at hcarries
    rcases hcarries with ⟨op', now', hop, hencode'⟩
    have hsame : op' = op := by
      have hdecode := Op.decode_encode hencode
      rw [Op.decode_encode hencode'] at hdecode
      exact Except.ok.inj hdecode
    rw [write_answers hdispatch hencode, hm, hm, ← hsucc, Committed.contents_succ, hsucc,
      hop, hsame]
    rfl

/-- However clients read and write at the replicas of a fleet, and whatever happens to
its replicas, one log of allowed commands answers all calls in their order, every running
replica stands by it at every moment, and the keyspaces along it serve all commands. -/
theorem cluster_serves_one_keyspace {B : List Member} {allowed : Bytes -> Prop}
    (hallowed : forall command, allowed command -> Writes command)
    {run : Nat -> Fleet} (hrun : Story B allowed run) :
    exists (c : Committed) (m : Nat -> Keyspace), c.Short ∧
      (forall i, (c.entry i).Allowed allowed) ∧ (forall k, (run k).Folds c) ∧
      (forall p, (m p).value = c.contents p) ∧ Linearizes c run ∧ ServedBy m run := by
  rcases exists_linearization hallowed hrun with
    ⟨c, hshort, hcommands, hfolds, hlinear⟩
  rcases exists_keyspaces c with ⟨m, hm⟩
  exact ⟨c, m, hshort, hcommands, hfolds, hm, hlinear, servedBy_of_log hm hlinear⟩

theorem proposeWrites_put (book : AddressBook) (s : System) :
    s.accepted (s.replica.proposeBatch [putCommand]) =
        { s with replica := (proposeWrites book s.replica [putCommand]).1 } ∧
      (proposed s.replica.node).2 =
        (proposeWrites book s.replica [putCommand]).2.2 := by
  unfold System.accepted proposeWrites proposed ReplicatedStore.proposeBatch
  cases s.replica.node.proposeBatch [putCommand] <;> exact ⟨rfl, rfl⟩

theorem proposeWrites_landed_put (book : AddressBook) {r : ReplicatedStore}
    {node : Node} {index : Nat} {actions : List Action}
    (h : r.node.proposeBatch [putCommand] =
      Except.ok (node, [Except.ok index], actions)) :
    (proposeWrites book r [putCommand]).2.1[0]? =
      some (Except.ok (index, r.node.term)) := by
  unfold proposeWrites ReplicatedStore.proposeBatch
  rw [h]
  rfl

/-- A put on one of a pair, and a `GET` that begins when it has been answered, after the
other has been stopped and has come back. -/
theorem cluster_serves_one_keyspace_pair :
    exists (run : Nat -> Fleet) (m : Nat -> Keyspace) (request : ReadRequest)
        (t : System) (j k l : Nat),
      Served run j k 1 (Ticket.write 2 1 putCommand) 2 ∧
        Served run k l 1 (Ticket.read request) 2 ∧
        ((m 1).serve [83, 69, 84] [[7], [8, 9]]).2 = m 2 ∧
        (run l).hosts 1 = Stage.up t ∧
        (m 2).serve [71, 69, 84] [[7]] = (getReply t.replica [7], m 2) := by
  let book : AddressBook := ⟨1, Table.empty, Table.empty, Table.empty, 0⟩
  let elected := Sketch.pair.replay pairElects
  let taken := elected.next (Gesture.propose 1)
  let written := taken.replay (pairWrites.tail ++ [Gesture.restart 2])
  let asked := written.next (Gesture.readIndex 1)
  let heard := asked.replay pairHears
  have hwriting : elected.allows (Gesture.propose 1) = true ∧
      (elected.nodes 1).term = 1 ∧ written.applied 1 = 2 ∧
      (written.nodes 1).role = Role.leader ∧ (written.nodes 1).term = 1 := by
    decide +kernel
  have hreading : written.allows (Gesture.readIndex 1) = true ∧ heard.applied 1 = 2 ∧
      (heard.nodes 1).readState (written.nodes 1).readIndex.2.1 =
        ReadState.ready 2 := by decide +kernel
  have hbatch : exists node actions, (elected.nodes 1).proposeBatch [putCommand] =
      Except.ok (node, [Except.ok 2], actions) := ⟨_, _, rfl⟩
  rcases hwriting with ⟨hproposes, hterm, hwritten, hrole, hleads⟩
  rcases hreading with ⟨hallows, hreached, hready⟩
  rcases hbatch with ⟨node, actions, hbatch⟩
  rcases Sketch.exists_pair with ⟨_, hstart, hpair⟩
  rcases hpair.replay pairElects (by decide +kernel) with
    ⟨f, helects, _, (hf : elected.Shows f)⟩
  rcases hf.hosts 1 (by decide) with ⟨s, hup, hs⟩
  rcases hf.proposes hup hs hproposes with ⟨htakes, htaken⟩
  rcases htaken.replay (pairWrites.tail ++ [Gesture.restart 2]) (by decide +kernel) with
    ⟨g, hwrites, _, (hg : written.Shows g)⟩
  rcases hg.hosts 1 (by decide) with ⟨u, hup', hu⟩
  rcases hg.asks hup' hu hallows with ⟨hasks, hasked⟩
  rcases hasked.replay pairHears (by decide +kernel) with
    ⟨e, hhears, _, (he : heard.Shows e)⟩
  rcases he.hosts 1 (by decide) with ⟨t, hread, ht⟩
  rw [hreached] at ht
  -- The fleets between the calls, moment by moment.
  rcases (Story.waits Raft.pairMembers OnlyPut).along (fun _ (_ : 0 <= _) => rfl)
    ((hstart 0).run.trans helects) with ⟨run₁, j, hstory₁, _, _, hends₁⟩
  rcases hstory₁.onto hends₁ htakes with ⟨run₂, hstory₂, hkept₂, hends₂⟩
  rcases hstory₂.along hends₂ hwrites with ⟨run₃, k, hstory₃, hjk, hkept₃, hends₃⟩
  rcases hstory₃.onto hends₃ hasks with ⟨run₄, hstory₄, hkept₄, hends₄⟩
  rcases hstory₄.along hends₄ hhears with ⟨run, l, hstory, hkl, hkept, hends⟩
  have hbefore : run j = f := by
    rw [hkept j (by omega), hkept₄ j (by omega), hkept₃ j (by omega),
      hkept₂ j (Nat.le_refl j), hends₁ j (Nat.le_refl j)]
  have htaken : run (j + 1) = f.put 1
      (Stage.up { s with replica := (proposeWrites book s.replica [putCommand]).1 })
      (proposeWrites book s.replica [putCommand]).2.2 := by
    rcases proposeWrites_put book s with ⟨hsystem, hactions⟩
    rw [hkept (j + 1) (by omega), hkept₄ (j + 1) (by omega), hkept₃ (j + 1) (Nat.le_refl _),
      hends₂ (j + 1) (Nat.lt_succ_self j), hsystem, ← hs.node, hactions]
  have hwritten' : run k = g := by
    rw [hkept k (by omega), hkept₄ k (Nat.le_refl k), hends₃ k (Nat.le_refl k)]
  have hasking : run (k + 1) = g.ask 1 u := by
    rw [hkept (k + 1) (Nat.le_refl _), hends₄ (k + 1) (Nat.lt_succ_self k)]
  have hended : run l = e := hends l (Nat.le_refl l)
  have hwrite : Served run j k 1 (Ticket.write 2 1 putCommand) 2 := by
    have hlanded := proposeWrites_landed_put book (hs.node ▸ hbatch)
    rw [hs.node, hterm] at hlanded
    constructor
    · rw [hbefore, htaken]
      exact Asks.write hup (List.getElem?_cons_zero ..) hlanded rfl
    · omega
    · rw [hwritten']
      refine Answers.write hup' ?_ (Or.inl ?_)
      · unfold writeCheck
        rw [hu.applied, hwritten]
        rfl
      · rw [hu.node]
        exact ⟨hrole, hleads⟩
  have hread : Served run k l 1 (Ticket.read u.replica.readIndex.2.1) 2 := by
    constructor
    · rw [hwritten', hasking]
      refine Asks.read hup' (Or.inl ?_) rfl
      rw [hu.node]
      exact hrole
    · omega
    · have hanswer := readState_shown hu ht hready
      rw [hended, ← ht.applied]
      exact Answers.read hread hanswer
  have hset : dispatch [83, 69, 84] [[7], [8, 9]] =
      Errand.write (Op.put [7] [8, 9]) :=
    @dispatch_known [83, 69, 84] Verb.set (by decide +kernel) _
  have hget : dispatch [71, 69, 84] [[7]] =
      Errand.read (fun r => getReply r [7]) :=
    @dispatch_known [71, 69, 84] Verb.get (by decide +kernel) _
  rcases cluster_serves_one_keyspace OnlyPut.writes hstory with
    ⟨c, m, _, _, _, _, _, hserved⟩
  rcases hserved.reads hget hread with ⟨t, hup, hanswer⟩
  exact ⟨run, m, _, t, j, k, l, hwrite, hread,
    (hserved.writes hset encode_putCommand hwrite).2, hup, hanswer⟩

end ClusterNode
end Minicask
