import Minicask.Raft.SnapshotPieces
import Minicask.Replicated.CanonicalSnapshots
import Minicask.Replicated.FleetHistory

/-!
# Every replica has the same snapshots

What a log comes to at an index has one snapshot, whoever takes it.  So pieces that
different nodes send of it fit together, and what a node has of a snapshot, takes,
sends or is sent is always that one or a part of it.
-/

namespace Minicask
namespace Replicated

open Raft Replay

/-!
# The snapshot of a log at an index
-/

/-- A store can be brought to whatever the log comes to. -/
theorem exists_takes {c : Committed} (hshort : c.Short) (i : Nat) :
    exists s, Takes s (c.contents i) := by
  induction i with
  | zero =>
      rcases Store.serves_open {} with ⟨s, _, hok, hindexes, _, hrestoring, _⟩
      exact ⟨s, hok, hindexes, hrestoring⟩
  | succ i ih =>
      rcases ih with ⟨s, hs⟩
      have hcarries := c.carries (i + 1)
      rw [c.contents_succ]
      cases hcommand : (c.entry (i + 1)).command with
      | noop =>
          rw [hcommand] at hcarries
          rw [show c.op (i + 1) = none from hcarries]
          exact ⟨s, hs⟩
      | config members =>
          rw [hcommand] at hcarries
          rw [show c.op (i + 1) = none from hcarries]
          exact ⟨s, hs⟩
      | data bytes =>
          rw [hcommand] at hcarries
          rcases hcarries with ⟨op, now, hop, hencode⟩
          rw [hop]
          rcases Op.encode_rec hencode (hshort _ _ hcommand) with
            ⟨r, _, hwrite⟩
          cases op with
          | put key value =>
              rcases hs.putDeferred r (congrArg Write.value hwrite) 0 0 with
                ⟨s', _, htakes, _⟩
              rw [hwrite] at htakes
              exact ⟨s', htakes⟩
          | delete key =>
              rcases hs.deleteDeferred key 0 0 with ⟨s', _, _, htakes, _⟩
              exact ⟨s', htakes⟩

theorem exists_canonical {c : Committed} (hshort : c.Short) (i : Nat) :
    exists rs, Canonical rs (c.contents i) := by
  rcases exists_takes hshort i with ⟨s, hs⟩
  rcases writeSnapshot_canonical (Store.view_shows hs.ok hs.indexes) with
    ⟨rs, hcanonical, _⟩
  exact ⟨rs, hcanonical⟩

open Classical in
noncomputable def Committed.snapshot (c : Committed) (i : Nat) : Bytes :=
  if h : exists rs, Canonical rs (c.contents i) then Rec.join h.choose else []

namespace Committed

variable {c : Committed} {i : Nat}

theorem snapshot_eq {rs : List Rec} (h : Canonical rs (c.contents i)) :
    c.snapshot i = Rec.join rs := by
  have hexists : exists rs, Canonical rs (c.contents i) := ⟨rs, h⟩
  unfold snapshot
  rw [dif_pos hexists, hexists.choose_spec.unique h]

theorem snapshot_zero (c : Committed) : c.snapshot 0 = [] := by
  have hcanonical : Canonical [] (c.contents 0) :=
    ⟨List.Pairwise.nil, fun _ hr => absurd hr List.not_mem_nil,
      fun k hk => absurd rfl hk, fun _ hr => absurd hr List.not_mem_nil⟩
  exact snapshot_eq hcanonical

theorem encodes_snapshot (hshort : c.Short) (i : Nat) :
    Encodes (c.snapshot i) (c.contents i) := by
  rcases exists_canonical hshort i with ⟨rs, hcanonical⟩
  rw [snapshot_eq hcanonical]
  exact hcanonical.encodes

end Committed

/-- A snapshot that a replica takes is that one. -/
theorem SnapshotJob.Ok.canonical {c : Committed} {job : SnapshotJob}
    {r : ReplicatedStore} (h : job.Ok c 0 r) {sink : MemSnapshot}
    (hrun : job.run r.store.dir = Except.ok sink) :
    sink.data = c.snapshot sink.about.index := by
  rcases h.shows with ⟨m, hstands, hshows⟩
  rw [hstands.exact (Nat.zero_le _)] at hshows
  rcases writeSnapshot_canonical hshows with ⟨rs, hcanonical, hwrite⟩
  have hsame := Except.ok.inj ((hwrite job.sink).symm.trans hrun)
  rw [← hsame]
  unfold MemSnapshot.writeAll
  rw [h.empty, List.nil_append]
  exact (Committed.snapshot_eq hcanonical).symm

/-!
# What a node has of it
-/

/-- The snapshot of a node is the one at its index, and so is the beginning that has
been received of another. -/
structure Carries (c : Committed) (n : Node) : Prop where
  snapshot : n.storage.snapshot = c.snapshot n.storage.snapshotMeta.index
  incoming : Beginning (fun _ about => c.snapshot about.index) n

/-- A message that brings a piece of a snapshot brings one of that. -/
abbrev Brings (c : Committed) (sender : NodeId) (message : Message) : Prop :=
  Faithful (fun _ about => c.snapshot about.index) sender message

namespace Carries

variable {c : Committed} {n n' : Node}

theorem of_settled (h : Carries c n) (hsettled : Node.Settled n n')
    (hincoming : Beginning (fun _ about => c.snapshot about.index) n') :
    Carries c n' := by
  refine ⟨?_, hincoming⟩
  rw [hsettled.snapshot, MemStorage.snapshotMeta, hsettled.base]
  exact h.snapshot

theorem move {inputs : Inputs}
    (hbrings : forall core sender message, inputs.heard core sender message ->
      Brings c sender message)
    (h : Carries c n) (hmove : Move inputs n n') : Carries c n' := by
  have hincoming := h.incoming.move hbrings hmove
  have happend : forall es, (n.storage.append es).log.base = n.storage.log.base :=
    fun es => by rw [append_log]
  cases hmove with
  | idle hidle =>
      refine ⟨?_, hincoming⟩
      rw [show n'.storage.snapshot = n.storage.snapshot from
          congrArg Core.snapshot hidle.core, MemStorage.snapshotMeta,
        show n'.storage.log = n.storage.log from congrArg Core.log hidle.core]
      exact h.snapshot
  | reload =>
      refine ⟨?_, hincoming⟩
      rw [storage_reloadMembership]
      exact h.snapshot
  | lead =>
      refine ⟨?_, hincoming⟩
      rw [MemStorage.snapshotMeta, happend]
      exact h.snapshot
  | extend es hfresh =>
      refine ⟨?_, hincoming⟩
      rw [MemStorage.snapshotMeta, happend]
      exact h.snapshot
  | configure members hadmitted =>
      refine ⟨?_, hincoming⟩
      rw [storage_reloadMembership, MemStorage.snapshotMeta, happend]
      exact h.snapshot
  | commit index hleader hhigher hheld => exact ⟨h.snapshot, hincoming⟩
  | entries sender prevLogIndex prevLogTerm entries leaderCommit seq hheard =>
      exact h.of_settled (Node.settled_handleAppendEntries n _ _ _ _ _ _) hincoming
  | snapshot sender about offset data done seq members hheard =>
      refine ⟨?_, hincoming⟩
      rcases h.incoming.continuing sender about members with
        ⟨habout, hbeginning⟩
      rcases handleInstallSnapshot_cases n sender about offset data done seq
        members with ⟨middle, _, hstorage, hsame | hdropped | ⟨_, hkept |
          ⟨hoffset, hmore | ⟨hdone, hlast⟩⟩⟩⟩
      · rw [hsame, hstorage]
        exact h.snapshot
      · rw [hdropped, hstorage]
        exact h.snapshot
      · rw [hkept, hstorage]
        exact h.snapshot
      · rw [hmore, hstorage]
        exact h.snapshot
      · subst hdone
        have hwhole : (((n.continuing sender about).getD (MemStorage.newSnapshot
            about members)).writeAll data).data = c.snapshot about.index :=
          (hbrings _ _ _ hheard).completes hbeginning hoffset
        have hnamed : (((n.continuing sender about).getD (MemStorage.newSnapshot
            about members)).writeAll data).about = about := habout
        rw [hlast, storage_installReceived, hstorage]
        rcases installSnapshot_cases n.storage hnamed hwhole with
          hold | ⟨hmeta, hdata⟩
        · rw [hold]
          exact h.snapshot
        · rw [hmeta, hdata]

theorem moves {inputs : Inputs}
    (hbrings : forall core sender message, inputs.heard core sender message ->
      Brings c sender message)
    (h : Carries c n) (hmoves : Moves inputs n n') : Carries c n' := by
  induction hmoves with
  | refl => exact h
  | tail _ hmove ih => exact ih.move hbrings hmove

theorem pieceOf_readSnapshot (s : MemStorage) (offset len : Nat) :
    PieceOf s.snapshot offset (s.readSnapshot offset len)
      (offset + (s.readSnapshot offset len).length >= s.snapshotLen) := by
  constructor
  · unfold MemStorage.readSnapshot
    dsimp only
    rcases Nat.le_total offset s.snapshot.length with hwithin | hpast
    · rw [Nat.min_eq_left hwithin]
      exact ⟨_, rfl⟩
    · rw [Nat.min_eq_right hpast, List.drop_length, List.drop_of_length_le hpast]
      exact ⟨_, rfl⟩
  · rw [decide_eq_true_eq]
    rfl

theorem sent (h : Carries c n) (sender : NodeId) {action : Action}
    (hsent : Sent n action) : Brings c sender action.message := by
  cases hsent with
  | append peer _ =>
      unfold Node.appendMessageFor
      dsimp only
      split
      · have hpiece := fun offset len =>
          pieceOf_readSnapshot n.storage offset len
        rw [h.snapshot] at hpiece
        exact hpiece _ _
      · trivial
  | probe peer seq _ _ => trivial
  | plain _ hplain =>
      cases hmessage : action.message with
      | installSnapshot =>
          rw [hmessage] at hplain
          cases hplain
      | _ => trivial

theorem take (h : Carries c n) : Carries c n.takeCommitted.1 :=
  ⟨h.snapshot, h.incoming.of_incoming rfl⟩

theorem finish (h : Carries c n) {sink : MemSnapshot}
    (hsink : sink.data = c.snapshot sink.about.index) :
    Carries c (n.finishCompaction sink).1 := by
  refine ⟨?_, h.incoming.of_incoming ?_⟩
  · rcases finishCompaction_cases n sink with
      ⟨hsame, _⟩ | ⟨n', hnew, _, hbase, hdata, _⟩
    · rw [hsame]
      exact h.snapshot
    · rw [hnew, hdata, MemStorage.snapshotMeta, hbase]
      exact hsink
  · unfold Node.finishCompaction
    split <;> rfl

theorem apply (hshort : c.Short) {env : Env} {r r' : ReplicatedStore}
    (hgood : Good c 0 r) (hagrees : Agrees c r.node) (h : Carries c r.node)
    (happly : r.apply env = Except.ok r') : Carries c r'.node := by
  rcases apply_parts happly with
    rfl | ⟨level, store, applied, hlevel, hloop, rfl | ⟨job, started, sink,
      hstart, hrun, hfinish⟩⟩
  · exact h
  · rw [← hlevel.node_eq] at h
    exact h.take
  · rcases hlevel.good hgood with ⟨hgood', hreached, hnode⟩
    rw [← hnode] at h hagrees
    rcases applied_spec env hshort hgood' hagrees hreached with
      ⟨store', applied', hloop', hbatched, _⟩
    have hpair := Except.ok.inj (hloop.symm.trans hloop')
    cases hpair
    change Good c 0 (level.batched store applied) at hbatched
    rcases startSnapshot_spec hbatched with
      hnone | ⟨job', _, hstart', _, _, hjob, _⟩
    · rw [hstart] at hnone
      cases hnone
    · have hsame := hstart.symm.trans hstart'
      cases hsame
      rw [finishSnapshot_node hfinish]
      exact h.take.finish (hjob.canonical hrun)

end Carries

/-!
# What a replica has of it
-/

structure Carrying (c : Committed) (s : System) : Prop where
  node : Carries c s.replica.node
  sink : forall sink, s.snapshot = Work.finished sink ->
    sink.data = c.snapshot sink.about.index

theorem Event.carries {c : Committed} {r : ReplicatedStore}
    (h : Carries c r.node) {e : Event} {n : NodeId}
    (harrives : forall env sender message, e = Event.step env sender message ->
      Brings c sender message) :
    Carries c (e.node r) ∧
      forall action, action ∈ e.sent r -> Brings c n action.message := by
  rcases Event.node_cases r e with ⟨hnone, hnode⟩ | ⟨operation, hsome, hnode⟩
  · rw [hnode, Event.sent_none hnone]
    exact ⟨h, fun _ haction => absurd haction List.not_mem_nil⟩
  · have hbrings : forall core sender message,
        (operation.inputs r.node).heard core sender message ->
          Brings c sender message := by
      intro core sender message hheard
      cases Event.comes hsome with
      | receive heq =>
          rcases hheard with ⟨_, rfl, rfl⟩
          exact harrives _ _ _ heq
      | _ => exact hheard.elim
    rw [hnode, Event.sent_some hsome]
    have hran := (Event.comes hsome).ran r.node
    refine ⟨h.moves hbrings hran.moves, fun action haction => ?_⟩
    rcases hran.sent action haction with ⟨between, hmoves, hsent⟩
    exact (h.moves hbrings hmoves).sent n hsent

theorem Carrying.next {c : Committed} (hshort : c.Short) {s s' : System}
    {e : Event} (hinv : Invariant c 0 s) (hpromised : Promised c s.replica e)
    (h : Carrying c s) (hnode : Carries c (e.node s.replica))
    (hnext : s.next e = Except.ok s') : Carrying c s' := by
  cases System.next_handled hnext with
  | same hsame hsnapshot _ =>
      rw [← hsame] at hnode
      refine ⟨hnode, fun sink hwork => ?_⟩
      rcases hsnapshot with hkept | hgone
      · rw [hkept] at hwork
        exact h.sink sink hwork
      · rw [hgone] at hwork
        cases hwork
  | applied happlies hsame hsnapshot happly =>
      rcases hinv.applies hpromised happlies with ⟨hbegun, hagrees⟩
      rw [← hsame] at hnode
      refine ⟨hnode.apply hshort hbegun.good hagrees happly, fun sink hwork => ?_⟩
      rw [hsnapshot] at hwork
      exact h.sink sink hwork
  | started hsame hstart hsnapshot =>
      rw [hsame, ← (startSnapshot_some hstart).2] at hnode
      refine ⟨hnode, fun sink hwork => ?_⟩
      rw [hsnapshot] at hwork
      cases hwork
  | ran hsame hwork hrun hreplica hsnapshot =>
      rw [hsame, ← hreplica] at hnode
      refine ⟨hnode, fun sink hfinished => ?_⟩
      have hok := hinv.snapshot
      unfold SnapshotOk at hok
      rw [hwork] at hok
      rw [hsnapshot] at hfinished
      cases hfinished
      exact hok.1.canonical hrun
  | finished hsame hwork hfinish hsnapshot =>
      rw [hsame] at hnode
      refine ⟨?_, fun sink hbegun => ?_⟩
      · rw [finishSnapshot_node hfinish]
        exact hnode.finish (h.sink _ hwork)
      · rw [hsnapshot] at hbegun
        cases hbegun

end Replicated
end Minicask
