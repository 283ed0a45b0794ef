import Minicask.ClusterNode.AddressBook
import Minicask.Replicated.Arriving
import Minicask.Server.Resp

/-!
# What a client is told

`write` and `change_membership` of `cluster.rs`: a command is proposed, and the thread
that waits for it looks at the replica, at any moment, until it has an answer or runs
out of time.  Between two looks the replica goes through any number of events.
-/

namespace Minicask
namespace ClusterNode

open Replicated Resp
open Raft hiding Event

/-!
# Proposing
-/

def proposeErrorText : ProposeError -> String
  | ProposeError.notLeader (some id) =>
      "not the leader, try node " ++ toString id
  | ProposeError.notLeader none => "not the leader"
  | ProposeError.tooLarge len max =>
      "command of " ++ toString len ++ " bytes exceeds the " ++ toString max ++
        " byte entry limit"
  | ProposeError.membership why => why

/-- A redirect in the shape that clients know from cluster mode. -/
def notLeader (book : AddressBook) (r : ReplicatedStore) : Reply :=
  match r.node.leaderId.bind book.clientAddrs with
  | some addr => Reply.error ("MOVED 0 " ++ addr)
  | none =>
      Reply.error
        "CLUSTERDOWN no leader is known; the cluster has no majority"

def proposeFailed (book : AddressBook) (r : ReplicatedStore) :
    ProposeError -> Reply
  | ProposeError.notLeader _ => notLeader book r
  | e => Reply.err (proposeErrorText e)

/-- What `write` does with a batch: each command has landed at an index and in a term,
or is refused. -/
def proposeWrites (book : AddressBook) (r : ReplicatedStore)
    (commands : List Bytes) :
    ReplicatedStore × List (Except Reply (Nat × Nat)) × List Action :=
  let term := r.node.term
  match r.proposeBatch commands with
  | Except.ok (r, results, actions) =>
      (r,
        results.map (fun result =>
          match result with
          | Except.ok index => Except.ok (index, term)
          | Except.error e => Except.error (Reply.err (proposeErrorText e))),
        actions)
  | Except.error e =>
      (r, List.replicate commands.length (Except.error (proposeFailed book r e)),
        [])

def proposeChange (book : AddressBook) (r : ReplicatedStore)
    (members : List Member) :
    ReplicatedStore × Except Reply (Nat × Nat) × List Action :=
  match r.proposeMembership members with
  | Except.ok (r, index, actions) =>
      (r, Except.ok (index, r.node.term), actions)
  | Except.error e => (r, Except.error (proposeFailed book r e), [])

/-!
# Waiting
-/

def writeCheck (index term : Nat) (r : ReplicatedStore) : Option Reply :=
  if r.applied >= index then some Reply.ok
  -- Losing the term means this proposal may never commit.
  else if r.node.term ≠ term ∨ r.node.role ≠ Role.leader then
    some (Reply.error
      "NOTLEADER leadership was lost before the write committed; its fate is unknown")
  else none

def changeCheck (index term : Nat) (r : ReplicatedStore) : Option Reply :=
  if r.node.commitIndex >= index then some Reply.ok
  else if r.node.term ≠ term then
    some (Reply.error
      "NOTLEADER leadership was lost before the change committed; its fate is unknown")
  else none

inductive Kind where
  | write
  | change
deriving Repr, DecidableEq

namespace Kind

def check : Kind -> Nat -> Nat -> ReplicatedStore -> Option Reply
  | write => writeCheck
  | change => changeCheck

def timeout : Kind -> Reply
  | write =>
      Reply.error "TIMEOUT the write did not commit in time; it may still do so"
  | change =>
      Reply.error "TIMEOUT the change did not commit in time; it may still do so"

/-- The index that the check looks at. -/
def reached : Kind -> ReplicatedStore -> Nat
  | write, r => r.applied
  | change, r => r.node.commitIndex

end Kind

/-- Where a call has got to.  A thread that waits knows the index and the term of the
entry, and which command it proposed. -/
inductive Call where
  | outside
  | waiting (kind : Kind) (entry : Entry)
  | refused (reply : Reply)
  | answered (kind : Kind) (entry : Entry) (reply : Reply)

def Call.landed (kind : Kind) (command : Raft.Command) :
    Except Reply (Nat × Nat) -> Call
  | Except.ok (index, term) =>
      waiting kind { term := term, index := index, command := command }
  | Except.error reply => refused reply

structure Clients (caller : Type) where
  system : System
  calls : caller -> Call := fun _ => Call.outside

/-- Something happens to the replica, or to a thread. -/
inductive Act (caller : Type) where
  | event (e : Event)
  | write (book : AddressBook) (batch : List (caller × Bytes))
  | change (book : AddressBook) (p : caller)
      (edit : List Member -> Except String (List Member))
  | check (p : caller)
  | timeOut (p : caller)

namespace Clients

variable {caller : Type} [DecidableEq caller]

def begin (calls : caller -> Call) (p : caller) (call : Call) : caller -> Call :=
  match calls p with
  | Call.outside => Function.update calls p call
  | _ => calls

def answer (w : Clients caller) (p : caller)
    (reply : Kind -> Entry -> Option Reply) : Clients caller :=
  match w.calls p with
  | Call.waiting kind e =>
      match reply kind e with
      | some reply =>
          { w with
            calls := Function.update w.calls p (Call.answered kind e reply) }
      | none => w
  | _ => w

def next (w : Clients caller) : Act caller -> Except Error (Clients caller)
  | Act.event e => (w.system.next e).map (fun s => { w with system := s })
  | Act.write book batch =>
      let (replica, results, _) :=
        proposeWrites book w.system.replica (batch.map Prod.snd)
      Except.ok
        { system := { w.system with replica := replica }
          calls := (batch.zip results).foldl (fun calls landed =>
            begin calls landed.1.1
              (Call.landed Kind.write (Command.data landed.1.2) landed.2))
            w.calls }
  | Act.change book p edit =>
      match edit w.system.replica.node.members with
      | Except.error why =>
          Except.ok
            { w with calls := begin w.calls p (Call.refused (Reply.err why)) }
      | Except.ok members =>
          let (replica, result, _) :=
            proposeChange book w.system.replica members
          Except.ok
            { system := { w.system with replica := replica }
              calls := begin w.calls p
                (Call.landed Kind.change (Command.config members) result) }
  | Act.check p =>
      Except.ok (w.answer p (fun kind e =>
        kind.check e.index e.term w.system.replica))
  | Act.timeOut p => Except.ok (w.answer p (fun kind _ => some kind.timeout))

end Clients

def Act.toEvent {caller : Type} (r : ReplicatedStore) :
    Act caller -> Option Event
  | event e => some e
  | write _ batch => some (Event.proposeBatch (batch.map Prod.snd))
  | change _ _ edit =>
      match edit r.node.members with
      | Except.error _ => none
      | Except.ok members => some (Event.proposeMembership members)
  | check _ => none
  | timeOut _ => none

/-!
# Runs
-/

/-- What consensus promises of an event: what the replica takes to be committed, and
what it has applied, is what the log of the cluster says, and the messages it is sent
have no gaps. -/
structure Safe (c : Committed) (r : ReplicatedStore) (e : Event) : Prop
    extends Promised c r e where
  applied : forall i, (e.node r).storage.log.base.index < i -> i <= r.applied ->
    (e.node r).storage.entry i = some (c.entry i)
  contiguous : forall env sender message,
    e = Event.step env sender message -> Contiguous message

/-!
# Entries that are lost

While a call waits the node may take its entry out of the log, and may be given it
back.  What becomes of it once the replica has come as far as its index shows no more.
-/

def Loses (r : ReplicatedStore) (event : Event) (e : Entry) : Prop :=
  match event with
  | Event.step _ sender message =>
      match r.restoring, message with
      -- A replica that is being restored is given no other snapshot.
      | true, Message.installSnapshot _ _ _ _ _ _ _ _ => False
      | _, message => Removes r.node sender message e.index
  | _ => False

def Regains (r : ReplicatedStore) (event : Event) (e : Entry) : Prop :=
  match event with
  | Event.step _ _ message => Brings r.node message e
  | _ => False

/-- An index that the replica has not come to. -/
def Ahead (r : ReplicatedStore) (index : Nat) : Prop :=
  max r.applied r.node.commitIndex < index

instance (r : ReplicatedStore) (index : Nat) : Decidable (Ahead r index) :=
  inferInstanceAs (Decidable (_ < _))

def Clients.lostAfter {caller : Type} (w : Clients caller) (act : Act caller)
    (lost : caller -> Prop) : caller -> Prop := fun p =>
  match w.calls p, act.toEvent w.system.replica with
  | Call.waiting _ e, some event =>
      if Ahead w.system.replica e.index then
        Loses w.system.replica event e ∨
          (lost p ∧ ¬ Regains w.system.replica event e)
      else lost p
  | _, _ => lost p

/-- No thread whose entry is lost looks at a replica that has come to its index. -/
def Spared {caller : Type} (lost : caller -> Prop) (w : Clients caller)
    (act : Act caller) : Prop :=
  forall p kind e, act = Act.check p -> w.calls p = Call.waiting kind e -> lost p ->
    kind.reached w.system.replica < e.index

/-- A replica that starts over whatever files and raft storage there are, its clients,
and whose entries are lost. -/
inductive ClientRun {caller : Type} [DecidableEq caller] (c : Committed)
    (allowed : (caller -> Prop) -> Clients caller -> Act caller -> Prop) :
    (caller -> Prop) -> Clients caller -> Prop where
  | start (dir : Dir) (storage : MemStorage) (opts : Options) (id : NodeId)
      (bootstrap : List Member) (config : Config) (env : Env)
      (snapshotEvery : Nat) (background : Bool) {store : Store}
      {replica : ReplicatedStore}
      (hgapless : Follows storage.log.base.index storage.log.entries)
      (hopen : Store.openWith dir opts = Except.ok store)
      (hnew : ReplicatedStore.new (Node.withMembers id bootstrap config storage)
        store env = Except.ok replica) :
      ClientRun c allowed (fun _ => False)
        { system :=
            { replica := { replica with
                snapshotEvery := snapshotEvery
                backgroundSnapshots := background }
              snapshot := Work.idle
              compaction := Work.idle
              restore := Work.idle } }
  | next {lost : caller -> Prop} {w w' : Clients caller} (act : Act caller)
      (hrun : ClientRun c allowed lost w)
      (hsafe : forall e, act.toEvent w.system.replica = some e ->
        Safe c w.system.replica e)
      (hnext : w.next act = Except.ok w') (hallowed : allowed lost w act) :
      ClientRun c allowed (w.lostAfter act lost) w'

/-!
# What becomes of an entry that is waited for
-/

/-- Nothing is heard, and any membership may be proposed. -/
def unheard : Inputs where
  heard _ _ _ := False
  offered _ := True

theorem node_moves (r : ReplicatedStore) (e : Event) :
    (exists env sender message, e = Event.step env sender message) ∨
      (forall env sender message, e ≠ Event.step env sender message) ∧
        Moves unheard r.node (e.node r) := by
  cases e with
  | step env sender message => exact Or.inl ⟨env, sender, message, rfl⟩
  | tick env => exact Or.inr ⟨nofun, (ran_tick _).moves⟩
  | campaign => exact Or.inr ⟨nofun, (ran_campaign _).moves⟩
  | readIndex => exact Or.inr ⟨nofun, (ran_readIndex _).moves⟩
  | forgetRead request => exact Or.inr ⟨nofun, (ran_forgetRead _ _).moves⟩
  | propose op now =>
      refine Or.inr ⟨nofun, ?_⟩
      dsimp only [Event.node]
      split
      · next haccepted =>
          unfold ReplicatedStore.propose at haccepted
          split at haccepted
          · cases haccepted
          · split at haccepted
            · cases haccepted
            · next hproposed =>
                cases haccepted
                exact (ran_propose hproposed).moves
      · exact Relation.ReflTransGen.refl
  | proposeBatch commands =>
      refine Or.inr ⟨nofun, ?_⟩
      dsimp only [Event.node]
      split
      · next haccepted =>
          rcases Fallible.map_eq_ok haccepted with ⟨_, hproposed, heq⟩
          cases heq
          exact (ran_proposeBatch hproposed).moves
      · exact Relation.ReflTransGen.refl
  | proposeMembership members =>
      refine Or.inr ⟨nofun, ?_⟩
      dsimp only [Event.node]
      split
      · next haccepted =>
          rcases Fallible.map_eq_ok haccepted with ⟨_, hproposed, heq⟩
          cases heq
          exact (ran_proposeMembership hproposed (Or.inl trivial)).moves
      · exact Relation.ReflTransGen.refl
  | _ => exact Or.inr ⟨nofun, Relation.ReflTransGen.refl⟩

theorem step_cases (r : ReplicatedStore) (env : Env) (sender : NodeId)
    (message : Message) :
    ((Event.step env sender message).node r = r.node ∧
      forall e, ¬ Brings r.node message e) ∨
    ((Event.step env sender message).node r = (r.node.step sender message).1 ∧
      forall e, Loses r (Event.step env sender message) e =
        Removes r.node sender message e.index) := by
  unfold Loses
  dsimp only [Event.node]
  cases r.restoring with
  | false => exact Or.inr ⟨rfl, fun _ => rfl⟩
  | true =>
      cases message with
      | installSnapshot => exact Or.inl ⟨rfl, fun _ hbrings => hbrings⟩
      | _ => exact Or.inr ⟨rfl, fun _ => rfl⟩

theorem follows_node {c : Committed} {r : ReplicatedStore} {e : Event}
    (hsafe : Safe c r e)
    (h : Follows r.node.storage.log.base.index r.node.storage.log.entries) :
    Follows (e.node r).storage.log.base.index
      (e.node r).storage.log.entries := by
  rcases node_moves r e with ⟨env, sender, message, rfl⟩ | ⟨_, hmoves⟩
  · have hcontiguous := hsafe.contiguous env sender message rfl
    rcases step_cases r env sender message with ⟨hnode, _⟩ | ⟨hnode, _⟩
    · rw [hnode]
      exact h
    · rw [hnode]
      have hran : Ran
          { heard := fun _ _ heard => heard = message
            offered := fun _ => False } r.node (r.node.step sender message) :=
        ran_step r.node rfl
      refine follows_moves ?_ h hran.moves
      rintro _ _ _ rfl
      exact hcontiguous
  · refine follows_moves ?_ h hmoves
    intro _ _ _ hheard
    exact hheard.elim

theorem has_node {c : Committed} {r : ReplicatedStore} {event : Event}
    (hsafe : Safe c r event)
    (hfollows : Follows r.node.storage.log.base.index
      r.node.storage.log.entries) {e : Entry} (h : Has r.node.storage.log e)
    (hspared : ¬ Loses r event e) : Has (event.node r).storage.log e := by
  rcases node_moves r event with
    ⟨env, sender, message, rfl⟩ | ⟨hplain, hmoves⟩
  · rcases step_cases r env sender message with ⟨hnode, _⟩ | ⟨hnode, hloses⟩
    · rw [hnode]
      exact h
    · rw [hnode]
      rw [hloses] at hspared
      exact has_step hfollows h sender (hsafe.contiguous env sender message rfl)
        hspared
  · refine has_moves ?_ ?_ hfollows h hmoves
    · intro _ _ _ hheard
      exact hheard.elim
    · intro _ _ _ hheard
      exact hheard.elim

theorem has_of_regains {c : Committed} {r : ReplicatedStore} {event : Event}
    (hsafe : Safe c r event)
    (hfollows : Follows r.node.storage.log.base.index
      r.node.storage.log.entries) {e : Entry} (h : Regains r event e) :
    Has (event.node r).storage.log e := by
  cases event with
  | step env sender message =>
      rcases step_cases r env sender message with
        ⟨_, hnothing⟩ | ⟨hnode, _⟩
      · exact absurd h (hnothing e)
      · rw [hnode]
        exact has_step_of_brings hfollows sender
          (hsafe.contiguous env sender message rfl) h
  | _ => exact h.elim

/-- Nothing is left to happen to an entry: it is the cluster's, or it is in the log and
the replica has not come to it. -/
def Sure (c : Committed) (r : ReplicatedStore) (e : Entry) : Prop :=
  c.entry e.index = e ∨ (Ahead r e.index ∧ Has r.node.storage.log e)

/-- An entry that is in the log once an event has been through the node, and that has
not been applied before. -/
theorem sure_of_has {c : Committed} {s s' : System} {event : Event}
    (hsafe : Safe c s.replica event) (hplaced : Placed c s)
    (hfollows : Follows (event.node s.replica).storage.log.base.index
      (event.node s.replica).storage.log.entries)
    (hnext : s.next event = Except.ok s') {e : Entry}
    (h : Has (event.node s.replica).storage.log e) : Sure c s'.replica e := by
  have hentry := h.entry hfollows
  have hwhen : (event.node s.replica).storage.entry e.index =
      some (c.entry e.index) -> c.entry e.index = e :=
    fun heq => Option.some.inj (heq.symm.trans hentry)
  rcases hplaced.arrives hsafe.agrees hsafe.applied hnext with ⟨_, harrived⟩
  by_cases hcommitted : e.index <= (event.node s.replica).commitIndex
  · exact Or.inl (hwhen (hsafe.agrees _ h.1 hcommitted))
  · by_cases happlied : e.index <= s.replica.applied
    · exact Or.inl (hwhen (hsafe.applied _ h.1 happlied))
    · have hbound := harrived.applied
      have hcommit := harrived.commit
      have hbase : (event.node s.replica).storage.snapshotMeta.index < e.index :=
        h.1
      have hahead : Ahead s'.replica e.index := by
        unfold Ahead
        omega
      refine Or.inr ⟨hahead, harrived.past e h ?_⟩
      exact Nat.lt_of_le_of_lt (Nat.le_max_left _ _) hahead

/-!
# Where a proposal lands
-/

theorem mem_batchEntries {term maxEntryBytes : Nat} {commands : List Bytes}
    {next k index : Nat} {command : Bytes} (hcommand : commands[k]? = some command)
    (hanswer : (Node.batchEntries term maxEntryBytes next commands).2[k]? =
      some (Except.ok index)) :
    { term := term, index := index, command := Command.data command } ∈
      (Node.batchEntries term maxEntryBytes next commands).1 := by
  induction commands generalizing next k with
  | nil => cases hcommand
  | cons first commands ih =>
      unfold Node.batchEntries at hanswer ⊢
      dsimp only at hanswer ⊢
      by_cases hsize : first.length + entryOverhead > maxEntryBytes
      · rw [if_pos hsize] at hanswer ⊢
        cases k with
        | zero => cases hanswer
        | succ k => exact ih hcommand hanswer
      · rw [if_neg hsize] at hanswer ⊢
        cases k with
        | zero =>
            cases hcommand
            cases hanswer
            exact List.mem_cons_self
        | succ k => exact List.mem_cons_of_mem _ (ih hcommand hanswer)

theorem proposeBatch_ok {n n' : Node} {commands : List Bytes}
    {answers : List (Except ProposeError Nat)} {actions : List Action}
    (h : n.proposeBatch commands = Except.ok (n', answers, actions)) :
    answers = (Node.batchEntries n.term n.config.maxEntryBytes
        (n.storage.lastIndex + 1) commands).2 ∧
      n'.storage = n.storage.append (Node.batchEntries n.term
        n.config.maxEntryBytes (n.storage.lastIndex + 1) commands).1 := by
  unfold Node.proposeBatch at h
  dsimp only at h
  split at h
  · cases h
  · split at h
    · next hempty =>
        obtain ⟨rfl, rfl, _⟩ : _ ∧ _ ∧ _ := by
          simpa only [Except.ok.injEq, Prod.mk.injEq] using h
        rw [List.isEmpty_iff.mp hempty]
        exact ⟨rfl, rfl⟩
    · obtain ⟨rfl, rfl, _⟩ : _ ∧ _ ∧ _ := by
        simpa only [Except.ok.injEq, Prod.mk.injEq] using h
      rw [storage_broadcastAppend, storage_maybeCommit]
      exact ⟨rfl, rfl⟩

/-- A command that was accepted is in the log where its client was told. -/
theorem entry_proposeWrites {c : Committed} {book : AddressBook}
    {r : ReplicatedStore} {commands : List Bytes}
    (hsafe : Safe c r (Event.proposeBatch commands))
    (hfollows : Follows r.node.storage.log.base.index
      r.node.storage.log.entries) {k index term : Nat} {command : Bytes}
    (hcommand : commands[k]? = some command)
    (hlanded : (proposeWrites book r commands).2.1[k]? =
      some (Except.ok (index, term))) :
    ((Event.proposeBatch commands).node r).storage.log.entry index =
      some { term := term, index := index, command := Command.data command } := by
  have hafter := follows_node hsafe hfollows
  unfold proposeWrites at hlanded
  dsimp only [Event.node] at hlanded hafter ⊢
  cases hproposed : r.proposeBatch commands with
  | error why =>
      rw [hproposed] at hlanded
      dsimp only at hlanded
      have hrefused := List.mem_of_getElem? hlanded
      cases List.eq_of_mem_replicate hrefused
  | ok done =>
      rw [hproposed] at hlanded hafter
      rcases Fallible.map_eq_ok hproposed with ⟨⟨n, answers, actions⟩, hbatch, rfl⟩
      dsimp only at hlanded hafter ⊢
      rcases proposeBatch_ok hbatch with ⟨hanswers, hstorage⟩
      rw [List.getElem?_map] at hlanded
      rcases Option.map_eq_some_iff.mp hlanded with ⟨answer, hanswer, heq⟩
      cases answer with
      | error why => cases heq
      | ok landed =>
          cases heq
          rw [hanswers] at hanswer
          have hmem : Entry.mk r.node.term index (Command.data command) ∈
              n.storage.log.entries := by
            rw [hstorage, append_log]
            exact List.mem_append_right _ (mem_batchEntries hcommand hanswer)
          exact hafter.entry_of_mem hmem

theorem entry_proposeChange {c : Committed} {book : AddressBook}
    {r : ReplicatedStore} {members : List Member}
    (hsafe : Safe c r (Event.proposeMembership members))
    (hfollows : Follows r.node.storage.log.base.index
      r.node.storage.log.entries) {index term : Nat}
    (hlanded : (proposeChange book r members).2.1 =
      Except.ok (index, term)) :
    ((Event.proposeMembership members).node r).storage.log.entry index =
      some
        { term := term, index := index, command := Command.config members } := by
  have hafter := follows_node hsafe hfollows
  unfold proposeChange at hlanded
  dsimp only [Event.node] at hlanded hafter ⊢
  cases hproposed : r.proposeMembership members with
  | error why =>
      rw [hproposed] at hlanded
      cases hlanded
  | ok done =>
      rw [hproposed] at hlanded hafter
      rcases Fallible.map_eq_ok hproposed with ⟨⟨n, landed, actions⟩, hchange, rfl⟩
      dsimp only at hlanded hafter ⊢
      cases hlanded
      rcases @proposeMembership_ok unheard _ _ _ _ _ hchange (Or.inl trivial)
        with ⟨_, hresult, hindex⟩
      have hstorage : n.storage = r.node.storage.append
          [{ term := r.node.term
             index := r.node.lastIndex + 1
             command := Command.config members }] := by
        have hsent := congrArg (fun result : Node × List Action =>
          result.1.storage) hresult
        dsimp only at hsent
        rw [storage_broadcastAppend] at hsent
        unfold Node.appendLocal at hsent
        dsimp only at hsent
        rw [storage_maybeCommit] at hsent
        exact hsent.trans (storage_reloadMembership _)
      have hterm : n.term = r.node.term := by
        unfold Node.term
        rw [hstorage]
        rfl
      have hmem : Entry.mk n.term index (Command.config members) ∈
          n.storage.log.entries := by
        rw [hstorage, append_log, hterm, hindex]
        exact List.mem_append_right _ (List.mem_singleton.mpr rfl)
      exact hafter.entry_of_mem hmem

/-!
# Every run
-/

section Runs

variable {caller : Type} [DecidableEq caller]

theorem system_answer (w : Clients caller) (p : caller)
    (reply : Kind -> Entry -> Option Reply) :
    (w.answer p reply).system = w.system := by
  unfold Clients.answer
  split
  · split <;> rfl
  · rfl

theorem next_event {w w' : Clients caller} {act : Act caller}
    (h : w.next act = Except.ok w') :
    match act.toEvent w.system.replica with
    | some e => w.system.next e = Except.ok w'.system
    | none => w'.system = w.system := by
  cases act with
  | event e =>
      rcases Fallible.map_eq_ok h with ⟨s, hs, rfl⟩
      exact hs
  | write book batch =>
      cases h
      dsimp only [Act.toEvent]
      unfold System.next System.accepted
      dsimp only
      cases w.system.replica.proposeBatch (batch.map Prod.snd) with
      | ok done => rfl
      | error why => rfl
  | change book p edit =>
      unfold Clients.next at h
      dsimp only [Act.toEvent] at h ⊢
      cases hedit : edit w.system.replica.node.members with
      | error why =>
          rw [hedit] at h
          cases h
          rfl
      | ok members =>
          rw [hedit] at h
          cases h
          unfold proposeChange System.next System.accepted
          dsimp only
          cases w.system.replica.proposeMembership members with
          | ok done => rfl
          | error why => rfl
  | check p =>
      cases h
      exact system_answer w p _
  | timeOut p =>
      cases h
      exact system_answer w p _

theorem next_of_event {w : Clients caller} {e : Event} {s : System}
    (h : w.system.next e = Except.ok s) :
    w.next (Act.event e) = Except.ok { w with system := s } := by
  unfold Clients.next
  dsimp only
  rw [h]
  rfl

/-!
# Calls
-/

theorem begin_eq (calls : caller -> Call) (p q : caller) (call : Call) :
    Clients.begin calls p call q = calls q ∨
      Clients.begin calls p call q = call := by
  have hcases : Clients.begin calls p call = calls ∨
      Clients.begin calls p call = Function.update calls p call := by
    unfold Clients.begin
    split
    · exact Or.inr rfl
    · exact Or.inl rfl
  rcases hcases with hsame | hbegun
  · rw [hsame]
    exact Or.inl rfl
  · rw [hbegun, Function.update_apply]
    split
    · exact Or.inr rfl
    · exact Or.inl rfl

theorem foldl_begin_eq {landing : Type} (f : landing -> caller × Call)
    (l : List landing) (calls : caller -> Call) (q : caller) :
    l.foldl (fun calls x => Clients.begin calls (f x).1 (f x).2) calls q =
        calls q ∨
      exists x, x ∈ l ∧
        l.foldl (fun calls x => Clients.begin calls (f x).1 (f x).2) calls q =
          (f x).2 := by
  induction l generalizing calls with
  | nil => exact Or.inl rfl
  | cons x l ih =>
      rw [List.foldl_cons]
      rcases ih (Clients.begin calls (f x).1 (f x).2) with hkept | ⟨y, hy, heq⟩
      · rw [hkept]
        rcases begin_eq calls (f x).1 q (f x).2 with hsame | hlanded
        · exact Or.inl hsame
        · exact Or.inr ⟨x, List.mem_cons_self, hlanded⟩
      · exact Or.inr ⟨y, List.mem_cons_of_mem x hy, heq⟩

/-- OK is answered only when the index is reached. -/
theorem reached_of_ok {kind : Kind} {index term : Nat} {r : ReplicatedStore}
    (h : kind.check index term r = some Reply.ok) : index <= kind.reached r := by
  cases kind with
  | write =>
      unfold Kind.check writeCheck at h
      dsimp only at h
      split at h
      · next hreached => exact hreached
      · split at h <;> cases h
  | change =>
      unfold Kind.check changeCheck at h
      dsimp only at h
      split at h
      · next hreached => exact hreached
      · split at h <;> cases h

theorem timeout_ne_ok (kind : Kind) : kind.timeout ≠ Reply.ok := by
  cases kind <;> nofun

inductive Turn (w : Clients caller) (p : caller) :
    Act caller -> Call -> Call -> Prop where
  | stays {act : Act caller} {call : Call} : Turn w p act call call
  | refused {act : Act caller} {call : Call} {reply : Reply} :
      Turn w p act call (Call.refused reply)
  | wrote {book : AddressBook} {batch : List (caller × Bytes)} {call : Call}
      {k index term : Nat} {command : Bytes}
      (hcommand : (batch.map Prod.snd)[k]? = some command)
      (hlanded : (proposeWrites book w.system.replica
        (batch.map Prod.snd)).2.1[k]? = some (Except.ok (index, term))) :
      Turn w p (Act.write book batch) call
        (Call.waiting Kind.write
          { term := term, index := index, command := Command.data command })
  | changed {book : AddressBook} {q : caller}
      {edit : List Member -> Except String (List Member)} {call : Call}
      {members : List Member} {index term : Nat}
      (hedit : edit w.system.replica.node.members = Except.ok members)
      (hlanded : (proposeChange book w.system.replica members).2.1 =
        Except.ok (index, term)) :
      Turn w p (Act.change book q edit) call
        (Call.waiting Kind.change
          { term := term, index := index, command := Command.config members })
  | answered {act : Act caller} {kind : Kind} {e : Entry} {reply : Reply}
      (hreached : reply = Reply.ok -> act = Act.check p ∧
        e.index <= kind.reached w.system.replica) :
      Turn w p act (Call.waiting kind e) (Call.answered kind e reply)

theorem turn_answer {w : Clients caller} {act : Act caller} (p q : caller)
    {reply : Kind -> Entry -> Option Reply}
    (hok : forall kind e, reply kind e = some Reply.ok ->
      act = Act.check p ∧ e.index <= kind.reached w.system.replica) :
    Turn w q act (w.calls q) ((w.answer p reply).calls q) := by
  unfold Clients.answer
  split
  · next kind e hwaiting =>
      split
      · next found hfound =>
          dsimp only
          rw [Function.update_apply]
          split
          · next hq =>
              rw [hq, hwaiting]
              apply Turn.answered
              intro hreply
              rw [hreply] at hfound
              exact hok kind e hfound
          · exact Turn.stays
      · exact Turn.stays
  · exact Turn.stays

theorem next_write (w : Clients caller) (book : AddressBook)
    (batch : List (caller × Bytes)) :
    w.next (Act.write book batch) = Except.ok
      { system := { w.system with
          replica := (proposeWrites book w.system.replica
            (batch.map Prod.snd)).1 }
        calls := (batch.zip (proposeWrites book w.system.replica
            (batch.map Prod.snd)).2.1).foldl
          (fun calls landed => Clients.begin calls landed.1.1
            (Call.landed Kind.write (Command.data landed.1.2) landed.2))
          w.calls } :=
  rfl

theorem turn_next {w w' : Clients caller} {act : Act caller}
    (h : w.next act = Except.ok w') (p : caller) :
    Turn w p act (w.calls p) (w'.calls p) := by
  cases act with
  | event event =>
      rcases Fallible.map_eq_ok h with ⟨s, _, rfl⟩
      exact Turn.stays
  | write book batch =>
      rw [next_write] at h
      obtain rfl := Except.ok.inj h
      have hcalls := foldl_begin_eq
        (fun landed : (caller × Bytes) × Except Reply (Nat × Nat) =>
          (landed.1.1,
            Call.landed Kind.write (Command.data landed.1.2) landed.2))
        (batch.zip (proposeWrites book w.system.replica
          (batch.map Prod.snd)).2.1) w.calls p
      dsimp only at hcalls ⊢
      rcases hcalls with hsame | ⟨⟨⟨q, command⟩, result⟩, hmem, hlanded⟩
      · rw [hsame]
        exact Turn.stays
      · rcases List.mem_iff_getElem?.mp hmem with ⟨k, hk⟩
        rw [List.getElem?_zip_eq_some] at hk
        rw [hlanded]
        cases result with
        | error reply => exact Turn.refused
        | ok landed =>
            have hcommand : (batch.map Prod.snd)[k]? = some command := by
              rw [List.getElem?_map, hk.1]
              rfl
            exact Turn.wrote hcommand hk.2
  | change book q edit =>
      unfold Clients.next at h
      dsimp only at h
      split at h
      · next why hrefused =>
          cases h
          dsimp only
          rcases begin_eq w.calls q p (Call.refused (Reply.err why)) with
            hsame | hbegun
          · rw [hsame]
            exact Turn.stays
          · rw [hbegun]
            exact Turn.refused
      · next members hedit =>
          cases h
          dsimp only
          rcases begin_eq w.calls q p (Call.landed Kind.change
            (Command.config members)
            (proposeChange book w.system.replica members).2.1) with
            hsame | hbegun
          · rw [hsame]
            exact Turn.stays
          · rw [hbegun]
            cases hlanded : (proposeChange book w.system.replica members).2.1 with
            | error reply => exact Turn.refused
            | ok landed => exact Turn.changed hedit hlanded
  | check q =>
      cases h
      exact turn_answer q p (fun kind e hok => ⟨rfl, reached_of_ok hok⟩)
  | timeOut q =>
      cases h
      refine turn_answer q p ?_
      intro kind e hok
      exact absurd (Option.some.inj hok) (timeout_ne_ok kind)

/-- The entry of a call that waits is lost, or nothing is left to happen to it. -/
structure Tracked (c : Committed) (lost : caller -> Prop) (w : Clients caller) :
    Prop where
  follows : Follows w.system.replica.node.storage.log.base.index
    w.system.replica.node.storage.log.entries
  placed : Placed c w.system
  waiting : forall p kind e, w.calls p = Call.waiting kind e -> ¬ lost p ->
    Sure c w.system.replica e
  answered : forall p kind e, w.calls p = Call.answered kind e Reply.ok ->
    c.entry e.index = e

/-- What a check looks at is no further than the replica has come. -/
theorem Sure.entry {c : Committed} {r : ReplicatedStore} {e : Entry}
    (h : Sure c r e) {kind : Kind} (hreached : e.index <= kind.reached r) :
    c.entry e.index = e := by
  rcases h with hentry | ⟨hahead, _⟩
  · exact hentry
  · unfold Ahead at hahead
    cases kind with
    | write =>
        change e.index <= r.applied at hreached
        omega
    | change =>
        change e.index <= r.node.commitIndex at hreached
        omega

theorem Tracked.sure_next {c : Committed} {lost : caller -> Prop}
    {w w' : Clients caller} {act : Act caller} (h : Tracked c lost w)
    (hsafe : forall e, act.toEvent w.system.replica = some e ->
      Safe c w.system.replica e)
    (hnext : w.next act = Except.ok w') {p : caller} {kind : Kind} {e : Entry}
    (hwaiting : w.calls p = Call.waiting kind e)
    (hkept : ¬ w.lostAfter act lost p) : Sure c w'.system.replica e := by
  have hevent := next_event hnext
  unfold Clients.lostAfter at hkept
  rw [hwaiting] at hkept
  cases hact : act.toEvent w.system.replica with
  | none =>
      rw [hact] at hevent hkept
      rw [hevent]
      exact h.waiting p kind e hwaiting hkept
  | some event =>
      rw [hact] at hevent hkept
      dsimp only at hkept
      have hafter := follows_node (hsafe event hact) h.follows
      by_cases hahead : Ahead w.system.replica e.index
      · rw [if_pos hahead, not_or, not_and, not_not] at hkept
        rcases hkept with ⟨hstays, hback⟩
        by_cases hlost : lost p
        · have hhas := has_of_regains (hsafe event hact) h.follows (hback hlost)
          exact sure_of_has (hsafe event hact) h.placed hafter hevent hhas
        · rcases h.waiting p kind e hwaiting hlost with hentry | ⟨_, hheld⟩
          · exact Or.inl hentry
          · have hhas := has_node (hsafe event hact) h.follows hheld hstays
            exact sure_of_has (hsafe event hact) h.placed hafter hevent hhas
      · rw [if_neg hahead] at hkept
        rcases h.waiting p kind e hwaiting hkept with hentry | ⟨hstill, _⟩
        · exact Or.inl hentry
        · exact absurd hstill hahead

theorem Tracked.next {c : Committed} {lost : caller -> Prop}
    {w w' : Clients caller} {act : Act caller} (h : Tracked c lost w)
    (hsafe : forall e, act.toEvent w.system.replica = some e ->
      Safe c w.system.replica e)
    (hnext : w.next act = Except.ok w') (hspared : Spared lost w act) :
    Tracked c (w.lostAfter act lost) w' := by
  have hevent := next_event hnext
  refine ⟨?_, ?_, ?_, ?_⟩
  · cases hact : act.toEvent w.system.replica with
    | none =>
        rw [hact] at hevent
        rw [hevent]
        exact h.follows
    | some event =>
        rw [hact] at hevent
        have hgood := hsafe event hact
        exact (h.placed.arrives hgood.agrees hgood.applied hevent).2.follows
          (follows_node hgood h.follows)
  · cases hact : act.toEvent w.system.replica with
    | none =>
        rw [hact] at hevent
        rw [hevent]
        exact h.placed
    | some event =>
        rw [hact] at hevent
        have hgood := hsafe event hact
        exact h.placed.next hgood.agrees hgood.applied hevent
  · intro p kind e hwaiting hkept
    have hturn := turn_next hnext p
    rw [hwaiting] at hturn
    generalize hold : w.calls p = old at hturn
    cases hturn with
    | stays => exact h.sure_next hsafe hnext hold hkept
    | wrote hcommand hlanded =>
        have hgood := hsafe _ rfl
        have hentry := entry_proposeWrites hgood h.follows hcommand hlanded
        exact sure_of_has hgood h.placed (follows_node hgood h.follows) hevent
          (has_of_entry hentry)
    | @changed book q edit _ members index term hedit hlanded =>
        have hact : (Act.change book q edit).toEvent w.system.replica =
            some (Replicated.Event.proposeMembership members) := by
          dsimp only [Act.toEvent]
          rw [hedit]
        rw [hact] at hevent
        have hgood := hsafe _ hact
        have hentry := entry_proposeChange hgood h.follows hlanded
        exact sure_of_has hgood h.placed (follows_node hgood h.follows) hevent
          (has_of_entry hentry)
  · intro p kind e hanswered
    have hturn := turn_next hnext p
    rw [hanswered] at hturn
    generalize hold : w.calls p = old at hturn
    cases hturn with
    | stays => exact h.answered p kind e hold
    | answered hreached =>
        rcases hreached rfl with ⟨hact, hcome⟩
        have hkept : ¬ lost p := fun hlost =>
          Nat.not_lt_of_le hcome (hspared p kind e hact hold hlost)
        exact (h.waiting p kind e hold hkept).entry hcome

theorem ClientRun.tracked {c : Committed} {lost : caller -> Prop}
    {w : Clients caller} (h : ClientRun c Spared lost w) : Tracked c lost w := by
  induction h with
  | start dir storage opts id bootstrap config env snapshotEvery background
      hgapless hopen hnew =>
      refine ⟨?_, ⟨trivial, trivial⟩, nofun, nofun⟩
      have hnode : forall {node : Node} {store : Store} {r : ReplicatedStore},
          ReplicatedStore.new node store env = Except.ok r -> r.node = node := by
        intro node store r hnew
        unfold ReplicatedStore.new at hnew
        dsimp only at hnew
        split at hnew
        · rcases ReplicatedStore.restore_eq_ok hnew with ⟨_, _, _, _, rfl⟩
          rfl
        · cases hnew
          rfl
      dsimp only
      rw [hnode hnew]
      unfold Node.withMembers
      dsimp only
      rw [storage_reloadMembership]
      exact hgapless
  | next act hrun hsafe hnext hspared ih => exact ih.next hsafe hnext hspared

/-- In every run in which no thread whose entry was lost looks once its index is
reached, a client is told OK only when the entry at its index, of all that the replica
applies or takes to be committed, is its own. -/
theorem ok_is_for_its_own_entry {c : Committed} {lost : caller -> Prop}
    {w : Clients caller} (hrun : ClientRun c Spared lost w) :
    (forall p kind e, w.calls p = Call.waiting kind e -> ¬ lost p ->
      kind.check e.index e.term w.system.replica = some Reply.ok ->
      e.index <= kind.reached w.system.replica ∧ c.entry e.index = e) ∧
    (forall p kind e, w.calls p = Call.answered kind e Reply.ok ->
      c.entry e.index = e) ∧
    forall event, Safe c w.system.replica event -> forall taken,
      taken ∈ (event.node w.system.replica).takeCommitted.2 ->
      c.entry taken.index = taken := by
  have htracked := hrun.tracked
  refine ⟨?_, htracked.answered, ?_⟩
  · intro p kind e hwaiting hkept hok
    have hreached := reached_of_ok hok
    exact ⟨hreached, (htracked.waiting p kind e hwaiting hkept).entry hreached⟩
  · intro event hsafe taken htaken
    exact (taken_committed hsafe.agrees htaken).1

end Runs

/-!
# A write that is overwritten, and one that is not

A leader of three nodes is asked to write.  Before anybody else has the entry, another
node leads the next term, and what it sends replaces the entry and commits the one in
its place at once.
-/

def trio : List Member :=
  [{ id := 1, context := [], learner := false },
    { id := 2, context := [], learner := false },
    { id := 3, context := [], learner := false }]

def sampleCommand : Bytes :=
  [145, 0, 166, 15, 0, 0, 0, 0, 0, 0, 0, 0, 1, 0, 0, 0, 0, 0, 0, 0, 1, 7]

set_option maxRecDepth 10000 in
theorem encode_sampleCommand :
    (Op.delete [7]).encode 0 = Except.ok sampleCommand := by
  with_unfolding_all rfl

def sampleEntry : Entry :=
  { term := 1, index := 2, command := Command.data sampleCommand }

def trioNode : Node :=
  Node.withMembers 1 trio {} {}

def leadingNode : Node :=
  (trioNode.campaign.1.step 2 (Message.requestVoteReply 1 true)).1.takeCommitted.1

def waitingNode : Node :=
  { leadingNode with storage := leadingNode.storage.append [sampleEntry] }

def trioSystem (node : Node) (store : Store) (applied : Nat) : System where
  replica :=
    { node := node
      store := store
      applied := applied
      snapshotEvery := defaultSnapshotEvery
      backgroundSnapshots := true
      snapshotting := false
      compactionDue := false
      restoring := false }
  snapshot := Work.idle
  compaction := Work.idle
  restore := Work.idle

theorem campaign_next (store : Store) :
    (trioSystem trioNode store 0).next Event.campaign =
      Except.ok (trioSystem trioNode.campaign.1 store 0) := by
  with_unfolding_all rfl

theorem elected_next (store : Store) :
    (trioSystem trioNode.campaign.1 store 0).next
        (Event.step quietEnv 2 (Message.requestVoteReply 1 true)) =
      Except.ok (trioSystem leadingNode store 0) := by
  with_unfolding_all rfl

theorem proposed_next (store : Store) (book : AddressBook) :
    Clients.next { system := trioSystem leadingNode store 0 }
        (Act.write book [((), sampleCommand)]) =
      Except.ok
        { system := trioSystem waitingNode store 0
          calls := fun _ => Call.waiting Kind.write sampleEntry } := by
  with_unfolding_all rfl

theorem step_trio {node : Node} {store store' : Store} {applied applied' : Nat}
    {sender : NodeId} {message : Message}
    (hsnapshot :
      (node.step sender message).1.storage.snapshotMeta.index <= applied)
    (hloop : (node.step sender message).1.takeCommitted.2.foldlM
      (applyEntry quietEnv) (store, applied) = Except.ok (store', applied')) :
    (trioSystem node store applied).next (Event.step quietEnv sender message) =
      Except.ok (trioSystem (node.step sender message).1.takeCommitted.1
        (if applied' > applied then writeApplied store'.sync applied'
          else store') applied') := by
  show Except.map _ (ReplicatedStore.step _ quietEnv sender message) = _
  have happly : ReplicatedStore.apply { (trioSystem node store applied).replica with
      node := (node.step sender message).1 } quietEnv =
      Except.ok (trioSystem (node.step sender message).1.takeCommitted.1
        (if applied' > applied then writeApplied store'.sync applied'
          else store') applied').replica := by
    unfold ReplicatedStore.apply ReplicatedStore.snapshotIndex
    dsimp only [trioSystem]
    simp only [gt_iff_lt, Nat.not_lt.mpr hsnapshot, decide_false, Bool.false_and,
      Bool.false_eq_true, if_false, Except.bind]
    rw [hloop]
    rfl
  have hstep : ReplicatedStore.step (trioSystem node store applied).replica
      quietEnv sender message = (ReplicatedStore.apply
        { (trioSystem node store applied).replica with
          node := (node.step sender message).1 } quietEnv).map
        (fun r => (r, (node.step sender message).2)) := rfl
  rw [hstep, happly]
  rfl

def overruling : Message :=
  Message.appendEntries 2 1 1
    [{ term := 2, index := 2, command := Command.noop }] 2 0

theorem taken_overruling : (waitingNode.step 3 overruling).1.takeCommitted.2 =
    [{ term := 1, index := 1, command := Command.noop },
      { term := 2, index := 2, command := Command.noop }] := by
  with_unfolding_all rfl

def confirming : Message :=
  Message.appendEntriesReply 1 true 2 0 none 0

theorem taken_confirming : (waitingNode.step 2 confirming).1.takeCommitted.2 =
    [{ term := 1, index := 1, command := Command.noop }, sampleEntry] := by
  with_unfolding_all rfl

theorem overruled_next (store : Store) :
    (trioSystem waitingNode store 0).next (Event.step quietEnv 3 overruling) =
      Except.ok (trioSystem (waitingNode.step 3 overruling).1.takeCommitted.1
        (writeApplied store.sync 2) 2) := by
  have hloop : (waitingNode.step 3 overruling).1.takeCommitted.2.foldlM
      (applyEntry quietEnv) (store, 0) = Except.ok (store, 2) := by
    rw [taken_overruling]
    rfl
  have hsnapshot :
      (waitingNode.step 3 overruling).1.storage.snapshotMeta.index <= 0 := by
    with_unfolding_all exact Nat.le_refl 0
  exact step_trio hsnapshot hloop

theorem applyEntry_sample {store : Store} (hrestoring : store.restoring = false)
    (habsent : store.containsKey [7] = false) :
    applyEntry quietEnv (store, 1) sampleEntry = Except.ok (store, 2) := by
  unfold applyEntry sampleEntry
  dsimp only
  rw [if_neg (by decide), Op.decode_encode encode_sampleCommand]
  simp only [Except.bind]
  unfold Store.deleteDeferred Store.deleteWith
  rw [hrestoring, habsent]
  rfl

def logWith (second : Entry) (op : Option Op) (hindex : second.index = 2)
    (hcarries :
      match second.command with
      | Command.data bytes =>
          exists op' now, op = some op' ∧ op'.encode now = Except.ok bytes
      | _ => op = none) : Committed where
  entry i :=
    if i = 2 then second
    else { term := 1, index := i, command := Command.noop }
  op i := if i = 2 then op else none
  index i := by
    by_cases heq : i = 2
    · simp only [if_pos heq]
      rw [hindex, heq]
    · simp only [if_neg heq]
  carries i := by
    by_cases heq : i = 2
    · simp only [if_pos heq]
      exact hcarries
    · simp only [if_neg heq]

theorem safe_of_uncommitted (c : Committed) {r : ReplicatedStore} {event : Event}
    (hcommit : (event.node r).commitIndex = 0)
    (hsnapshot : (event.node r).storage.snapshotMeta.index = r.snapshotIndex)
    (happlied : r.applied = 0)
    (hcontiguous : forall env sender message,
      event = Event.step env sender message -> Contiguous message) :
    Safe c r event := by
  refine ⟨⟨?_, fun hne => absurd hsnapshot hne⟩, ?_, hcontiguous⟩
  · intro i hbase hi
    omega
  · intro i hbase hi
    omega

theorem lostAfter_idle {w : Clients Unit} {act : Act Unit} {lost : Unit -> Prop}
    (hidle : forall kind e, w.calls () ≠ Call.waiting kind e)
    (hkept : ¬ lost ()) : ¬ w.lostAfter act lost () := by
  unfold Clients.lostAfter
  split
  · next hwaiting _ => exact absurd hwaiting (hidle _ _)
  · exact hkept

theorem run_waiting (c : Committed)
    {allowed : (Unit -> Prop) -> Clients Unit -> Act Unit -> Prop}
    (hallowed : forall lost w act, (forall p, act ≠ Act.check p) ->
      allowed lost w act)
    (book : AddressBook) {store : Store}
    (hopen : Store.openWith {} {} = Except.ok store) :
    exists lost, ClientRun c allowed lost
      { system := trioSystem waitingNode store 0
        calls := fun _ => Call.waiting Kind.write sampleEntry } ∧ ¬ lost () := by
  have hnew : ReplicatedStore.new trioNode store quietEnv = Except.ok
      { (trioSystem trioNode store 0).replica with
        backgroundSnapshots := false } := by
    unfold ReplicatedStore.new
    rw [readApplied_open hopen]
    rfl
  have hstart : ClientRun c allowed (fun _ => False)
      { system := trioSystem trioNode store 0 } :=
    ClientRun.start {} {} {} 1 trio {} quietEnv defaultSnapshotEvery true trivial
      hopen hnew
  have hcampaign := hstart.next (Act.event Event.campaign) ?_
    (next_of_event (campaign_next store)) (hallowed _ _ _ nofun)
  · have helected := hcampaign.next (Act.event
      (Event.step quietEnv 2 (Message.requestVoteReply 1 true))) ?_
      (next_of_event (elected_next store)) (hallowed _ _ _ nofun)
    · refine ⟨_, helected.next (Act.write book [((), sampleCommand)]) ?_
        (proposed_next store book) (hallowed _ _ _ nofun), ?_⟩
      · intro event hevent
        cases hevent
        exact safe_of_uncommitted c (by with_unfolding_all rfl)
          (by with_unfolding_all rfl) rfl nofun
      · exact lostAfter_idle nofun (lostAfter_idle nofun (lostAfter_idle nofun id))
    · intro event hevent
      cases hevent
      refine safe_of_uncommitted c (by with_unfolding_all rfl)
        (by with_unfolding_all rfl) rfl ?_
      intro env sender message hstep
      cases hstep
      trivial
  · intro event hevent
    cases hevent
    exact safe_of_uncommitted c (by with_unfolding_all rfl)
      (by with_unfolding_all rfl) rfl nofun

/-- Both entries are committed at once. -/
theorem safe_of_committed {c : Committed} {store : Store} {sender : NodeId}
    {message : Message}
    (hnode : (Event.step quietEnv sender message).node
      (trioSystem waitingNode store 0).replica =
      (waitingNode.step sender message).1)
    (hcommit : (waitingNode.step sender message).1.commitIndex = 2)
    (hlog : (waitingNode.step sender message).1.storage.log =
      { entries := [c.entry 1, c.entry 2] })
    (hcontiguous : Contiguous message) :
    Safe c (trioSystem waitingNode store 0).replica
      (Event.step quietEnv sender message) := by
  have hlast : EntryLog.lastIndex { entries := [c.entry 1, c.entry 2] } = 2 :=
    c.index 2
  refine ⟨⟨?_, ?_⟩, ?_, ?_⟩
  · rw [hnode]
    intro i hbase hi
    rw [hcommit] at hi
    rw [hlog] at hbase
    unfold MemStorage.entry EntryLog.entry EntryLog.position
    rw [hlog, hlast]
    have hcases : i = 1 ∨ i = 2 := by
      dsimp only at hbase
      omega
    rcases hcases with rfl | rfl
    · rfl
    · rfl
  · rw [hnode, MemStorage.snapshotMeta, hlog]
    exact fun hne => absurd rfl hne
  · intro i hbase hi
    change i <= 0 at hi
    omega
  · intro env sender' message' heq
    cases heq
    exact hcontiguous

def overrulingEntry : Entry :=
  { term := 2, index := 2, command := Command.noop }

/-- A leader's write is answered OK when another leader's entry has taken its place. -/
theorem overwritten_write_answered_ok :
    exists (c : Committed) (lost : Unit -> Prop) (w : Clients Unit) (e : Entry)
      (command : Bytes),
      ClientRun c (fun _ _ _ => True) lost w ∧
      (Op.delete [7]).encode 0 = Except.ok command ∧
      e.command = Command.data command ∧
      w.calls () = Call.answered Kind.write e Reply.ok ∧
      e.index <= w.system.replica.applied ∧ c.entry e.index ≠ e := by
  rcases Store.serves_open {} with ⟨store, hopen, _⟩
  rcases @run_waiting (logWith overrulingEntry none rfl rfl)
    (fun _ _ _ => True) (fun _ _ _ _ => trivial)
    { me := 1, configured := Table.empty, seen := 0 } store hopen with
    ⟨lost, hwaiting, _⟩
  have hoverruled := hwaiting.next (Act.event
    (Event.step quietEnv 3 overruling)) ?_ (next_of_event (overruled_next store))
    trivial
  · have hanswered := hoverruled.next (Act.check ()) nofun rfl trivial
    refine ⟨_, _, _, sampleEntry, sampleCommand, hanswered, encode_sampleCommand,
      rfl, rfl, Nat.le_refl 2, ?_⟩
    intro hsame
    cases hsame
  · intro event hevent
    cases hevent
    exact safe_of_committed rfl (by with_unfolding_all rfl)
      (by with_unfolding_all rfl) ⟨rfl, trivial⟩

def confirmedLog : Committed :=
  logWith sampleEntry (some (Op.delete [7])) rfl
    ⟨Op.delete [7], 0, rfl, encode_sampleCommand⟩

theorem confirmed_next {store : Store} (hrestoring : store.restoring = false)
    (habsent : store.containsKey [7] = false) :
    (trioSystem waitingNode store 0).next
        (Event.step quietEnv 2 confirming) =
      Except.ok (trioSystem (waitingNode.step 2 confirming).1.takeCommitted.1
        (writeApplied store.sync 2) 2) := by
  have hloop : (waitingNode.step 2 confirming).1.takeCommitted.2.foldlM
      (applyEntry quietEnv) (store, 0) = Except.ok (store, 2) := by
    have hfirst : applyEntry quietEnv (store, 0)
        { term := 1, index := 1, command := Command.noop } =
        Except.ok (store, 1) := rfl
    have hsecond := applyEntry_sample hrestoring habsent
    rw [taken_confirming]
    generalize sampleEntry = second at hsecond ⊢
    simp only [List.foldlM_cons, List.foldlM_nil, hfirst, hsecond, bind,
      Except.bind]
    rfl
  have hsnapshot :
      (waitingNode.step 2 confirming).1.storage.snapshotMeta.index <= 0 := by
    with_unfolding_all exact Nat.le_refl 0
  exact step_trio hsnapshot hloop

theorem ok_is_for_its_own_entry_confirmed :
    exists (c : Committed) (lost : Unit -> Prop) (w : Clients Unit),
      ClientRun c Spared lost w ∧
      w.calls () = Call.answered Kind.write sampleEntry Reply.ok ∧
      c.entry 2 = sampleEntry := by
  rcases Store.serves_open {} with ⟨store, hopen, hok, hindexes, _, hrestoring, _⟩
  have habsent : store.containsKey [7] = false := Store.containsKey_eq hindexes [7]
  rcases @run_waiting confirmedLog Spared
    (fun _ _ _ hplain p _ _ hcheck => absurd hcheck (hplain p))
    { me := 1, configured := Table.empty, seen := 0 } store hopen with
    ⟨lost, hwaiting, hkept⟩
  have hconfirmed := hwaiting.next (Act.event
    (Event.step quietEnv 2 confirming)) ?_
    (next_of_event (confirmed_next hrestoring habsent)) nofun
  · have hspared : ¬ Clients.lostAfter
        { system := trioSystem waitingNode store 0
          calls := fun _ => Call.waiting Kind.write sampleEntry }
        (Act.event (Event.step quietEnv 2 confirming)) lost () := by
      unfold Clients.lostAfter
      dsimp only [Act.toEvent]
      rw [if_pos (by with_unfolding_all exact Nat.zero_lt_succ 1)]
      rintro (hloses | ⟨hlost, _⟩)
      · rcases hloses with ⟨_, hconflicts⟩ | ⟨_, hinstalls, _⟩
        · exact hconflicts
        · exact hinstalls
      · exact hkept hlost
    have hanswered := hconfirmed.next (Act.check ()) nofun rfl
      (fun _ _ _ _ _ hlost => absurd hlost hspared)
    exact ⟨confirmedLog, _, _, hanswered, rfl,
      (ok_is_for_its_own_entry hanswered).2.1 () Kind.write sampleEntry rfl⟩
  · intro event hevent
    cases hevent
    exact safe_of_committed rfl (by with_unfolding_all rfl)
      (by with_unfolding_all rfl) trivial

end ClusterNode
end Minicask
