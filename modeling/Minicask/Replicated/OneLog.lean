import Minicask.Replicated.AppliedIndex
import Minicask.Replicated.SharedSnapshots

/-!
# The log that all replicas stand by

Whatever the replicas of a fleet do, there is a log of which every running replica's
store is the fold, each up to its own applied index, and by which a stopped one comes
back.
-/

namespace Minicask
namespace Replicated

open Raft Consensus

/-!
# What is known of the log
-/

/-- A committed log has the entry at the index. -/
def Recorded (a : Past) (i : Nat) (e : Entry) : Prop :=
  0 < i ∧ e.index = i ∧ exists bound l,
    Consensus.Committed a bound l i ∧ l[i - 1]? = some e

namespace Recorded

variable {a b : Past} {i : Nat} {e e' : Entry}

theorem mono (h : Recorded a i e) (hext : Extends a b) : Recorded b i e := by
  rcases h with ⟨hpos, hindex, bound, l, hcommitted, hentry⟩
  exact ⟨hpos, hindex, bound, l, hcommitted.mono hext (Nat.le_refl _), hentry⟩

theorem agree {S : Setting NodeId Entry} (hinv : Inv S a) (h : Recorded a i e)
    (h' : Recorded a i e') : e = e' := by
  rcases h with ⟨hpos, _, bound, l, hcommitted, hentry⟩
  rcases h' with ⟨_, _, bound', l', hcommitted', hentry'⟩
  have hsame := hinv.committed_agree hcommitted hcommitted' (Nat.le_refl i)
  have hlt : i - 1 < i := Nat.sub_lt hpos Nat.one_pos
  rw [← List.getElem?_take_of_lt hlt, hsame, List.getElem?_take_of_lt hlt,
    hentry'] at hentry
  exact (Option.some.inj hentry).symm

end Recorded

/-- What a node has at a committed index. -/
def HasCommitted (node : Node) (i : Nat) (e : Entry) : Prop :=
  i <= node.commitIndex ∧ node.storage.entry i = some e

theorem HasCommitted.recorded {B : List Member} {a : Past} {n : NodeId}
    {node : Node} (hnode : NodeOk B a n node) {i : Nat} {e : Entry}
    (h : HasCommitted node i e) : Recorded a i e := by
  rcases hnode.storage.shows.entry_eq_some h.2 with ⟨hbase, hentry, hindex⟩
  exact ⟨Nat.lt_of_le_of_lt (Nat.zero_le _) hbase, hindex, _, _,
    hnode.commit.le h.1, hentry⟩

/-- Entries that have been seen committed: they are in the log, and their commands are
allowed. -/
structure Learned (allowed : Bytes -> Prop) (a : Past)
    (known : Nat -> Entry -> Prop) : Prop where
  recorded : forall i e, known i e -> Recorded a i e
  commands : forall i e, known i e -> e.Allowed allowed

def Records (c : Committed) (known : Nat -> Entry -> Prop) : Prop :=
  forall i e, known i e -> c.entry i = e

namespace Learned

variable {allowed : Bytes -> Prop} {a b : Past}
  {known known' : Nat -> Entry -> Prop}

theorem mono (h : Learned allowed a known) (hext : Extends a b) :
    Learned allowed b known :=
  ⟨fun i e hknown => (h.recorded i e hknown).mono hext, h.commands⟩

theorem both (h : Learned allowed a known) (h' : Learned allowed a known') :
    Learned allowed a (fun i e => known i e ∨ known' i e) := by
  refine ⟨fun i e hknown => ?_, fun i e hknown => ?_⟩
  · rcases hknown with hold | hnew
    · exact h.recorded i e hold
    · exact h'.recorded i e hnew
  · rcases hknown with hold | hnew
    · exact h.commands i e hold
    · exact h'.commands i e hnew

end Learned

open Classical in
noncomputable def writeOf : Command -> Option Op
  | Command.data bytes =>
      if h : exists (op : Op) (now : UInt64), op.encode now = Except.ok bytes then
        some h.choose
      else none
  | _ => none

open Classical in
/-- The entry that is known at an index, or one without a command. -/
noncomputable def entryOf (known : Nat -> Entry -> Prop) (i : Nat) : Entry :=
  if h : exists e, known i e then h.choose
  else { term := 0, index := i, command := Command.noop }

/-- There is a log of all that is known, and of nothing else. -/
theorem exists_log {allowed : Bytes -> Prop}
    (hallowed : forall command, allowed command -> Writes command)
    {known : Nat -> Entry -> Prop} (hindexes : forall i e, known i e -> e.index = i)
    (hagree : forall i e e', known i e -> known i e' -> e = e')
    (hcommands : forall i e, known i e -> e.Allowed allowed) :
    exists c : Committed, c.Short ∧ Records c known ∧
      forall i, (c.entry i).Allowed allowed := by
  have hknown : forall i, (exists e, known i e) -> known i (entryOf known i) := by
    intro i hexists
    unfold entryOf
    rw [dif_pos hexists]
    exact hexists.choose_spec
  have hunknown : forall i, ¬ (exists e, known i e) ->
      entryOf known i = { term := 0, index := i, command := Command.noop } := by
    intro i hnone
    unfold entryOf
    rw [dif_neg hnone]
  have hwritten : forall i, (entryOf known i).Allowed allowed := by
    intro i bytes hdata
    by_cases hexists : exists e, known i e
    · exact hcommands i _ (hknown i hexists) bytes hdata
    · rw [hunknown i hexists] at hdata
      cases hdata
  have hindex : forall i, (entryOf known i).index = i := by
    intro i
    by_cases hexists : exists e, known i e
    · exact hindexes i _ (hknown i hexists)
    · rw [hunknown i hexists]
  refine ⟨{ entry := entryOf known
            op := fun i => writeOf (entryOf known i).command
            index := hindex
            carries := ?_ }, ?_, ?_, hwritten⟩
  · intro i
    have hbytes := hwritten i
    cases hcommand : (entryOf known i).command with
    | noop => rfl
    | config members => rfl
    | data bytes =>
        have hexists := (hallowed bytes (hbytes bytes hcommand)).2
        refine ⟨hexists.choose, hexists.choose_spec.choose, ?_,
          hexists.choose_spec.choose_spec⟩
        exact dif_pos hexists
  · exact fun i bytes hdata => (hallowed bytes (hwritten i bytes hdata)).1
  · exact fun i e he => hagree i _ e (hknown i ⟨e, he⟩) he

theorem Learned.exists_log {S : Setting NodeId Entry} {a : Past}
    (hinv : Inv S a) {allowed : Bytes -> Prop}
    (hallowed : forall command, allowed command -> Writes command)
    {known : Nat -> Entry -> Prop} (h : Learned allowed a known) :
    exists c : Committed, c.Short ∧ Records c known ∧
      forall i, (c.entry i).Allowed allowed :=
  Replicated.exists_log hallowed (fun i e hknown => (h.recorded i e hknown).2.1)
    (fun i e e' he he' => Recorded.agree hinv (h.recorded i e he)
      (h.recorded i e' he')) h.commands

/-- A node agrees with a log of all that it has committed. -/
theorem agrees_of_records {B : List Member} {a : Past} {n : NodeId} {node : Node}
    (h : NodeOk B a n node) {c : Committed}
    (hrecords : Records c (HasCommitted node)) : Agrees c node := by
  intro i hbase hi
  have hlength : i <= (a.log n).length := Nat.le_trans hi h.commit.1
  have hentry : node.storage.entry i = (a.log n)[i - 1]? := by
    rw [MemStorage.entry, h.storage.shows.entry, if_pos hbase]
  have hlt : i - 1 < (a.log n).length :=
    Nat.lt_of_lt_of_le (Nat.sub_lt (Nat.lt_of_le_of_lt (Nat.zero_le _) hbase)
      Nat.one_pos) hlength
  rw [List.getElem?_eq_getElem hlt] at hentry
  rw [hentry, hrecords i _ ⟨hi, hentry⟩]

/-!
# What a log says of a fleet
-/

/-- A replica that is the fold of a log, or that will be once it has come back. -/
def Standing (c : Committed) : Stage -> Prop
  | Stage.up s => Enduring c 0 s ∧ Carrying c s
  | Stage.down disk storage =>
      (disk = {} ∧ storage = {}) ∨
        Fallen c (readApplied { disk := disk }) disk storage ∧
          storage.snapshot = c.snapshot storage.snapshotMeta.index

structure Fleet.Stands (c : Committed) (f : Fleet) : Prop where
  hosts : forall n, Standing c (f.hosts n)
  sent : forall envelope, envelope ∈ f.sent ->
    Brings c envelope.sender envelope.message

/-- A replica that has applied all that it ever did holds what stands there, and no
mixture of it with what came later. -/
theorem Enduring.exact {c : Committed} (hshort : c.Short) {high : Nat}
    {r : ReplicatedStore}
    (h : Enduring c high
      { replica := r
        snapshot := Work.idle
        compaction := Work.idle
        restore := Work.idle })
    (hreached : high <= r.applied) (hcarries : Carries c r.node) :
    Enduring c 0
      { replica := r
        snapshot := Work.idle
        compaction := Work.idle
        restore := Work.idle } := by
  have hexact : forall m, c.Stands high r.applied m -> c.Stands 0 r.applied m := by
    intro m hm
    rw [hm.exact hreached]
    exact c.stands_contents 0 r.applied
  have hgood := h.inv.good
  rcases hgood.stands with ⟨m, hm, hindexes⟩
  have hencodes := Committed.encodes_snapshot hshort r.snapshotIndex
  rw [show c.snapshot r.snapshotIndex = r.node.storage.snapshot from
    hcarries.snapshot.symm] at hencodes
  refine ⟨⟨⟨hgood.ok, ⟨m, hexact m hm, hindexes⟩, hgood.level,
    ⟨_, c.stands_contents 0 _, hencodes⟩, hgood.restoring, hgood.waiting,
    hgood.inline⟩, trivial, trivial, trivial⟩, ?_⟩
  have hlasting := h.lasting
  refine ⟨hlasting.sturdy, hlasting.pending, hlasting.recorded, ?_⟩
  rcases hlasting.durable with hdurable | ⟨hidle, chart, hsurvives, hwhole⟩
  · exact Or.inl hdurable
  · exact Or.inr ⟨hidle, chart, hsurvives.mono hexact, hwhole⟩

theorem applied_of_killed {c : Committed} {s : System} (h : Enduring c 0 s)
    {disk : Disk} (hkilled : s.replica.store.dir.disk.Killed disk) :
    readApplied { disk := disk } = s.replica.applied :=
  (readApplied_congr hkilled.appliedIndex).trans h.lasting.recorded

/-- What a stopped replica leaves. -/
theorem standing_of_stopped {c : Committed} {s : System} (h : Enduring c 0 s)
    (hcarries : Carries c s.replica.node) (hquiet : Quiet s.replica) {disk : Disk}
    (hkilled : s.replica.store.dir.disk.Killed disk) :
    Standing c (Stage.down disk s.replica.node.storage) := by
  have hfallen := h.fallen hquiet hkilled
  rw [Nat.max_eq_right (Nat.zero_le _), ← applied_of_killed h hkilled] at hfallen
  exact Or.inr ⟨hfallen, hcarries.snapshot⟩

theorem Standing.recorded {c : Committed} {disk : Disk} {storage : MemStorage}
    (h : Standing c (Stage.down disk storage)) {opts : Options} {store : Store}
    (hopen : Store.openWith { disk := disk } opts = Except.ok store) :
    readApplied store.dir = readApplied { disk := disk } := by
  rcases h with ⟨rfl, _⟩ | ⟨hfallen, _⟩
  · rw [readApplied_open hopen]
    rfl
  · rcases hfallen.opens opts with ⟨store', m, hopen', _, _, _, hopened⟩
    rw [hopen] at hopen'
    cases hopen'
    exact hopened.recorded

theorem standing_of_restarted {c : Committed} (hshort : c.Short) {disk : Disk}
    {storage : MemStorage} (h : Standing c (Stage.down disk storage))
    {opts : Options} {store : Store}
    (hopen : Store.openWith { disk := disk } opts = Except.ok store) {n : NodeId}
    {B : List Member} {config : Config} {env : Env} {r : ReplicatedStore}
    (hnew : ReplicatedStore.new (Node.withMembers n B config storage) store env =
      Except.ok r) (hindex : r.applied < 2 ^ 64) (snapshotEvery : Nat)
    (background : Bool) :
    Standing c (Stage.up
      { replica := { r with
          snapshotEvery := snapshotEvery
          backgroundSnapshots := background }
        snapshot := Work.idle
        compaction := Work.idle
        restore := Work.idle }) := by
  have hlevel := new_cases hnew
  have hnode : r.node = Node.withMembers n B config storage := hlevel.node_eq
  have hbegins : storage.snapshot = c.snapshot storage.snapshotMeta.index ->
      Carries c r.node := by
    intro hsnapshot
    rw [hnode]
    refine ⟨?_, Beginning.nothing (incoming_reloadMembership _)⟩
    rw [withMembers_storage]
    exact hsnapshot
  rcases h with ⟨rfl, rfl⟩ | ⟨hfallen, hsnapshot⟩
  · have hcarries := hbegins c.snapshot_zero.symm
    exact ⟨enduring_new c hopen hnew snapshotEvery background, hcarries,
      fun _ hwork => by cases hwork⟩
  · have hcarries := hbegins hsnapshot
    rcases hfallen.joins hopen n B config with ⟨hgood, hlasting⟩
    have henduring := enduring_of_joined hgood hlasting hnew hindex snapshotEvery
      background
    have hreached : readApplied { disk := disk } <= r.applied := by
      rw [← Standing.recorded (Or.inr ⟨hfallen, hsnapshot⟩) hopen]
      exact hlevel.reached
    exact ⟨henduring.exact hshort hreached hcarries, hcarries,
      fun _ hwork => by cases hwork⟩

theorem Event.applies_node {s s' : System} {e : Event} {env : Env}
    (h : e.applies s = some (env, s')) :
    s'.replica.node = e.node s.replica := by
  cases e with
  | tick env' =>
      cases h
      rfl
  | step env' sender message =>
      rcases Event.applies_step h with ⟨rfl, hnode, _⟩
      exact hnode.symm
  | finishRestore env' => exact (Event.applies_finishRestore h).1
  | _ => cases h

/-- Every entry of a replica's log is allowed. -/
def Stage.Holds (allowed : Bytes -> Prop) : Stage -> Prop
  | Stage.up s => s.replica.node.Holds allowed
  | Stage.down _ storage =>
      forall e, e ∈ storage.log.entries -> e.Allowed allowed

/-- What is known of a fleet: a history of the protocol, and committed entries, such
that any log that has these says how every replica stands. -/
structure Tracked (B : List Member) (allowed : Bytes -> Prop) (f : Fleet)
    (a : Past) (known : Nat -> Entry -> Prop) : Prop where
  traced : Traced B f a
  holds : forall n, (f.hosts n).Holds allowed
  sent : forall envelope, envelope ∈ f.sent -> envelope.message.Allowed allowed
  learned : Learned allowed a known
  reached : forall n, Reaches a n (f.hosts n).applied
  stands : forall c : Committed, c.Short -> Records c known -> f.Stands c

namespace Tracked

variable {B : List Member} {allowed : Bytes -> Prop} {f g : Fleet} {a : Past}
  {known : Nat -> Entry -> Prop}

theorem start (B : List Member) (allowed : Bytes -> Prop) :
    Tracked B allowed Fleet.start History.initial (fun _ _ => False) where
  traced := Traced.start B
  holds _ _ he := absurd he List.not_mem_nil
  sent _ henvelope := absurd henvelope List.not_mem_nil
  learned := ⟨fun _ _ hnone => hnone.elim, fun _ _ hnone => hnone.elim⟩
  reached _ := committed_zero _ _ _
  stands _ _ _ := ⟨fun _ => Or.inl ⟨rfl, rfl⟩,
    fun _ henvelope => absurd henvelope List.not_mem_nil⟩

/-- What is known once an event has been through a node. -/
structure After (B : List Member) (allowed : Bytes -> Prop) (f : Fleet) (a : Past)
    (known : Nat -> Entry -> Prop) (n : NodeId) (s : System) (e : Event)
    (b : Past) : Prop where
  run : Consensus.Run (setting B) a b
  nodeOk : NodeOk B b n (e.node s.replica)
  begun : Begun (SinkOk B b n) s.snapshot
  inv : Consensus.Inv (setting B) b
  extension : Extends a b
  kept : forall m i, Reaches a m i -> Reaches b m i
  snapshot : Reaches b n s.replica.snapshotIndex
  clean : Clean allowed (e.node s.replica, e.sent s.replica)
  learned : Learned allowed b
    (fun i entry => known i entry ∨ HasCommitted (e.node s.replica) i entry)
  traced : forall stage actions,
    (forall action, action ∈ actions -> action ∈ e.sent s.replica) ->
      Hosted B b n stage -> Traced B (f.put n stage actions) b
  promised : forall c : Committed, c.Short -> Records c
      (fun i entry => known i entry ∨ HasCommitted (e.node s.replica) i entry) ->
    Promised c s.replica e ∧ Enduring c 0 s ∧ Carrying c s ∧
      Carries c (e.node s.replica) ∧
      forall action, action ∈ e.sent s.replica -> Brings c n action.message

theorem after (h : Tracked B allowed f a known) {n : NodeId} {s : System}
    (hup : f.hosts n = Stage.up s) {e : Event}
    (hallows : f.Allows allowed n s.replica e) :
    exists b, After B allowed f a known n s e b := by
  rcases h.traced.moved hup hallows with ⟨b, hrun, hinv, hnode, hbegun, hkept, htraced⟩
  have hholds := h.holds n
  rw [hup] at hholds
  have hhosted := h.traced.hosts n
  rw [hup] at hhosted
  have hext := (h.traced.inv.run_extends hrun).2
  have hclean : Clean allowed (e.node s.replica, e.sent s.replica) :=
    Event.clean hholds
      (fun env sender message he => h.sent _ (hallows.arrives env sender message he))
      hallows.commands
  have hhas : Learned allowed b (HasCommitted (e.node s.replica)) :=
    ⟨fun i entry hentry => hentry.recorded hnode,
      fun i entry hentry => hclean.node entry (mem_of_entry hentry.2)⟩
  refine ⟨b, hrun, hnode, hbegun, hinv, hext, hkept,
    hkept n _ hhosted.1.storage.base, hclean,
    (h.learned.mono hext).both hhas, htraced, ?_⟩
  intro c hshort hrecords
  have hstands := h.stands c hshort
    (fun i entry hknown => hrecords i entry (Or.inl hknown))
  have hstanding := hstands.hosts n
  rw [hup] at hstanding
  rcases hstanding with ⟨henduring, hcarrying⟩
  rcases Event.carries (n := n) hcarrying.node (e := e)
    (fun env sender message he =>
      hstands.sent _ (hallows.arrives env sender message he)) with
    ⟨hcarries, hsent⟩
  refine ⟨⟨?_, fun _ => ?_⟩, henduring, hcarrying, hcarries, hsent⟩
  · exact agrees_of_records hnode
      (fun i entry hentry => hrecords i entry (Or.inr hentry))
  · rw [hcarries.snapshot]
    exact Committed.encodes_snapshot hshort _

theorem stands_put {c : Committed} (h : f.Stands c) {n : NodeId} {stage : Stage}
    {actions : List Action} (hstage : Standing c stage)
    (hsent : forall action, action ∈ actions -> Brings c n action.message) :
    (f.put n stage actions).Stands c := by
  refine ⟨Fleet.forall_put (P := fun _ stage => Standing c stage) h.hosts hstage,
    fun envelope henvelope => ?_⟩
  rcases Fleet.mem_sent_put henvelope with hold | ⟨action, haction, rfl⟩
  · exact h.sent envelope hold
  · exact hsent action haction

theorem allowed_put {n : NodeId} {stage : Stage} {actions : List Action}
    (h : Tracked B allowed f a known)
    (hsent : forall action, action ∈ actions -> action.message.Allowed allowed) :
    forall envelope, envelope ∈ (f.put n stage actions).sent ->
      envelope.message.Allowed allowed := by
  intro envelope henvelope
  rcases Fleet.mem_sent_put henvelope with hold | ⟨action, haction, rfl⟩
  · exact h.sent envelope hold
  · exact hsent action haction

theorem applied_put {n : NodeId} {stage : Stage} {actions : List Action}
    (h : (f.hosts n).applied <= stage.applied) (m : NodeId) :
    (f.hosts m).applied <= ((f.put n stage actions).hosts m).applied :=
  Fleet.forall_put (P := fun m stage => (f.hosts m).applied <= stage.applied)
    (fun _ => Nat.le_refl _) h m

theorem settle (h : Tracked B allowed f a known) {n : NodeId} {stage : Stage}
    (hhosted : Hosted B a n stage) (hholds : stage.Holds allowed)
    (hadvances : Advances a n (f.hosts n).applied stage.applied)
    (hstanding : forall c : Committed, c.Short -> f.Stands c ->
      Standing c stage) : Tracked B allowed (f.put n stage []) a known where
  traced := by
    refine ⟨h.traced.reachable, Fleet.forall_put (P := Hosted B a) h.traced.hosts
      hhosted, fun envelope henvelope => ?_⟩
    rcases Fleet.mem_sent_put henvelope with hold | ⟨_, haction, _⟩
    · exact h.traced.messages envelope hold
    · exact absurd haction List.not_mem_nil
  holds := Fleet.forall_put (P := fun _ stage => stage.Holds allowed) h.holds hholds
  sent := h.allowed_put fun _ haction => absurd haction List.not_mem_nil
  learned := h.learned
  reached := Fleet.forall_put (P := fun m stage => Reaches a m stage.applied)
    h.reached (hadvances.2 (h.reached n))
  stands c hshort hrecords := by
    have hstands := h.stands c hshort hrecords
    exact stands_put hstands (hstanding c hshort hstands)
      fun _ haction => absurd haction List.not_mem_nil

/-- What a step leaves: more is known, and no replica has gone back. -/
def Later (B : List Member) (allowed : Bytes -> Prop) (f g : Fleet) (a : Past)
    (known : Nat -> Entry -> Prop) : Prop :=
  exists b known', Consensus.Run (setting B) a b ∧
    (forall i e, known i e -> known' i e) ∧ Tracked B allowed g b known' ∧
    forall n, (f.hosts n).applied <= (g.hosts n).applied

/-- There is a log by which every replica stands. -/
theorem exists_stands (h : Tracked B allowed f a known)
    (hallowed : forall command, allowed command -> Writes command) :
    exists c : Committed, c.Short ∧ f.Stands c := by
  rcases h.learned.exists_log h.traced.inv hallowed with ⟨c, hshort, hrecords, _⟩
  exact ⟨c, hshort, h.stands c hshort hrecords⟩

theorem After.later (h : Tracked B allowed f a known) {n : NodeId} {s : System}
    {e : Event} {b : Past} (hafter : After B allowed f a known n s e b)
    (hup : f.hosts n = Stage.up s) {stage : Stage} {actions : List Action}
    (hactions : forall action, action ∈ actions -> action ∈ e.sent s.replica)
    (hhosted : Hosted B b n stage) (hholds : stage.Holds allowed)
    (hadvances : Advances b n s.replica.applied stage.applied)
    (hstanding : forall c : Committed, c.Short -> Promised c s.replica e ->
      Enduring c 0 s -> Carrying c s -> Carries c (e.node s.replica) ->
      Standing c stage) : Later B allowed f (f.put n stage actions) a known := by
  have hbefore : (f.hosts n).applied = s.replica.applied := by
    rw [hup]
    rfl
  rw [← hbefore] at hadvances
  refine ⟨b, _, hafter.run, fun i entry hknown => Or.inl hknown,
    ⟨hafter.traced stage actions hactions hhosted, ?_, ?_, hafter.learned, ?_, ?_⟩,
    applied_put hadvances.1⟩
  · exact Fleet.forall_put (P := fun _ stage => stage.Holds allowed) h.holds hholds
  · exact h.allowed_put fun action haction =>
      hafter.clean.sent action (hactions action haction)
  · exact Fleet.forall_put (P := fun m stage => Reaches b m stage.applied)
      (fun m => hafter.kept m _ (h.reached m))
      (hadvances.2 (hafter.kept n _ (h.reached n)))
  · intro c hshort hrecords
    rcases hafter.promised c hshort hrecords with
      ⟨hpromised, henduring, hcarrying, hcarries, hsent⟩
    exact stands_put (h.stands c hshort
        fun i entry hknown => hrecords i entry (Or.inl hknown))
      (hstanding c hshort hpromised henduring hcarrying hcarries)
      fun action haction => hsent action (hactions action haction)

section Steps

variable (hallowed : forall command, allowed command -> Writes command)

include hallowed

theorem After.exists_promised {n : NodeId} {s : System} {e : Event} {b : Past}
    (h : After B allowed f a known n s e b) :
    exists c : Committed, c.Short ∧ Promised c s.replica e ∧ Enduring c 0 s := by
  rcases h.learned.exists_log h.inv hallowed with ⟨c, hshort, hrecords, _⟩
  rcases h.promised c hshort hrecords with ⟨hpromised, henduring, _⟩
  exact ⟨c, hshort, hpromised, henduring⟩

/-- Whatever happens to a fleet, more is known of it. -/
theorem step (h : Tracked B allowed f a known) (hstep : Fleet.Step B allowed f g) :
    Later B allowed f g a known := by
  cases hstep with
  | @next n e s s' hup hallows hnext hindex =>
      rcases h.after hup hallows with ⟨b, hafter⟩
      rcases hafter.exists_promised hallowed with ⟨_, _, _, hnow⟩
      refine After.later h hafter hup (fun _ haction => haction)
        ((keeps_nodeOk hafter.inv n).next hafter.nodeOk hafter.begun hnext)
        ((keeps_holds allowed).next hafter.clean.node
          (hafter.begun.mono fun _ _ => trivial) hnext).1
        (System.next_advances hnow.inv hafter.nodeOk hafter.snapshot hnext) ?_
      intro c hshort hpromised henduring hcarrying hcarries
      exact ⟨henduring.next hshort hpromised hnext hindex,
        hcarrying.next hshort henduring.inv hpromised hcarries hnext⟩
  | @caught n e s s' env disk hup hallows happlies hquiet hindex hkilled =>
      rcases h.after hup hallows with ⟨b, hafter⟩
      rcases hafter.exists_promised hallowed with ⟨_, _, hpromised, hnow⟩
      have hnode := Event.applies_node happlies
      have hhosted := hafter.nodeOk.storage
      have hholds := hafter.clean.node
      rw [← hnode] at hhosted hholds
      refine After.later h hafter hup (fun _ haction => absurd haction List.not_mem_nil)
        hhosted hholds ?_ ?_
      · have hstopped := (hnow.applies hpromised happlies hindex).1
        show Advances b n s.replica.applied (readApplied { disk := disk })
        rw [applied_of_killed hstopped hkilled]
        exact Event.applies_advances hnow.inv hafter.snapshot happlies
      · intro c hshort hpromised henduring _ hcarries
        rw [← hnode] at hcarries
        exact standing_of_stopped (henduring.applies hpromised happlies hindex).1
          hcarries hquiet hkilled
  | @stopped n s disk hup hquiet hkilled =>
      rcases h.exists_stands hallowed with ⟨_, _, hnow⟩
      have hstanding := hnow.hosts n
      have hhosted := h.traced.hosts n
      have hholds := h.holds n
      rw [hup] at hhosted hholds hstanding
      have hrecorded := applied_of_killed hstanding.1 hkilled
      refine ⟨a, known, Relation.ReflTransGen.refl, fun _ _ hknown => hknown,
        h.settle hhosted.1.storage hholds ?_ fun c hshort hstands => ?_,
        applied_put ?_⟩
      · rw [hup]
        exact Advances.of_eq hrecorded
      · have hstanding := hstands.hosts n
        rw [hup] at hstanding
        exact standing_of_stopped hstanding.1 hstanding.2.node hquiet hkilled
      · rw [hup]
        exact Nat.le_of_eq hrecorded.symm
  | @restarted n disk storage hdown opts config env snapshotEvery background store
      r hopen hnew hindex =>
      rcases h.exists_stands hallowed with ⟨_, _, hnow⟩
      have hlevel := new_cases hnew
      have hnode : r.node = Node.withMembers n B config storage := hlevel.node_eq
      have hstanding := hnow.hosts n
      have hhosted := h.traced.hosts n
      have hholds := h.holds n
      rw [hdown] at hhosted hholds hstanding
      have hadvances : Advances a n (f.hosts n).applied r.applied := by
        rw [hdown]
        show Advances a n (readApplied { disk := disk }) r.applied
        rw [← hstanding.recorded hopen]
        apply hlevel.advances
        rw [ReplicatedStore.snapshotIndex, joined, withMembers_storage]
        exact hhosted.base
      refine ⟨a, known, Relation.ReflTransGen.refl, fun _ _ hknown => hknown,
        h.settle ⟨?_, trivial⟩ ?_ hadvances fun c hshort hstands => ?_,
        applied_put hadvances.1⟩
      · show NodeOk B a n r.node
        rw [hnode]
        exact StorageOk.withMembers h.traced.inv hhosted config
      · show r.node.Holds allowed
        rw [hnode]
        intro entry hentry
        rw [withMembers_storage] at hentry
        exact hholds entry hentry
      · have hstanding := hstands.hosts n
        rw [hdown] at hstanding
        exact standing_of_restarted hshort hstanding hopen hnew hindex
          snapshotEvery background

theorem run (h : Tracked B allowed f a known) (hrun : Fleet.Run B allowed f g) :
    Later B allowed f g a known := by
  induction hrun with
  | refl =>
      exact ⟨a, known, Relation.ReflTransGen.refl, fun _ _ hknown => hknown, h,
        fun _ => Nat.le_refl _⟩
  | tail _ hstep ih =>
      rcases ih with ⟨b, known', hab, hmore, hb, hbefore⟩
      rcases hb.step hallowed hstep with ⟨d, known'', hbd, hmore', hd, hafter⟩
      exact ⟨d, known'', Relation.ReflTransGen.trans hab hbd,
        fun i e hknown => hmore' i e (hmore i e hknown), hd,
        fun n => Nat.le_trans (hbefore n) (hafter n)⟩

end Steps

end Tracked

/-!
# Whole runs
-/

/-- Every running replica is the fold of a log up to its applied index. -/
def Fleet.Folds (c : Committed) (f : Fleet) : Prop :=
  forall n s, f.hosts n = Stage.up s ->
    (forall k, s.replica.get k =
      Except.ok (c.contents s.replica.applied k)) ∧
    forall k, k ∈ s.replica.store.keys ↔
      (c.contents s.replica.applied k).isSome

theorem Fleet.Stands.folds {c : Committed} {f : Fleet} (h : f.Stands c) :
    f.Folds c := by
  intro n s hup
  have hstanding := h.hosts n
  rw [hup] at hstanding
  have hgood := hstanding.1.inv.good
  rcases hgood.stands with ⟨m, hstands, hindexes⟩
  rw [hstands.exact (Nat.zero_le _)] at hindexes
  exact ⟨Store.get_eq hgood.ok hindexes, Store.mem_keys_iff hindexes⟩

section Replicas

variable {B : List Member} {allowed : Bytes -> Prop}
  (hallowed : forall command, allowed command -> Writes command) {f : Fleet}
  (hf : Fleet.Run B allowed Fleet.start f)

include hallowed hf

/-- There is a log by which every replica stands, in every state of every run. -/
theorem Fleet.Run.exists_stands : exists c : Committed, c.Short ∧ f.Stands c := by
  rcases (Tracked.start B allowed).run hallowed hf with ⟨_, _, _, _, ha, _⟩
  exact ha.exists_stands hallowed

theorem Fleet.Run.exists_next {n : NodeId} {s : System} (hup : f.hosts n = Stage.up s)
    {e : Event} (hallows : f.Allows allowed n s.replica e) :
    exists s', s.next e = Except.ok s' := by
  rcases (Tracked.start B allowed).run hallowed hf with ⟨a, known, _, _, ha, _⟩
  rcases ha.after hup hallows with ⟨b, hafter⟩
  rcases hafter.exists_promised hallowed with ⟨c, hshort, hpromised, henduring⟩
  rcases henduring.inv.next hshort e hpromised with ⟨s', hnext, _⟩
  exact ⟨s', hnext⟩

theorem Fleet.Run.exists_joined {n : NodeId} {disk : Disk} {storage : MemStorage}
    (hdown : f.hosts n = Stage.down disk storage) (opts : Options) (config : Config)
    (env : Env) :
    exists store r, Store.openWith { disk := disk } opts = Except.ok store ∧
      ReplicatedStore.new (Node.withMembers n B config storage) store env =
        Except.ok r := by
  rcases Fleet.Run.exists_stands hallowed hf with ⟨c, hshort, hstands⟩
  have hstanding := hstands.hosts n
  rw [hdown] at hstanding
  rcases hstanding with ⟨rfl, rfl⟩ | ⟨hfallen, _⟩
  · rcases Store.serves_open opts with ⟨store, hopen, _⟩
    refine ⟨store, joined (Node.withMembers n B config {}) store, hopen, ?_⟩
    rw [new_eq, if_neg]
    have hindex : (joined (Node.withMembers n B config {}) store).snapshotIndex =
        0 := by
      rw [ReplicatedStore.snapshotIndex, joined, withMembers_storage]
      rfl
    rw [hindex]
    exact Nat.not_lt_zero _
  · rcases hfallen.opens opts with ⟨store, _, hopen, _⟩
    rcases new_succeeds (hfallen.joins hopen n B config).1 env with ⟨r, hnew⟩
    exact ⟨store, r, hopen, hnew⟩

end Replicas

end Replicated
end Minicask
