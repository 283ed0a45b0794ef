import Minicask.Raft.Accepting
import Minicask.Raft.Hosts

/-!
# The membership in force

A node keeps the membership beside the log and looks it up again where the log may
have changed it.  What it keeps is always what the log says, as long as nothing it has
applied is replaced.
-/

namespace Minicask
namespace Raft

def Entry.config? (e : Entry) : Option (List Member) :=
  match e.command with
  | Command.config members => some members
  | _ => none

/-- The newest membership among some entries, or the one before them. -/
def newestAmong (entries : List Entry) (start : List Member) : List Member :=
  entries.foldl (fun current e => e.config?.getD current) start

/-- The newest membership entry in the log, or the snapshot's membership, or the
bootstrap. -/
def Node.heldMembers (n : Node) : List Member :=
  match n.storage.log.entries.reverse.findSome? Entry.config? with
  | some members => members
  | none => n.storage.snapshotMembers.getD n.bootstrap

theorem newestAmong_append (before after : List Entry) (start : List Member) :
    newestAmong (before ++ after) start =
      newestAmong after (newestAmong before start) :=
  List.foldl_append

theorem newestAmong_of_none {entries : List Entry}
    (h : forall e, e ∈ entries -> e.command.isConfig = false)
    (start : List Member) : newestAmong entries start = start := by
  induction entries with
  | nil => rfl
  | cons e entries ih =>
      have hnone : e.config? = none := by
        have hfirst := h e List.mem_cons_self
        unfold Entry.config?
        cases hcommand : e.command with
        | config members =>
            rw [hcommand] at hfirst
            cases hfirst
        | noop => rfl
        | data bytes => rfl
      have hrest := ih (fun other hother => h other (List.mem_cons_of_mem _ hother))
      unfold newestAmong at hrest ⊢
      rw [List.foldl_cons, hnone]
      exact hrest

theorem newestAmong_eq (entries : List Entry) (start : List Member) :
    newestAmong entries start =
      (entries.reverse.findSome? Entry.config?).getD start := by
  induction entries generalizing start with
  | nil => rfl
  | cons e entries ih =>
      have hstep : newestAmong (e :: entries) start =
          newestAmong entries (e.config?.getD start) := rfl
      rw [hstep, ih, List.reverse_cons, List.findSome?_append]
      cases entries.reverse.findSome? Entry.config? with
      | some members => rfl
      | none =>
          cases hconfig : e.config? with
          | some members => simp [hconfig]
          | none => simp [hconfig]

theorem heldMembers_eq (n : Node) :
    n.heldMembers = newestAmong n.storage.log.entries
      (n.storage.snapshotMembers.getD n.bootstrap) := by
  rw [newestAmong_eq]
  unfold Node.heldMembers
  cases n.storage.log.entries.reverse.findSome? Entry.config? <;> rfl

/-!
# Looking the membership up
-/

/-- The scan over a range of indices is a scan over the entries found there. -/
theorem newestConfig_range (s : MemStorage) (count : Nat) :
    forall (first : Nat) (entries : List Entry) (start : List Member × Nat),
      (forall k, s.entry (first + k) = entries[k]?) ->
      (Node.newestConfig s (List.range' first count) start).1 =
        newestAmong (entries.take count) start.1 := by
  induction count with
  | zero =>
      intro first entries start _
      rfl
  | succ count ih =>
      intro first entries start hentry
      have hfirst := hentry 0
      have hstep : forall next : List Member × Nat,
          (Node.newestConfig s (List.range' (first + 1) count) next).1 =
            newestAmong (entries.tail.take count) next.1 := by
        intro next
        apply ih
        intro k
        have hk := hentry (k + 1)
        rw [Nat.add_right_comm, Nat.add_assoc, hk]
        cases entries <;> rfl
      unfold Node.newestConfig at hstep ⊢
      rw [List.range'_succ, List.foldl_cons, hstep]
      rw [Nat.add_zero] at hfirst
      rw [hfirst]
      cases entries with
      | nil =>
          rw [List.tail_nil, List.take_nil, List.take_nil]
          rfl
      | cons e entries =>
          rw [List.take_succ_cons]
          unfold newestAmong
          rw [List.foldl_cons]
          congr 1
          unfold Entry.config?
          cases e with
          | mk term index command => cases command <;> rfl

theorem newestConfig_eq {s : MemStorage}
    (h : Follows s.log.base.index s.log.entries) (index : Nat)
    (start : List Member × Nat) :
    (Node.newestConfig s
        (MemStorage.indices s.firstIndex (min index s.lastIndex)) start).1 =
      newestAmong (s.log.entries.take (index - s.log.base.index)) start.1 := by
  have hentry : forall k,
      s.entry (s.firstIndex + k) = s.log.entries[k]? := by
    intro k
    show s.log.entry (s.log.base.index + 1 + k) = _
    rw [h.entry, if_pos (by omega)]
    congr 1
    omega
  unfold MemStorage.indices
  rw [newestConfig_range s _ _ _ start hentry]
  have hlast : s.lastIndex = s.log.base.index + s.log.entries.length := h.lastIndex
  have hfirst : s.firstIndex = s.log.base.index + 1 := rfl
  congr 1
  rw [hlast, hfirst]
  rcases Nat.le_total (index - s.log.base.index) s.log.entries.length with
    hle | hge
  · congr 1
    omega
  · rw [List.take_of_length_le hge, List.take_of_length_le (by omega)]

theorem membersAt_eq {n : Node}
    (h : Follows n.storage.log.base.index n.storage.log.entries) (index : Nat) :
    n.membersAt index =
      newestAmong (n.storage.log.entries.take
        (index - n.storage.log.base.index))
        (n.storage.snapshotMembers.getD n.bootstrap) :=
  newestConfig_eq h index _

theorem membershipInForce_eq {n : Node}
    (h : Follows n.storage.log.base.index n.storage.log.entries) :
    n.membershipInForce.1 = n.heldMembers := by
  have hscan := newestConfig_eq h n.storage.lastIndex
    (match n.storage.snapshotMembers with
      | some members => (members, n.storage.snapshotMeta.index)
      | none => (n.bootstrap, 0))
  have hlast : n.storage.lastIndex =
      n.storage.log.base.index + n.storage.log.entries.length := h.lastIndex
  rw [Nat.min_self, hlast, Nat.add_sub_cancel_left, List.take_length] at hscan
  unfold Node.membershipInForce
  rw [hlast, heldMembers_eq]
  refine hscan.trans ?_
  congr 1
  cases n.storage.snapshotMembers <;> rfl

/-- What a node keeps of its membership is what its log says. -/
structure InForce (n : Node) : Prop where
  members : n.members = n.heldMembers
  voters : n.voters = Node.votersOf n.members
  peers : n.peers = n.voters.filter (fun v => v != n.id)

theorem inForce_reloadMembership {n : Node}
    (h : Follows n.storage.log.base.index n.storage.log.entries) :
    InForce n.reloadMembership := by
  rcases reloadMembership_eq n with ⟨_, _, _, heq⟩
  rw [heq]
  constructor
  · exact membershipInForce_eq h
  · rfl
  · rfl

/-!
# Voters
-/

theorem mem_votersOf {members : List Member} {id : NodeId} :
    id ∈ Node.votersOf members ↔
      exists member, member ∈ members ∧ member.learner = false ∧
        member.id = id := by
  unfold Node.votersOf Node.sortDedup
  rw [List.mem_dedup, List.mem_insertionSort, List.mem_map]
  constructor
  · rintro ⟨member, hmem, rfl⟩
    rw [List.mem_filter, Bool.not_eq_true'] at hmem
    exact ⟨member, hmem.1, hmem.2, rfl⟩
  · rintro ⟨member, hmem, hvoter, rfl⟩
    refine ⟨member, ?_, rfl⟩
    rw [List.mem_filter, Bool.not_eq_true']
    exact ⟨hmem, hvoter⟩

theorem ascending_votersOf (members : List Member) :
    (Node.votersOf members).Pairwise (· < ·) := by
  unfold Node.votersOf Node.sortDedup
  have hsorted := List.pairwise_insertionSort (· <= ·)
    ((members.filter (fun m => !m.learner)).map Member.id)
  have hle := hsorted.sublist (List.dedup_sublist _)
  have hnodup := List.nodup_dedup
    (((members.filter (fun m => !m.learner)).map Member.id).insertionSort
      (· <= ·))
  exact (hle.and hnodup).imp (fun h => Nat.lt_of_le_of_ne h.1 h.2)

/-!
# What keeps it in force
-/

/-- A message that replaces nothing the node has applied: where it is accepted, its
entries follow the index they are offered after, and agree with those applied. -/
def Respects (core : Core) : Message -> Prop
  | Message.appendEntries _ prevLogIndex prevLogTerm entries _ _ =>
      Accepts core.log prevLogIndex prevLogTerm entries ->
        Follows prevLogIndex entries ∧
          forall e old, e ∈ entries -> e.index <= core.lastApplied ->
            core.log.entry e.index = some old -> old.term = e.term
  | Message.installSnapshot _ lastIndex _ _ _ _ _ _ =>
      lastIndex <= core.commitIndex ∨ core.lastApplied < lastIndex
  | _ => True

/-- Any operation at any time, as long as messages of the node's term or a later one
replace nothing applied. -/
def RespectsApplied (host : Host) : Operation -> Prop
  | Operation.receive _ message =>
      host.node.term <= message.term -> Respects host.node.core message
  | _ => True

/-- A snapshot being written is out of date, or carries the membership as of the
entry it goes up to. -/
structure SinkAgrees (n : Node) (sink : MemSnapshot) : Prop where
  applied : sink.about.index <= n.lastApplied
  agrees : sink.about.index <= n.storage.log.base.index ∨
    n.storage.termAt sink.about.index = some sink.about.term ∧
      sink.members = some (newestAmong
        (n.storage.log.entries.take
          (sink.about.index - n.storage.log.base.index))
        (n.storage.snapshotMembers.getD n.bootstrap))

/-- The membership in force is the log's, and stays the log's whichever of the
snapshots begun is finished. -/
structure Accounted (n : Node) (sinks : List MemSnapshot) : Prop where
  follows : Follows n.storage.log.base.index n.storage.log.entries
  inForce : InForce n
  sinks : forall sink, sink ∈ sinks -> SinkAgrees n sink

theorem InForce.of_eq {n n' : Node} (h : InForce n)
    (hmembers : n'.members = n.members) (hvoters : n'.voters = n.voters)
    (hpeers : n'.peers = n.peers) (hid : n'.id = n.id)
    (hheld : n'.heldMembers = n.heldMembers) : InForce n' where
  members := by rw [hmembers, hheld, h.members]
  voters := by rw [hvoters, hmembers, h.voters]
  peers := by rw [hpeers, hvoters, hid, h.peers]

theorem InForce.of_core {n n' : Node} (h : InForce n) (hcore : n'.core = n.core) :
    InForce n' := by
  have hlog : n'.storage.log = n.storage.log := congrArg Core.log hcore
  have hsnapshot : n'.storage.snapshotMembers = n.storage.snapshotMembers :=
    congrArg Core.snapshotMembers hcore
  have hbootstrap : n'.bootstrap = n.bootstrap := congrArg Core.bootstrap hcore
  refine h.of_eq (congrArg Core.members hcore) (congrArg Core.voters hcore)
    (congrArg Core.peers hcore) (congrArg Core.id hcore) ?_
  unfold Node.heldMembers
  rw [hlog, hsnapshot, hbootstrap]

theorem InForce.extended {n : Node} (h : InForce n) {es : List Entry}
    (hes : forall e, e ∈ es -> e.command.isConfig = false) {n' : Node}
    (hlog : n'.storage.log =
      { n.storage.log with entries := n.storage.log.entries ++ es })
    (hsnapshot : n'.storage.snapshotMembers = n.storage.snapshotMembers)
    (hbootstrap : n'.bootstrap = n.bootstrap) (hmembers : n'.members = n.members)
    (hvoters : n'.voters = n.voters) (hpeers : n'.peers = n.peers)
    (hid : n'.id = n.id) : InForce n' := by
  refine h.of_eq hmembers hvoters hpeers hid ?_
  rw [heldMembers_eq, heldMembers_eq, hlog, hsnapshot, hbootstrap,
    newestAmong_append, newestAmong_of_none hes]

theorem SinkAgrees.kept {n n' : Node} {sink : MemSnapshot}
    (h : SinkAgrees n sink)
    (hfollows : Follows n.storage.log.base.index n.storage.log.entries)
    (hfollows' : Follows n'.storage.log.base.index n'.storage.log.entries)
    (hbase : n'.storage.log.base = n.storage.log.base)
    (hsnapshot : n'.storage.snapshotMembers = n.storage.snapshotMembers)
    (hbootstrap : n'.bootstrap = n.bootstrap)
    (happlied : n.lastApplied <= n'.lastApplied)
    (hentries : n.storage.log.entries.take
        (n.lastApplied - n.storage.log.base.index) <+:
      n'.storage.log.entries) : SinkAgrees n' sink := by
  refine ⟨Nat.le_trans h.applied happlied, ?_⟩
  rw [hbase]
  rcases h.agrees with hold | ⟨hterm, hmembers⟩
  · exact Or.inl hold
  · rcases Nat.lt_or_ge n.storage.log.base.index sink.about.index with hpast | hold
    · have hheld : sink.about.index <=
          n.storage.log.base.index + n.storage.log.entries.length :=
        (hfollows.termAt_le hterm).2
      have htake : n'.storage.log.entries.take
            (sink.about.index - n.storage.log.base.index) =
          n.storage.log.entries.take
            (sink.about.index - n.storage.log.base.index) := by
        obtain ⟨rest, hrest⟩ := hentries
        have hle : sink.about.index <= n.lastApplied := h.applied
        rw [← hrest, List.take_append_of_le_length, List.take_take]
        · congr 1
          omega
        · rw [List.length_take]
          omega
      refine Or.inr ⟨?_, ?_⟩
      · have hsame : n'.storage.log.termAt sink.about.index =
            n.storage.log.termAt sink.about.index := by
          rw [hfollows'.termAt_eq (hbase ▸ hpast), hfollows.termAt_eq hpast, hbase]
          have hlast := congrArg (fun entries =>
            entries[sink.about.index - n.storage.log.base.index - 1]?) htake
          rw [List.getElem?_take_of_lt (by omega),
            List.getElem?_take_of_lt (by omega)] at hlast
          rw [hlast]
        exact hsame.trans hterm
      · rw [htake, hsnapshot, hbootstrap]
        exact hmembers
    · exact Or.inl hold

theorem Accounted.grown {n n' : Node} {sinks : List MemSnapshot}
    (h : Accounted n sinks)
    (hfollows : Follows n'.storage.log.base.index n'.storage.log.entries)
    (hinForce : InForce n')
    (hbase : n'.storage.log.base = n.storage.log.base)
    (hsnapshot : n'.storage.snapshotMembers = n.storage.snapshotMembers)
    (hbootstrap : n'.bootstrap = n.bootstrap)
    (happlied : n.lastApplied <= n'.lastApplied)
    (hentries : n.storage.log.entries.take
        (n.lastApplied - n.storage.log.base.index) <+:
      n'.storage.log.entries) : Accounted n' sinks :=
  ⟨hfollows, hinForce, fun sink hmem =>
    (h.sinks sink hmem).kept h.follows hfollows hbase hsnapshot hbootstrap
      happlied hentries⟩

theorem Accounted.of_core {n n' : Node} {sinks : List MemSnapshot}
    (h : Accounted n sinks) (hcore : n'.core = n.core) : Accounted n' sinks := by
  have hlog : n'.storage.log = n.storage.log := congrArg Core.log hcore
  refine h.grown ?_ (h.inForce.of_core hcore) ?_
    (congrArg Core.snapshotMembers hcore) (congrArg Core.bootstrap hcore)
    (Nat.le_of_eq (congrArg Core.lastApplied hcore).symm) ?_
  · rw [hlog]
    exact h.follows
  · rw [hlog]
  · rw [hlog]
    exact List.take_prefix _ _

/-!
# Moves
-/

section Moves

variable {n n' : Node} {sinks : List MemSnapshot}

theorem Accounted.appended (h : Accounted n sinks) {es : List Entry}
    (hes : Follows n.lastIndex es)
    (hlog : n'.storage.log =
      { n.storage.log with entries := n.storage.log.entries ++ es })
    (hsnapshot : n'.storage.snapshotMembers = n.storage.snapshotMembers)
    (hbootstrap : n'.bootstrap = n.bootstrap)
    (happlied : n'.lastApplied = n.lastApplied) (hinForce : InForce n') :
    Accounted n' sinks := by
  have hlast : n.lastIndex =
      n.storage.log.base.index + n.storage.log.entries.length := h.follows.lastIndex
  refine h.grown ?_ hinForce ?_ hsnapshot hbootstrap (Nat.le_of_eq happlied.symm) ?_
  · rw [hlog]
    apply h.follows.append
    rwa [← hlast]
  · rw [hlog]
  · rw [hlog]
    exact (List.take_prefix _ _).trans (List.prefix_append _ _)

theorem follows_singleton (prev term : Nat) (command : Command) :
    Follows prev [{ term := term, index := prev + 1, command := command }] :=
  ⟨rfl, trivial⟩

/-- The log may change past what was applied, when the membership is looked up
again. -/
theorem Accounted.reloaded (h : Accounted n sinks) {s : MemStorage}
    (hfollows : Follows s.log.base.index s.log.entries)
    (hbase : s.log.base = n.storage.log.base)
    (hsnapshot : s.snapshotMembers = n.storage.snapshotMembers)
    (hentries : n.storage.log.entries.take
        (n.lastApplied - n.storage.log.base.index) <+: s.log.entries) :
    Accounted (Node.reloadMembership { n with storage := s }) sinks := by
  have hstorage := storage_reloadMembership { n with storage := s }
  have hbootstrap := bootstrap_reloadMembership { n with storage := s }
  have happlied := lastApplied_reloadMembership { n with storage := s }
  refine h.grown ?_ (inForce_reloadMembership hfollows) ?_ ?_ hbootstrap
    (Nat.le_of_eq happlied.symm) ?_
  · rw [hstorage]
    exact hfollows
  · rw [hstorage]
    exact hbase
  · rw [hstorage]
    exact hsnapshot
  · rw [hstorage]
    exact hentries

theorem Accounted.reload (h : Accounted n sinks) :
    Accounted n.reloadMembership sinks :=
  h.reloaded h.follows rfl rfl (List.take_prefix _ _)

/-- A message with entries replaces nothing applied, and the membership is looked up
again unless it brought none and took none away. -/
theorem Accounted.entries (h : Accounted n sinks) {sender : NodeId}
    {term prevLogIndex prevLogTerm : Nat} {entries : List Entry}
    {leaderCommit seq : Nat}
    (hrespects : Respects n.core (Message.appendEntries term prevLogIndex prevLogTerm
      entries leaderCommit seq)) :
    Accounted (n.handleAppendEntries sender prevLogIndex prevLogTerm entries
      leaderCommit seq).1 sinks := by
  rcases handleAppendEntries_cases n sender prevLogIndex prevLogTerm entries
    leaderCommit seq with hidle | ⟨middle, prev, prevTerm, rest, hidle, hstorage, hpast,
      hterm, heq⟩
  · exact h.of_core hidle.core
  · obtain ⟨hentries, hagree⟩ := hrespects ⟨prev, prevTerm, rest, hpast, hterm⟩
    have hmiddle : Accounted middle sinks := h.of_core hidle.core
    have happlied : middle.lastApplied = n.lastApplied :=
      congrArg Core.lastApplied hidle.core
    obtain ⟨hrest, hsuffix⟩ := pastSnapshot_follows hentries hpast
    rw [← hstorage] at hterm
    obtain ⟨keep, fresh, hover⟩ := acceptEntries_log hmiddle.follows hrest hterm
    have hkeep : middle.storage.log.entries.take
          (middle.lastApplied - middle.storage.log.base.index) <+:
        middle.storage.log.entries.take keep ++ fresh := by
      rcases Nat.lt_or_ge keep middle.storage.log.entries.length with hcut | hall
      · obtain ⟨e, old, hmem, hold, hindex, hne⟩ := hover.conflict hcut
        have hpast : middle.lastApplied < e.index := by
          by_contra hlow
          refine hne (hagree e old (hsuffix.subset hmem) ?_ ?_)
          · show e.index <= n.lastApplied
            omega
          · show n.storage.log.entry e.index = some old
            rw [← hstorage, hmiddle.follows.entry, if_pos (by omega), ← hold]
            congr 1
            omega
        refine List.IsPrefix.trans ?_ (List.prefix_append _ _)
        exact List.take_prefix_take_left (by omega)
      · rw [List.take_of_length_le hall]
        exact (List.take_prefix _ _).trans (List.prefix_append _ _)
    have haccepted : Accounted (middle.acceptEntries prev rest) sinks := by
      have hlog := hover.log
      obtain ⟨appendFrom, conflict, _, hcases⟩ :=
        acceptEntries_cases middle prev rest
      dsimp only at hcases
      rcases hcases with hreload | ⟨rfl, hquiet, hsame⟩
      · rw [hreload, storage_reloadMembership] at hlog
        rw [hreload]
        refine hmiddle.reloaded ?_ ?_ ?_ ?_
        · rw [hlog]
          exact hover.follows
        · rw [hlog]
        · cases conflict <;> rfl
        · rw [hlog]
          exact hkeep
      · rw [hsame] at hlog ⊢
        refine hmiddle.grown ?_ ?_ ?_ rfl rfl (Nat.le_refl _) ?_
        · rw [hlog]
          exact hover.follows
        · refine hmiddle.inForce.extended hquiet ?_ rfl rfl rfl rfl rfl rfl
          exact append_log middle.storage (rest.drop appendFrom)
        · rw [hlog]
        · rw [hlog]
          exact hkeep
    rw [heq]
    exact ⟨haccepted.follows,
      haccepted.inForce.of_eq rfl rfl rfl rfl rfl,
      fun sink hmem => ⟨(haccepted.sinks sink hmem).applied,
        (haccepted.sinks sink hmem).agrees⟩⟩

theorem Accounted.of_fields (h : Accounted n sinks)
    (hstorage : n'.storage = n.storage) (hbootstrap : n'.bootstrap = n.bootstrap)
    (hmembers : n'.members = n.members) (hvoters : n'.voters = n.voters)
    (hpeers : n'.peers = n.peers) (hid : n'.id = n.id)
    (happlied : n.lastApplied <= n'.lastApplied) : Accounted n' sinks := by
  refine h.grown ?_ (h.inForce.of_eq hmembers hvoters hpeers hid ?_) ?_ ?_
    hbootstrap happlied ?_
  · rw [hstorage]
    exact h.follows
  · unfold Node.heldMembers
    rw [hstorage, hbootstrap]
  · rw [hstorage]
  · rw [hstorage]
  · rw [hstorage]
    exact List.take_prefix _ _

/-- An installed snapshot leaves every snapshot begun behind. -/
theorem Accounted.installReceived (h : Accounted n sinks) {about : SnapshotMeta}
    (sink : MemSnapshot) (habout : sink.about = about)
    (hpast : n.lastApplied < about.index) :
    Accounted (n.installReceived sink about) sinks := by
  have hfollows := MemStorage.follows_installSnapshot sink h.follows
  have hbase := MemStorage.base_installSnapshot n.storage sink
  rw [habout] at hbase
  unfold Node.installReceived
  dsimp only
  generalize hcut : n.storage.installSnapshot sink = s at hfollows hbase
  have hinForce := inForce_reloadMembership (n := { n with
    incoming := none
    storage := s }) hfollows
  have hstorage := storage_reloadMembership { n with
    incoming := none
    storage := s }
  have happlied := lastApplied_reloadMembership { n with
    incoming := none
    storage := s }
  generalize hreloaded : Node.reloadMembership { n with
    incoming := none
    storage := s } = n' at hinForce hstorage happlied
  dsimp only at hstorage happlied
  refine ⟨?_, hinForce.of_eq rfl rfl rfl rfl rfl, ?_⟩
  · dsimp only
    rw [hstorage]
    exact hfollows
  · intro other hmem
    have hbehind := (h.sinks other hmem).applied
    refine ⟨?_, Or.inl ?_⟩
    · exact Nat.le_trans (Nat.le_trans hbehind (Nat.le_of_eq happlied.symm))
        (Nat.le_max_left _ _)
    · dsimp only
      rw [hstorage]
      omega

theorem Accounted.snapshot (h : Accounted n sinks) {sender : NodeId} {term : Nat}
    {about : SnapshotMeta} {offset : Nat} {data : Bytes} {done : Bool} {seq : Nat}
    {members : Option (List Member)}
    (hrespects : Respects n.core (Message.installSnapshot term about.index
      about.term offset data done seq members)) :
    Accounted (n.handleInstallSnapshot sender about offset data done seq
      members).1 sinks := by
  obtain ⟨middle, hidle, _, hsame | hdropped | ⟨hnewer, hkept | ⟨_, hmore |
    ⟨_, hlast⟩⟩⟩⟩ := handleInstallSnapshot_cases n sender about offset data done
      seq members
  · rw [hsame]
    exact h.of_core hidle.core
  · rw [hdropped]
    exact (h.of_core hidle.core).of_fields rfl rfl rfl rfl rfl rfl (Nat.le_refl _)
  · rw [hkept]
    exact (h.of_core hidle.core).of_fields rfl rfl rfl rfl rfl rfl (Nat.le_refl _)
  · rw [hmore]
    exact (h.of_core hidle.core).of_fields rfl rfl rfl rfl rfl rfl (Nat.le_refl _)
  · rw [hlast]
    have happlied : middle.lastApplied = n.lastApplied :=
      congrArg Core.lastApplied hidle.core
    refine (h.of_core hidle.core).installReceived _
      (Node.continuing_about n sender about members) ?_
    rw [happlied]
    exact hrespects.resolve_left (Nat.not_le.mpr hnewer)

theorem Accounted.move {inputs : Inputs}
    (hrespects : forall core sender message, inputs.heard core sender message ->
      Respects core message)
    (h : Accounted n sinks) (hmove : Move inputs n n') : Accounted n' sinks := by
  cases hmove with
  | idle hidle => exact h.of_core hidle.core
  | reload => exact h.reload
  | lead =>
      have hlog := append_log n.storage
        [{ term := n.term, index := n.lastIndex + 1, command := Command.noop }]
      refine h.appended (follows_singleton _ n.term Command.noop) hlog rfl rfl rfl ?_
      refine h.inForce.extended ?_ hlog rfl rfl rfl rfl rfl rfl
      intro e he
      rw [List.mem_singleton.mp he]
      rfl
  | extend es hfresh =>
      have hlog := append_log n.storage es
      refine h.appended (Follows.of_index hfresh.index) hlog rfl rfl rfl ?_
      refine h.inForce.extended ?_ hlog rfl rfl rfl rfl rfl rfl
      intro e he
      obtain ⟨bytes, hcommand, _⟩ := hfresh.data e he
      rw [hcommand]
      rfl
  | configure members hadmitted =>
      have hlog := append_log n.storage
        [{ term := n.term
           index := n.lastIndex + 1
           command := Command.config members }]
      have hlast : n.lastIndex =
          n.storage.log.base.index + n.storage.log.entries.length :=
        h.follows.lastIndex
      refine h.reloaded ?_ ?_ rfl ?_
      · rw [hlog]
        apply h.follows.append
        rw [← hlast]
        exact follows_singleton _ _ _
      · rw [hlog]
      · rw [hlog]
        exact (List.take_prefix _ _).trans (List.prefix_append _ _)
  | commit index hleader hhigher hheld =>
      exact h.of_fields rfl rfl rfl rfl rfl rfl (Nat.le_refl _)
  | entries sender prevLogIndex prevLogTerm entries leaderCommit seq hheard =>
      exact h.entries (hrespects _ _ _ hheard)
  | snapshot sender about offset data done seq members hheard =>
      exact h.snapshot (hrespects _ _ _ hheard)

theorem Accounted.moves {inputs : Inputs}
    (hrespects : forall core sender message, inputs.heard core sender message ->
      Respects core message)
    (h : Accounted n sinks) (hmoves : Moves inputs n n') : Accounted n' sinks := by
  induction hmoves with
  | refl => exact h
  | tail _ hmove ih => exact ih.move hrespects hmove

end Moves

/-!
# Compactions and restarts
-/

section Compactions

variable {n : Node} {sinks : List MemSnapshot}

theorem Accounted.beginCompaction (h : Accounted n sinks) {index : Nat}
    {sink : MemSnapshot} (hbegin : n.beginCompaction index = some sink) :
    Accounted n (sink :: sinks) := by
  refine ⟨h.follows, h.inForce, ?_⟩
  intro other hmem
  rcases List.mem_cons.mp hmem with rfl | hold
  · unfold Node.beginCompaction at hbegin
    split at hbegin
    · cases hbegin
    · next hrange =>
        rw [Bool.or_eq_true, decide_eq_true_eq, decide_eq_true_eq, not_or] at hrange
        obtain ⟨term, hterm, rfl⟩ := Option.map_eq_some_iff.mp hbegin
        refine ⟨Nat.le_of_not_gt hrange.2, Or.inr ⟨hterm, ?_⟩⟩
        exact congrArg some (membersAt_eq h.follows index)
  · exact h.sinks other hold

def Node.compacted (n : Node) (sink : MemSnapshot) (data : Bytes) : Node :=
  { n with
    storage := { n.storage with
      log :=
        { base := sink.about
          entries := n.storage.log.entries.drop
            (sink.about.index - n.storage.log.base.index) }
      snapshot := data
      snapshotMembers := sink.members } }

/-- A snapshot that agrees with the log folds away the entries it covers and no
others. -/
theorem finishCompaction_eq (h : Follows n.storage.log.base.index
      n.storage.log.entries) {sink : MemSnapshot} (hsink : SinkAgrees n sink)
    (hnewer : n.storage.log.base.index < sink.about.index) (data : Bytes) :
    (n.finishCompaction (sink.writeAll data)).1 =
      n.compacted sink (sink.data ++ data) := by
  obtain ⟨hterm, _⟩ := hsink.agrees.resolve_left (Nat.not_le.mpr hnewer)
  have hentry : (n.storage.log.entry sink.about.index).map Entry.term =
      some sink.about.term := by
    rw [h.entry, if_pos hnewer, ← h.termAt_eq hnewer]
    exact hterm
  have hcompact : (n.storage.log.compact sink.about).2 =
      { base := sink.about
        entries := n.storage.log.entries.drop
          (sink.about.index - n.storage.log.base.index) } := by
    rw [EntryLog.compact_snd hnewer, if_pos hentry]
  have hinstall := @MemStorage.installSnapshot_mem n.storage (sink.writeAll data)
    hnewer
  unfold Node.finishCompaction Node.compacted
  rw [if_neg (show ¬ (sink.writeAll data).about.index <=
    n.storage.snapshotMeta.index from Nat.not_le.mpr hnewer), hinstall, ← hcompact]
  rfl

theorem follows_compacted (h : Follows n.storage.log.base.index
      n.storage.log.entries) {sink : MemSnapshot} (hsink : SinkAgrees n sink)
    (hnewer : n.storage.log.base.index < sink.about.index) (data : Bytes) :
    Follows (n.compacted sink data).storage.log.base.index
      (n.compacted sink data).storage.log.entries := by
  obtain ⟨hterm, _⟩ := hsink.agrees.resolve_left (Nat.not_le.mpr hnewer)
  have hheld := (h.termAt_le hterm).2
  have hdrop : Follows
      (n.storage.log.base.index + (sink.about.index - n.storage.log.base.index))
      (n.storage.log.entries.drop
        (sink.about.index - n.storage.log.base.index)) :=
    h.drop (by omega)
  rwa [Nat.add_sub_cancel' (Nat.le_of_lt hnewer)] at hdrop

/-- Finishing one snapshot leaves the others in agreement. -/
theorem SinkAgrees.compacted (h : Follows n.storage.log.base.index
      n.storage.log.entries) {sink other : MemSnapshot}
    (hsink : SinkAgrees n sink) (hother : SinkAgrees n other)
    (hnewer : n.storage.log.base.index < sink.about.index) (data : Bytes) :
    SinkAgrees (n.compacted sink data) other := by
  refine ⟨hother.applied, ?_⟩
  rcases Nat.lt_or_ge sink.about.index other.about.index with hpast | hbehind
  · obtain ⟨_, hmembers⟩ := hsink.agrees.resolve_left (Nat.not_le.mpr hnewer)
    obtain ⟨hterm, hmembers'⟩ := hother.agrees.resolve_left
      (Nat.not_le.mpr (Nat.lt_trans hnewer hpast))
    have hsplit : other.about.index - n.storage.log.base.index =
        sink.about.index - n.storage.log.base.index +
          (other.about.index - sink.about.index) := by
      omega
    refine Or.inr ⟨?_, ?_⟩
    · have hfollows := follows_compacted h hsink hnewer data
      refine (hfollows.termAt_eq hpast).trans ?_
      rw [← hterm]
      refine Eq.trans ?_ (h.termAt_eq (Nat.lt_trans hnewer hpast)).symm
      show ((n.storage.log.entries.drop
        (sink.about.index - n.storage.log.base.index))[
          other.about.index - sink.about.index - 1]?).map Entry.term = _
      rw [List.getElem?_drop]
      congr 2
      omega
    · rw [hmembers', hsplit, List.take_add, newestAmong_append]
      unfold Node.compacted
      dsimp only
      rw [hmembers, Option.getD_some]
  · exact Or.inl hbehind

/-- The entries folded away set the membership the snapshot carries. -/
theorem Accounted.finishCompaction (h : Accounted n sinks) {sink : MemSnapshot}
    (hmem : sink ∈ sinks) (data : Bytes) :
    Accounted (n.finishCompaction (sink.writeAll data)).1 sinks := by
  have hsink := h.sinks sink hmem
  rcases Nat.lt_or_ge n.storage.log.base.index sink.about.index with
    hnewer | hstale
  · rw [finishCompaction_eq h.follows hsink hnewer]
    refine ⟨follows_compacted h.follows hsink hnewer _, ?_, ?_⟩
    · obtain ⟨_, hmembers⟩ := hsink.agrees.resolve_left (Nat.not_le.mpr hnewer)
      refine h.inForce.of_eq rfl rfl rfl rfl ?_
      rw [heldMembers_eq, heldMembers_eq]
      unfold Node.compacted
      dsimp only
      rw [hmembers, Option.getD_some, ← newestAmong_append, List.take_append_drop]
    · intro other hother
      exact SinkAgrees.compacted h.follows hsink (h.sinks other hother) hnewer _
  · unfold Node.finishCompaction
    rw [if_pos (show (sink.writeAll data).about.index <=
      n.storage.snapshotMeta.index from hstale)]
    exact h

theorem accounted_start (id : NodeId) (bootstrap : List Member) (config : Config)
    {storage : MemStorage}
    (h : Follows storage.log.base.index storage.log.entries) :
    Accounted (Host.start id bootstrap config storage).node [] := by
  refine ⟨?_, ?_, nofun⟩
  · unfold Host.start Node.withMembers
    dsimp only
    rw [storage_reloadMembership]
    exact h
  · unfold Host.start Node.withMembers
    dsimp only
    apply inForce_reloadMembership
    exact h

end Compactions

/-!
# Runs
-/

/-- A message that carries nothing replaces nothing. -/
theorem respects_of_plain {core : Core} {message : Message}
    (h : message.carriesBytes = false) : Respects core message := by
  cases message with
  | appendEntries => cases h
  | installSnapshot => cases h
  | _ => trivial

theorem Accounted.step {host : Host} {operation : Operation}
    (h : Accounted host.node host.sinks) (henabled : host.Enabled operation)
    (hallowed : RespectsApplied host operation) :
    Accounted (host.run operation).1.node (host.run operation).1.sinks := by
  rcases host.stale_or_current operation with hsame | hcurrent
  · rw [hsame]
    exact h
  · have hrespects : forall core sender message,
        (operation.inputs host.node).heard core sender message ->
          Respects core message := by
      intro core sender message hheard
      cases operation with
      | receive origin received =>
          obtain ⟨rfl, rfl, rfl⟩ := hheard
          cases hcarries : message.carriesBytes with
          | false => exact respects_of_plain hcarries
          | true => exact hallowed (hcurrent sender message rfl hcarries)
      | _ => exact hheard.elim
    have hstep := Host.step host operation
    generalize host.run operation = result at hstep ⊢
    cases hstep with
    | moves hran => exact h.moves hrespects hran.moves
    | take hop =>
        exact h.of_fields rfl rfl rfl rfl rfl rfl (Nat.le_max_left _ _)
    | begin index sink hbegin => exact h.beginCompaction hbegin
    | finish sink data hop =>
        subst hop
        have hfinished := h.finishCompaction henabled data
        exact ⟨hfinished.follows, hfinished.inForce,
          fun other hmem => hfinished.sinks other (List.mem_of_mem_erase hmem)⟩
    | restart config hop => exact accounted_start _ _ _ h.follows

theorem Accounted.run {host host' : Host}
    (hrun : Host.Run RespectsApplied host host')
    (h : Accounted host.node host.sinks) : Accounted host'.node host'.sinks := by
  induction hrun with
  | refl => exact h
  | tail operation _ henabled hallowed ih => exact ih.step henabled hallowed

/-- Whatever a node did, was told and restarted through, the membership it counts
majorities by is the one its log says, and its voters and peers are that membership's,
as long as nothing it had applied was replaced. -/
theorem membership_is_the_logs {id : NodeId} {bootstrap : List Member}
    {config : Config} {storage : MemStorage}
    (hlog : Follows storage.log.base.index storage.log.entries) {host : Host}
    (hrun : Host.Run RespectsApplied (Host.start id bootstrap config storage)
      host) :
    host.node.members = host.node.heldMembers ∧
      host.node.voters.Pairwise (· < ·) ∧
      (forall voter, voter ∈ host.node.voters ↔
        exists member, member ∈ host.node.members ∧ member.learner = false ∧
          member.id = voter) ∧
      host.node.peers = host.node.voters.filter (fun v => v != host.node.id) := by
  have hinForce := ((accounted_start id bootstrap config hlog).run hrun).inForce
  refine ⟨hinForce.members, ?_, ?_, hinForce.peers⟩
  · rw [hinForce.voters]
    exact ascending_votersOf _
  · intro voter
    rw [hinForce.voters]
    exact mem_votersOf

def founders : List Member :=
  [{ id := 1, context := [], learner := false },
    { id := 2, context := [], learner := false },
    { id := 3, context := [], learner := false }]

def withLearner : List Member :=
  founders ++ [{ id := 4, context := [], learner := true }]

def compacting : List Operation :=
  [Operation.receive 1 (Message.appendEntries 1 0 0
      [{ term := 1, index := 1, command := Command.config withLearner }] 1 0),
    Operation.takeCommitted,
    Operation.beginCompaction 1]

def Host.runAll (host : Host) (operations : List Operation) : Host :=
  operations.foldl (fun h operation => (h.run operation).1) host

theorem membership_is_the_logs_compacting :
    (((Host.start 3 founders {} {}).runAll compacting).sinks).length = 1 ∧
      (let node := ((Host.start 3 founders {} {}).runAll compacting).node
       node.members = node.heldMembers ∧
        node.voters.Pairwise (· < ·) ∧
        (forall voter, voter ∈ node.voters ↔
          exists member, member ∈ node.members ∧ member.learner = false ∧
            member.id = voter) ∧
        node.peers = node.voters.filter (fun v => v != node.id)) := by
  refine ⟨by decide +kernel, ?_⟩
  have hheard : Host.Run RespectsApplied (Host.start 3 founders {} {})
      ((Host.start 3 founders {} {}).runAll (compacting.take 1)) := by
    refine Host.Run.tail _ (Host.Run.refl _) trivial ?_
    intro _ _
    refine ⟨⟨rfl, trivial⟩, ?_⟩
    intro e old he happlied
    rw [List.mem_singleton.mp he] at happlied
    exact absurd happlied (by decide +kernel)
  have happlied := Host.Run.tail Operation.takeCommitted hheard trivial trivial
  have hbegun := Host.Run.tail (Operation.beginCompaction 1) happlied trivial
    trivial
  exact membership_is_the_logs (by trivial) hbegun

/-- An entry in the place of the applied one takes the learner back, and the snapshot
brings it in again with nobody looking. -/
def replaced : List Operation :=
  compacting ++
    [Operation.receive 2 (Message.appendEntries 2 0 0
        [{ term := 2, index := 1, command := Command.noop }] 0 0),
      Operation.finishCompaction
        { about := { index := 1, term := 1 }
          members := some withLearner
          data := [] } []]

theorem replaced_membership_differs :
    ¬ forall host,
      Host.Run (fun _ _ => True) (Host.start 3 founders {} {}) host ->
        host.node.members = host.node.heldMembers := by
  intro hall
  have hheard : Host.Run (fun _ _ => True) (Host.start 3 founders {} {})
      ((Host.start 3 founders {} {}).runAll (replaced.take 1)) :=
    Host.Run.tail _ (Host.Run.refl _) trivial trivial
  have happlied := Host.Run.tail Operation.takeCommitted hheard trivial trivial
  have hbegun := Host.Run.tail (Operation.beginCompaction 1) happlied trivial
    trivial
  have hreplaced := Host.Run.tail (Operation.receive 2 (Message.appendEntries 2 0 0
    [{ term := 2, index := 1, command := Command.noop }] 0 0)) hbegun trivial trivial
  have hfinished := Host.Run.tail (Operation.finishCompaction
    { about := { index := 1, term := 1 }
      members := some withLearner
      data := [] } []) hreplaced
    (show _ ∈ ((Host.start 3 founders {} {}).runAll (replaced.take 4)).sinks by
      decide +kernel) trivial
  have hsame : ((Host.start 3 founders {} {}).runAll replaced).node.members =
      ((Host.start 3 founders {} {}).runAll replaced).node.heldMembers :=
    hall _ hfinished
  exact absurd hsame (by decide +kernel)

end Raft
end Minicask
