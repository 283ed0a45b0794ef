import Minicask.Raft.MembershipInForce
import Minicask.Raft.Network
import Minicask.Raft.WireStreams

/-!
# The size of a frame

A configuration is refused if a batch and an oversized command could pass the frame
limit together.  A membership has no such limit, and is carried by entries and by pieces
of snapshots.
-/

namespace Minicask
namespace Raft

open Wire

/-- The check `ClusterNode::bind` makes of a configuration. -/
def bindAccepts (config : Config) : Bool :=
  !(config.maxAppendBytes + config.maxEntryBytes + 1024 > maxFrame)

/-- What a frame with a membership holds besides it: the fields of an entry, or those of
a piece of a snapshot with the piece. -/
def besidesMembers (config : Config) : Nat :=
  max 86 (71 + max config.maxAppendBytes 1)

def Within (limit : Nat) (members : List Member) : Prop :=
  (encodeMembers members).length <= limit

instance (limit : Nat) (members : List Member) : Decidable (Within limit members) :=
  inferInstanceAs (Decidable ((encodeMembers members).length <= limit))

def EntryFits (limit : Nat) (e : Entry) : Prop :=
  match e.command with
  | Command.noop => True
  | Command.data bytes => bytes.length + entryOverhead + 1024 <= maxFrame
  | Command.config members => Within limit members

def MessageFits (limit : Nat) : Message -> Prop
  | Message.appendEntries _ _ _ entries _ _ =>
      forall e, e ∈ entries -> EntryFits limit e
  | Message.installSnapshot _ _ _ _ _ _ _ members =>
      forall ms, members = some ms -> Within limit ms
  | _ => True

structure ConfigFits (limit : Nat) (config : Config) : Prop where
  accepted : bindAccepts config = true
  room : limit + besidesMembers config <= maxFrame

structure NodeFits (limit : Nat) (n : Node) : Prop where
  config : ConfigFits limit n.config
  entries : forall e, e ∈ n.storage.log.entries -> EntryFits limit e
  members : Within limit n.members
  bootstrap : Within limit n.bootstrap
  snapshot : forall ms, n.storage.snapshotMembers = some ms -> Within limit ms
  incoming : forall origin sink ms, n.incoming = some (origin, sink) ->
    sink.members = some ms -> Within limit ms

/-!
# Lengths
-/

theorem length_putEntry (e : Entry) : (putEntry e).length = e.encodedLen := by
  unfold putEntry Entry.encodedLen entryOverhead
  cases e.command with
  | noop => simp [length_putU64]
  | data bytes =>
      simp [length_putU64]
      omega
  | config members =>
      simp [length_putU64]
      omega

theorem length_putEntries (es : List Entry) :
    (es.flatMap putEntry).length = (es.map Entry.encodedLen).sum := by
  induction es with
  | nil => rfl
  | cons e es ih =>
      rw [List.flatMap_cons, List.length_append, ih, length_putEntry, List.map_cons,
        List.sum_cons]

theorem length_encode_appendEntries (term prevLogIndex prevLogTerm : Nat)
    (entries : List Entry) (leaderCommit seq : Nat) :
    (encode (Message.appendEntries term prevLogIndex prevLogTerm entries leaderCommit
      seq)).length = 49 + (entries.map Entry.encodedLen).sum := by
  unfold encode
  rw [List.length_append, List.length_append, length_putU64, length_putEntries]
  rfl

theorem length_encode_installSnapshot (term lastIndex lastTerm offset : Nat)
    (data : Bytes) (done : Bool) (seq : Nat) (members : Option (List Member)) :
    (encode (Message.installSnapshot term lastIndex lastTerm offset data done seq
      members)).length = 50 + data.length + (putMembers members).length := by
  unfold encode
  simp only [List.length_append, length_putU64, length_putBool, List.length_cons,
    List.length_nil]
  omega

theorem length_encode_plain {message : Message}
    (h : message.carriesBytes = false) : (encode message).length <= 49 := by
  cases message with
  | appendEntries => cases h
  | installSnapshot => cases h
  | appendEntriesReply term success matchIndex conflictIndex conflictTerm seq =>
      cases conflictTerm <;>
        simp [encode, length_putU64, length_putBool, putConflictTerm]
  | _ => simp [encode, length_putU64, length_putBool]

/-- A batch stays within its budget, unless it is a single entry. -/
theorem entriesWithinLoop_sum (s : MemStorage) (maxBytes bound : Nat)
    (hbound : forall e, e ∈ s.log.entries -> e.encodedLen <= bound) :
    forall (range : List Nat) (out : List Entry) (total : Nat),
      total = (out.map Entry.encodedLen).sum -> total <= max maxBytes bound ->
      ((MemStorage.entriesWithinLoop s maxBytes range out total).map
        Entry.encodedLen).sum <= max maxBytes bound := by
  intro range
  induction range with
  | nil =>
      intro out total htotal hle
      rw [htotal] at hle
      exact hle
  | cons i range ih =>
      intro out total htotal hle
      unfold MemStorage.entriesWithinLoop
      split
      · rw [htotal] at hle
        exact hle
      · next e hentry =>
          have hmem : e ∈ s.log.entries := by
            obtain ⟨position, _, hposition⟩ := Option.bind_eq_some_iff.mp hentry
            exact List.mem_of_getElem? hposition
          split
          · rw [htotal] at hle
            exact hle
          · next hfits =>
              apply ih
              · rw [htotal, List.map_append, List.sum_append]
                rfl
              · rw [Bool.and_eq_true, not_and, Bool.not_eq_true', decide_eq_true_eq]
                  at hfits
                cases out with
                | nil =>
                    have hone := hbound e hmem
                    rw [htotal, List.map_nil, List.sum_nil]
                    omega
                | cons first rest =>
                    have hroom := hfits rfl
                    omega

theorem entriesWithinLoop_mem (s : MemStorage) (maxBytes : Nat) :
    forall (range : List Nat) (out : List Entry) (total : Nat),
      (forall e, e ∈ out -> e ∈ s.log.entries) ->
      forall e, e ∈ MemStorage.entriesWithinLoop s maxBytes range out total ->
        e ∈ s.log.entries := by
  intro range
  induction range with
  | nil => exact fun out total hout => hout
  | cons i range ih =>
      intro out total hout
      unfold MemStorage.entriesWithinLoop
      split
      · exact hout
      · next e hentry =>
          have hmem : e ∈ s.log.entries := by
            obtain ⟨position, _, hposition⟩ := Option.bind_eq_some_iff.mp hentry
            exact List.mem_of_getElem? hposition
          split
          · exact hout
          · apply ih
            intro other hother
            rcases List.mem_append.mp hother with hold | hnew
            · exact hout other hold
            · rw [List.mem_singleton.mp hnew]
              exact hmem

theorem within_promoted {limit : Nat} {members : List Member}
    (h : Within limit members) (position : Nat) :
    Within limit (members.modify position (fun m => { m with learner := false })) := by
  have hsame : forall ms : List Member, forall k,
      ((ms.modify k (fun m => { m with learner := false })).flatMap
        encodeMember).length = (ms.flatMap encodeMember).length := by
    intro ms
    induction ms with
    | nil => intro k; cases k <;> rfl
    | cons m ms ih =>
        intro k
        cases k with
        | zero =>
            rw [List.modify_zero_cons, List.flatMap_cons, List.flatMap_cons,
              List.length_append, List.length_append, length_encodeMember,
              length_encodeMember]
        | succ k =>
            rw [List.modify_succ_cons, List.flatMap_cons, List.flatMap_cons,
              List.length_append, List.length_append, ih]
  unfold Within at h ⊢
  rw [length_encodeMembers] at h ⊢
  rw [hsame]
  exact h

/-!
# Memberships of a log
-/

/-- What holds of every membership in a log and of the one before it holds of the
newest. -/
theorem newestConfig_holds {s : MemStorage} {holds : List Member -> Prop}
    (hentries : forall e ms, e ∈ s.log.entries -> e.command = Command.config ms ->
      holds ms) (range : List Nat) {first : List Member × Nat}
    (hfirst : holds first.1) : holds (Node.newestConfig s range first).1 := by
  unfold Node.newestConfig
  induction range generalizing first with
  | nil => exact hfirst
  | cons i range ih =>
      rw [List.foldl_cons]
      apply ih
      split
      · next term index members hentry =>
          obtain ⟨position, _, hposition⟩ := Option.bind_eq_some_iff.mp hentry
          exact hentries _ members (List.mem_of_getElem? hposition) rfl
      · exact hfirst

theorem config_within {limit : Nat} {e : Entry} {ms : List Member}
    (h : EntryFits limit e) (hcommand : e.command = Command.config ms) :
    Within limit ms := by
  unfold EntryFits at h
  rw [hcommand] at h
  exact h

section Node

variable {limit : Nat} {n n' : Node}

theorem NodeFits.membersAt (h : NodeFits limit n) (index : Nat) :
    Within limit (n.membersAt index) := by
  refine newestConfig_holds (fun e ms hmem hcommand =>
    config_within (h.entries e hmem) hcommand) _ ?_
  dsimp only
  cases hsnapshot : n.storage.snapshotMembers with
  | none => exact h.bootstrap
  | some ms => exact h.snapshot ms hsnapshot

theorem NodeFits.membershipInForce (h : NodeFits limit n) :
    Within limit n.membershipInForce.1 := by
  refine newestConfig_holds (fun e ms hmem hcommand =>
    config_within (h.entries e hmem) hcommand) _ ?_
  split
  · next ms hsnapshot => exact h.snapshot ms hsnapshot
  · exact h.bootstrap

theorem NodeFits.of_core (h : NodeFits limit n) (hcore : n'.core = n.core) :
    NodeFits limit n' := by
  have hlog : n'.storage.log = n.storage.log := congrArg Core.log hcore
  have hmembers : n'.members = n.members := congrArg Core.members hcore
  have hbootstrap : n'.bootstrap = n.bootstrap := congrArg Core.bootstrap hcore
  have hconfig : n'.config = n.config := congrArg Core.config hcore
  have hsnapshot : n'.storage.snapshotMembers = n.storage.snapshotMembers :=
    congrArg Core.snapshotMembers hcore
  have hincoming : n'.incoming = n.incoming := congrArg Core.incoming hcore
  constructor
  · rw [hconfig]
    exact h.config
  · rw [hlog]
    exact h.entries
  · rw [hmembers]
    exact h.members
  · rw [hbootstrap]
    exact h.bootstrap
  · rw [hsnapshot]
    exact h.snapshot
  · rw [hincoming]
    exact h.incoming

theorem NodeFits.stored (h : NodeFits limit n) {s : MemStorage}
    (hentries : forall e, e ∈ s.log.entries -> EntryFits limit e)
    (hsnapshot : forall ms, s.snapshotMembers = some ms -> Within limit ms) :
    NodeFits limit { n with storage := s } :=
  ⟨h.config, hentries, h.members, h.bootstrap, hsnapshot, h.incoming⟩

theorem NodeFits.appended (h : NodeFits limit n) {es : List Entry}
    (hes : forall e, e ∈ es -> EntryFits limit e) :
    NodeFits limit { n with storage := n.storage.append es } := by
  refine h.stored ?_ h.snapshot
  intro e hmem
  rw [append_log] at hmem
  rcases List.mem_append.mp hmem with hold | hnew
  · exact h.entries e hold
  · exact hes e hnew

theorem NodeFits.reload (h : NodeFits limit n) :
    NodeFits limit n.reloadMembership := by
  have hmembers := h.membershipInForce
  have hstorage := storage_reloadMembership n
  constructor
  · rw [config_reloadMembership]
    exact h.config
  · rw [hstorage]
    exact h.entries
  · rw [members_reloadMembership]
    exact hmembers
  · rw [bootstrap_reloadMembership]
    exact h.bootstrap
  · rw [hstorage]
    exact h.snapshot
  · rw [incoming_reloadMembership]
    exact h.incoming

theorem NodeFits.installed (h : NodeFits limit n) {sink : MemSnapshot}
    (hsink : forall ms, sink.members = some ms -> Within limit ms) :
    NodeFits limit { n with storage := n.storage.installSnapshot sink } := by
  rcases Nat.lt_or_ge n.storage.log.base.index sink.about.index with
    hnewer | hstale
  · rw [MemStorage.installSnapshot_mem hnewer]
    refine h.stored ?_ hsink
    intro e hmem
    dsimp only at hmem
    rw [EntryLog.compact_snd hnewer] at hmem
    dsimp only at hmem
    split at hmem
    · exact h.entries e (List.mem_of_mem_drop hmem)
    · cases hmem
  · rw [MemStorage.installSnapshot_stale hstale]
    exact h

theorem NodeFits.acceptEntries (h : NodeFits limit n) (prev : Nat)
    {entries : List Entry} (hentries : forall e, e ∈ entries -> EntryFits limit e) :
    NodeFits limit (n.acceptEntries prev entries) := by
  have hkept : forall appendFrom, NodeFits limit { n with
      storage := n.storage.append (entries.drop appendFrom) } :=
    fun _ => h.appended (fun e hmem => hentries e (List.mem_of_mem_drop hmem))
  have hcut : forall index appendFrom, NodeFits limit { n with
      storage := (n.storage.truncateFrom index).append
        (entries.drop appendFrom) } := by
    intro index appendFrom
    have htruncated : NodeFits limit { n with
        storage := n.storage.truncateFrom index } :=
      h.stored (fun e hmem => h.entries e (List.mem_of_mem_take hmem)) h.snapshot
    exact htruncated.appended
      (fun e hmem => hentries e (List.mem_of_mem_drop hmem))
  obtain ⟨appendFrom, conflict, _, hreload | ⟨hnone, _, hsame⟩⟩ :=
    acceptEntries_cases n prev entries
  · rw [hreload]
    cases conflict with
    | none => exact (hkept appendFrom).reload
    | some index => exact (hcut index appendFrom).reload
  · subst hnone
    rw [hsame]
    exact hkept appendFrom

theorem NodeFits.handleAppendEntries (h : NodeFits limit n) (sender : NodeId)
    (prevLogIndex prevLogTerm : Nat) {entries : List Entry}
    (leaderCommit seq : Nat)
    (hentries : forall e, e ∈ entries -> EntryFits limit e) :
    NodeFits limit (n.handleAppendEntries sender prevLogIndex prevLogTerm entries
      leaderCommit seq).1 := by
  rcases handleAppendEntries_cases n sender prevLogIndex prevLogTerm entries
    leaderCommit seq with hidle | ⟨middle, prev, prevTerm, rest, hidle, _, hpast, _,
      heq⟩
  · exact h.of_core hidle.core
  · have hrest : forall e, e ∈ rest -> EntryFits limit e := by
      intro e hmem
      exact hentries e ((pastSnapshot_suffix hpast).subset hmem)
    have haccepted := (h.of_core hidle.core).acceptEntries prev hrest
    rw [heq]
    exact ⟨haccepted.config, haccepted.entries, haccepted.members,
      haccepted.bootstrap, haccepted.snapshot, haccepted.incoming⟩

/-- The membership of a snapshot being received came with its first piece. -/
theorem NodeFits.continuing (h : NodeFits limit n) (sender : NodeId)
    (about : SnapshotMeta) {members : Option (List Member)}
    (hmembers : forall ms, members = some ms -> Within limit ms) (ms : List Member)
    (hsome : ((n.continuing sender about).getD
      (MemStorage.newSnapshot about members)).members = some ms) :
    Within limit ms := by
  unfold Node.continuing at hsome
  split at hsome
  · next origin sink hincoming =>
      split at hsome
      · exact h.incoming origin sink ms hincoming hsome
      · exact hmembers ms hsome
  · exact hmembers ms hsome

theorem NodeFits.handleInstallSnapshot (h : NodeFits limit n) (sender : NodeId)
    (about : SnapshotMeta) (offset : Nat) (data : Bytes) (done : Bool) (seq : Nat)
    {members : Option (List Member)}
    (hmembers : forall ms, members = some ms -> Within limit ms) :
    NodeFits limit (n.handleInstallSnapshot sender about offset data done seq
      members).1 := by
  have hcontinuing := h.continuing sender about hmembers
  obtain ⟨middle, hidle, _, hcases⟩ := handleInstallSnapshot_cases n sender about
    offset data done seq members
  have hmiddle := h.of_core hidle.core
  have hkept : forall sink : MemSnapshot,
      (forall ms, sink.members = some ms -> Within limit ms) ->
      NodeFits limit { middle with incoming := some (sender, sink) } := by
    intro sink hsink
    refine ⟨hmiddle.config, hmiddle.entries, hmiddle.members, hmiddle.bootstrap,
      hmiddle.snapshot, ?_⟩
    intro origin other ms hsome hms
    obtain ⟨_, rfl⟩ := Prod.mk.inj (Option.some.inj hsome)
    exact hsink ms hms
  have hdropped : NodeFits limit { middle with incoming := none } :=
    ⟨hmiddle.config, hmiddle.entries, hmiddle.members, hmiddle.bootstrap,
      hmiddle.snapshot, nofun⟩
  rcases hcases with hsame | hnone | ⟨_, hsome | ⟨_, hmore | ⟨_, hlast⟩⟩⟩
  · rw [hsame]
    exact hmiddle
  · rw [hnone]
    exact hdropped
  · rw [hsome]
    exact hkept _ hcontinuing
  · rw [hmore]
    exact hkept _ hcontinuing
  · rw [hlast]
    have hsink : forall ms, (((n.continuing sender about).getD
        (MemStorage.newSnapshot about members)).writeAll data).members = some ms ->
        Within limit ms :=
      hcontinuing
    have hinstalled := (hdropped.installed hsink).reload
    exact ⟨hinstalled.config, hinstalled.entries, hinstalled.members,
      hinstalled.bootstrap, hinstalled.snapshot, hinstalled.incoming⟩

structure InputsFit (limit : Nat) (inputs : Inputs) : Prop where
  heard : forall core sender message, inputs.heard core sender message ->
    MessageFits limit message
  offered : forall members, inputs.offered members -> Within limit members

theorem NodeFits.move {inputs : Inputs} (hinputs : InputsFit limit inputs)
    (h : NodeFits limit n) (hmove : Move inputs n n') : NodeFits limit n' := by
  cases hmove with
  | idle hidle => exact h.of_core hidle.core
  | reload => exact h.reload
  | lead =>
      refine (h.appended ?_).of_core rfl
      intro e hmem
      rw [List.mem_singleton.mp hmem]
      trivial
  | extend es hfresh =>
      refine h.appended ?_
      intro e hmem
      obtain ⟨bytes, hcommand, hsize⟩ := hfresh.data e hmem
      have haccepted := h.config.accepted
      unfold bindAccepts at haccepted
      rw [Bool.not_eq_true', decide_eq_false_iff_not] at haccepted
      unfold EntryFits
      rw [hcommand]
      dsimp only
      omega
  | configure members hadmitted =>
      have hmembers : Within limit members := by
        rcases hadmitted.source with hoffered | ⟨position, rfl⟩
        · exact hinputs.offered members hoffered
        · exact within_promoted h.members position
      refine (h.appended ?_).reload
      intro e hmem
      rw [List.mem_singleton.mp hmem]
      exact hmembers
  | commit index hleader hhigher hheld =>
      exact ⟨h.config, h.entries, h.members, h.bootstrap, h.snapshot, h.incoming⟩
  | entries sender prevLogIndex prevLogTerm entries leaderCommit seq hheard =>
      exact h.handleAppendEntries sender _ _ _ _ (hinputs.heard _ _ _ hheard)
  | snapshot sender about offset data done seq members hheard =>
      exact h.handleInstallSnapshot sender about _ _ _ _ (hinputs.heard _ _ _ hheard)

theorem NodeFits.moves {inputs : Inputs} (hinputs : InputsFit limit inputs)
    (h : NodeFits limit n) (hmoves : Moves inputs n n') : NodeFits limit n' := by
  induction hmoves with
  | refl => exact h
  | tail _ hmove ih => exact ih.move hinputs hmove

end Node

/-!
# What a node sends
-/

def FrameFits (sender : NodeId) (message : Message) : Prop :=
  fromLe (slice (frame sender message) 4 8) = 12 + (encode message).length ∧
    12 + (encode message).length <= maxFrame

theorem length_field (sender : NodeId) (message : Message) :
    fromLe (slice (frame sender message) 4 8) =
      ((encode message).length + 12) % 256 ^ 4 := by
  have hfield : slice (frame sender message) 4 8 =
      leBytes 4 ((encode message).length + 12) := by
    unfold frame
    dsimp only
    rw [List.append_assoc, List.append_assoc, List.append_assoc]
    exact slice_append (leBytes 4 magic) (leBytes 4 _) _ (length_leBytes 4 magic)
      (by rw [length_leBytes])
  rw [hfield, fromLe_leBytes]

theorem frameFits_of_length (sender : NodeId) {message : Message}
    (h : 12 + (encode message).length <= maxFrame) : FrameFits sender message := by
  refine ⟨?_, h⟩
  have hwide : maxFrame < 256 ^ 4 := by decide
  rw [length_field, Nat.add_comm, Nat.mod_eq_of_lt (Nat.lt_of_le_of_lt h hwide)]

section Sent

variable {limit : Nat} {n : Node}

theorem EntryFits.encodedLen {e : Entry} (h : EntryFits limit e) :
    e.encodedLen <= max 25 (max (maxFrame - 1024) (25 + limit)) := by
  unfold EntryFits at h
  unfold Entry.encodedLen entryOverhead
  cases hcommand : e.command with
  | noop => exact Nat.le_max_left _ _
  | data bytes =>
      rw [hcommand] at h
      dsimp only [entryOverhead] at h ⊢
      omega
  | config members =>
      rw [hcommand] at h
      dsimp only [Within] at h ⊢
      omega

theorem length_readSnapshot_le (s : MemStorage) (offset len : Nat) :
    (s.readSnapshot offset len).length <= len := by
  unfold MemStorage.readSnapshot
  dsimp only
  rw [List.length_take]
  omega

theorem NodeFits.appendMessageFor (h : NodeFits limit n) (peer : NodeId) :
    MessageFits limit (n.appendMessageFor peer).message ∧
      12 + (encode (n.appendMessageFor peer).message).length <= maxFrame := by
  have hroom := h.config.room
  unfold besidesMembers at hroom
  unfold Node.appendMessageFor
  dsimp only
  split
  · refine ⟨h.snapshot, ?_⟩
    rw [length_encode_installSnapshot]
    generalize hdata : n.storage.readSnapshot _ (max n.config.maxAppendBytes 1) =
      data
    have hpiece : data.length <= max n.config.maxAppendBytes 1 := by
      rw [← hdata]
      exact length_readSnapshot_le _ _ _
    cases hsnapshot : n.storage.snapshotMembers with
    | none =>
        dsimp only [putMembers]
        rw [List.length_singleton]
        omega
    | some ms =>
        have hms : (encodeMembers ms).length <= limit := h.snapshot ms hsnapshot
        dsimp only [putMembers]
        rw [List.length_append, List.length_append, length_putU64,
          List.length_singleton, List.length_singleton]
        omega
  · refine ⟨?_, ?_⟩
    · intro e hmem
      apply h.entries
      exact entriesWithinLoop_mem n.storage _ _ [] 0 nofun e hmem
    · rw [length_encode_appendEntries]
      have hsum : ((n.storage.entriesWithin (n.nextFor peer)
          n.config.maxAppendBytes).map Entry.encodedLen).sum <=
          max n.config.maxAppendBytes
            (max 25 (max (maxFrame - 1024) (25 + limit))) := by
        refine entriesWithinLoop_sum n.storage _ _ ?_ _ [] 0 rfl (Nat.zero_le _)
        exact fun e hmem => (h.entries e hmem).encodedLen
      have haccepted := h.config.accepted
      unfold bindAccepts at haccepted
      rw [Bool.not_eq_true', decide_eq_false_iff_not] at haccepted
      unfold maxFrame at *
      omega

theorem NodeFits.sent (h : NodeFits limit n) {action : Action}
    (hsent : Sent n action) : MessageFits limit action.message ∧
      12 + (encode action.message).length <= maxFrame := by
  cases hsent with
  | append peer hleader => exact h.appendMessageFor peer
  | probe peer seq hleader hpast =>
      refine ⟨nofun, ?_⟩
      dsimp only
      rw [length_encode_appendEntries]
      decide
  | plain _ hplain =>
      have hshort := length_encode_plain hplain
      constructor
      · revert hplain
        cases action.message with
        | appendEntries => nofun
        | installSnapshot => nofun
        | _ => exact fun _ => trivial
      · unfold maxFrame
        omega

end Sent

/-!
# Hosts
-/

structure HostFits (limit : Nat) (host : Host) : Prop where
  node : NodeFits limit host.node
  sinks : forall sink ms, sink ∈ host.sinks -> sink.members = some ms ->
    Within limit ms

/-- Memberships that are proposed fit, and a restart has a configuration that leaves
them room. -/
def ProposalsFit (limit : Nat) (_ : Network) (_ : NodeId) : Operation -> Prop
  | Operation.proposeMembership members => Within limit members
  | Operation.restart config => ConfigFits limit config
  | _ => True

theorem nodeFits_start {limit : Nat} {bootstrap : List Member} {config : Config}
    {storage : MemStorage} (id : NodeId) (hconfig : ConfigFits limit config)
    (hbootstrap : Within limit bootstrap)
    (hentries : forall e, e ∈ storage.log.entries -> EntryFits limit e)
    (hsnapshot : forall ms, storage.snapshotMembers = some ms -> Within limit ms) :
    NodeFits limit (Host.start id bootstrap config storage).node := by
  have hempty : Within limit [] := by
    unfold Within at hbootstrap ⊢
    rw [length_encodeMembers] at hbootstrap
    exact Nat.le_trans (Nat.le_add_right 4 _) hbootstrap
  unfold Host.start Node.withMembers
  dsimp only
  apply NodeFits.reload
  exact ⟨hconfig, hentries, hempty, hbootstrap, hsnapshot, nofun⟩

section Host

variable {limit : Nat} {net : Network} {n : NodeId} {operation : Operation}
  (h : HostFits limit (net.hosts n))
  (hmessages : forall envelope, envelope ∈ net.sent ->
    MessageFits limit envelope.message)
  (henabled : net.Enabled n operation)
  (hproposals : ProposalsFit limit net n operation)

include hmessages henabled hproposals

theorem inputsFit : InputsFit limit (operation.inputs (net.hosts n).node) := by
  constructor
  · intro core sender message hheard
    cases operation with
    | receive origin received =>
        obtain ⟨_, rfl, rfl⟩ := hheard
        exact hmessages _ henabled.arrives
    | _ => exact hheard.elim
  · intro members hoffered
    cases operation with
    | proposeMembership proposed =>
        obtain rfl : members = proposed := hoffered
        exact hproposals
    | _ => exact hoffered.elim

include h

theorem hostFits_run : HostFits limit ((net.hosts n).run operation).1 := by
  have hinputs := inputsFit hmessages henabled hproposals
  have hstep := Host.step (net.hosts n) operation
  generalize (net.hosts n).run operation = result at hstep ⊢
  cases hstep with
  | moves hran => exact ⟨h.node.moves hinputs hran.moves, h.sinks⟩
  | take hop =>
      exact ⟨⟨h.node.config, h.node.entries, h.node.members, h.node.bootstrap,
        h.node.snapshot, h.node.incoming⟩, h.sinks⟩
  | begin index sink hbegin =>
      refine ⟨h.node, ?_⟩
      intro other ms hmem hms
      rcases List.mem_cons.mp hmem with rfl | hold
      · unfold Node.beginCompaction at hbegin
        split at hbegin
        · cases hbegin
        · obtain ⟨term, _, rfl⟩ := Option.map_eq_some_iff.mp hbegin
          obtain rfl := Option.some.inj hms
          exact h.node.membersAt index
      · exact h.sinks other ms hold hms
  | finish sink data hop =>
      subst hop
      have hsink : forall ms, (sink.writeAll data).members = some ms ->
          Within limit ms :=
        fun ms hms => h.sinks sink ms henabled.host hms
      refine ⟨?_, fun other ms hmem hms =>
        h.sinks other ms (List.mem_of_mem_erase hmem) hms⟩
      dsimp only
      unfold Node.finishCompaction
      split
      · exact h.node
      · exact h.node.installed hsink
  | restart config hop =>
      subst hop
      exact ⟨nodeFits_start _ hproposals h.node.bootstrap h.node.entries
        h.node.snapshot, nofun⟩

theorem sent_run {action : Action}
    (hmem : action ∈ ((net.hosts n).run operation).2) :
    MessageFits limit action.message ∧
      12 + (encode action.message).length <= maxFrame := by
  have hinputs := inputsFit hmessages henabled hproposals
  have hstep := Host.step (net.hosts n) operation
  generalize (net.hosts n).run operation = result at hstep hmem
  cases hstep with
  | moves hran =>
      obtain ⟨between, hbetween, hsent⟩ := hran.sent action hmem
      exact (h.node.moves hinputs hbetween).sent hsent
  | take hop => cases hmem
  | begin index sink hbegin => cases hmem
  | finish sink data hop => cases hmem
  | restart config hop => cases hmem

end Host

structure NetworkFits (limit : Nat) (net : Network) : Prop where
  hosts : forall n, HostFits limit (net.hosts n)
  messages : forall envelope, envelope ∈ net.sent ->
    MessageFits limit envelope.message
  frames : forall envelope, envelope ∈ net.sent ->
    FrameFits envelope.sender envelope.message

theorem NetworkFits.next {limit : Nat} {net : Network} (h : NetworkFits limit net)
    {n : NodeId} {operation : Operation} (henabled : net.Enabled n operation)
    (hproposals : ProposalsFit limit net n operation) :
    NetworkFits limit (net.next n operation) := by
  have hsent : forall action, action ∈ ((net.hosts n).run operation).2 -> _ :=
    fun action hmem => sent_run (h.hosts n) h.messages henabled hproposals hmem
  constructor
  · exact @Network.forall_next net n operation (fun _ host => HostFits limit host)
      h.hosts (hostFits_run (h.hosts n) h.messages henabled hproposals)
  · intro envelope hmem
    rcases Network.mem_sent_next hmem with hold | ⟨action, haction, rfl⟩
    · exact h.messages envelope hold
    · exact (hsent action haction).1
  · intro envelope hmem
    rcases Network.mem_sent_next hmem with hold | ⟨action, haction, rfl⟩
    · exact h.frames envelope hold
    · exact frameFits_of_length n (hsent action haction).2

/-- Whatever commands clients submit, in any run of nodes that bound with their
configurations, every message is sent in a frame that a peer reads, as long as every
membership, those the nodes start with and those that are proposed, leaves room in a
frame for what goes with it. -/
theorem every_frame_fits {limit : Nat} {bootstraps : NodeId -> List Member}
    {configs : NodeId -> Config}
    (hconfigs : forall n, ConfigFits limit (configs n))
    (hbootstraps : forall n, Within limit (bootstraps n)) {net : Network}
    (hrun : Network.Run (ProposalsFit limit) (Network.start bootstraps configs) net)
    {envelope : Envelope} (hmem : envelope ∈ net.sent) :
    FrameFits envelope.sender envelope.message := by
  have hfits : NetworkFits limit net := by
    refine hrun.keeps (NetworkFits limit) ?_ ?_
    · intro net n operation hnet henabled hproposals
      exact hnet.next henabled hproposals
    · refine ⟨?_, nofun, nofun⟩
      intro n
      exact ⟨nodeFits_start n (hconfigs n) (hbootstraps n) nofun nofun, nofun⟩
  exact hfits.frames envelope hmem

/-!
# A membership that does not fit

What a leader proposes goes at once, in an entry of its own, to every follower that has
all the entries before it.
-/

/-- A leader whose newest entry is a membership, and that is about to send it to a
replica. -/
structure AboutToSend (n : Node) (members : List Member) (peer : NodeId)
    (before : MemStorage) (term : Nat) : Prop where
  storage : n.storage = before.append
    [{ term := term
       index := before.lastIndex + 1
       command := Command.config members }]
  leads : n.role = Role.leader
  other : peer ≠ n.id
  next : n.nextIndex peer = some (before.lastIndex + 1)

section AboutToSend

variable {n : Node} {members : List Member} {peer : NodeId} {before : MemStorage}
  {term : Nat}

theorem AboutToSend.reload (h : AboutToSend n members peer before term)
    (hfollows : Follows before.log.base.index before.log.entries)
    (hpeer : peer ∈ members.map Member.id) :
    AboutToSend n.reloadMembership members peer before term ∧
      peer ∈ n.reloadMembership.replicas := by
  have hfollows' : Follows n.storage.log.base.index n.storage.log.entries := by
    rw [h.storage]
    exact hfollows.pushed ⟨rfl, trivial⟩
  have hmembers : n.membershipInForce.1 = members := by
    rw [membershipInForce_eq hfollows', heldMembers_eq, h.storage, append_log]
    exact newestAmong_append _ _ _
  have hreplicas : peer ∈ n.replicasOf n.membershipInForce.1
      n.membershipInForce.2 := by
    unfold Node.replicasOf Node.sortDedup
    dsimp only
    rw [List.mem_dedup, List.mem_insertionSort, hmembers]
    refine List.mem_append_left _ (List.mem_filter.mpr ⟨hpeer, ?_⟩)
    exact bne_iff_ne.mpr h.other
  refine ⟨⟨?_, ?_, ?_, ?_⟩, ?_⟩
  · rw [storage_reloadMembership]
    exact h.storage
  · rw [role_reloadMembership]
    exact h.leads
  · rw [id_reloadMembership]
    exact h.other
  · unfold Node.reloadMembership
    dsimp only
    rw [if_pos h.leads]
    unfold Table.retain
    dsimp only
    rw [if_pos (List.contains_iff_mem.mpr hreplicas), Table.foldl_orInsert,
      if_pos hreplicas, h.next, Option.getD_some]
  · rw [replicas_reloadMembership]
    exact hreplicas

theorem AboutToSend.maybeCommit (h : AboutToSend n members peer before term) :
    AboutToSend n.maybeCommit members peer before term ∧
      n.maybeCommit.replicas = n.replicas := by
  rcases maybeCommit_eq n with ⟨_, heq⟩
  rw [heq]
  exact ⟨⟨h.storage, h.leads, h.other, h.next⟩, rfl⟩

theorem AboutToSend.message (h : AboutToSend n members peer before term)
    (hfollows : Follows before.log.base.index before.log.entries) :
    exists prevTerm, n.appendMessageFor peer =
      { dest := peer
        message := Message.appendEntries n.term before.lastIndex prevTerm
          [{ term := term
             index := before.lastIndex + 1
             command := Command.config members }] n.commitIndex n.seq } := by
  have hnext : n.nextFor peer = before.lastIndex + 1 := by
    unfold Node.nextFor
    rw [h.next, Option.getD_some]
  have hlast : before.lastIndex =
      before.log.base.index + before.log.entries.length := hfollows.lastIndex
  have hfollows' : Follows n.storage.log.base.index n.storage.log.entries := by
    rw [h.storage]
    exact hfollows.pushed ⟨rfl, trivial⟩
  have hlog : n.storage.log = _ := (congrArg MemStorage.log h.storage).trans
    (append_log before _)
  have hbase : n.storage.log.base.index < n.nextFor peer := by
    rw [hnext, hlog]
    dsimp only
    omega
  have hend : n.storage.lastIndex = before.lastIndex + 1 := by
    rw [h.storage]
    exact hfollows.lastIndex_append ⟨rfl, trivial⟩
  obtain ⟨k, hk, hpos⟩ := MemStorage.entriesWithin_follows hfollows' hbase
    n.config.maxAppendBytes
  have hbatch : n.storage.entriesWithin (n.nextFor peer) n.config.maxAppendBytes =
      [{ term := term
         index := before.lastIndex + 1
         command := Command.config members }] := by
    have hk0 := hpos (by omega)
    have hskip : n.nextFor peer - n.storage.log.base.index - 1 =
        before.log.entries.length := by
      rw [hnext, hlog]
      dsimp only
      omega
    rw [hk, hskip, hlog]
    dsimp only
    rw [List.drop_left]
    exact List.take_of_length_le hk0
  unfold Node.appendMessageFor
  dsimp only
  rw [if_neg (show ¬ n.nextFor peer <= n.storage.snapshotMeta.index from
    Nat.not_le.mpr hbase), hbatch, hnext]
  exact ⟨_, rfl⟩

theorem proposeMembership_sends {n' : Node} {index : Nat} {actions : List Action}
    (hfollows : Follows n.storage.log.base.index n.storage.log.entries)
    (hok : n.proposeMembership members = Except.ok (n', index, actions))
    (hpeer : peer ∈ members.map Member.id) (hother : peer ≠ n.id)
    (hnext : n.nextIndex peer = some (n.storage.lastIndex + 1)) :
    exists sentTerm prevTerm commit seq,
      { dest := peer
        message := Message.appendEntries sentTerm n.storage.lastIndex prevTerm
          [{ term := n.term
             index := n.storage.lastIndex + 1
             command := Command.config members }] commit seq : Action } ∈
        actions := by
  obtain ⟨hadmitted, hresult, _⟩ := @proposeMembership_ok
    { heard := fun _ _ _ => False, offered := fun _ => True } _ _ _ _ _ hok
    (Or.inl trivial)
  have hfirst : AboutToSend { n with
      storage := n.storage.append
        [{ term := n.term
           index := n.storage.lastIndex + 1
           command := Command.config members }] } members peer n.storage n.term :=
    ⟨rfl, hadmitted.leader, hother, hnext⟩
  obtain ⟨hreloaded, hreplica⟩ := hfirst.reload hfollows hpeer
  obtain ⟨hcommitted, hsame⟩ := hreloaded.maybeCommit
  have hactions : actions = (Node.broadcastAppend (Node.maybeCommit
      (Node.reloadMembership { n with
        storage := n.storage.append
          [{ term := n.term
             index := n.storage.lastIndex + 1
             command := Command.config members }] }))).2 :=
    congrArg Prod.snd hresult
  rw [← hsame] at hreplica
  have hsends : forall last : Node, AboutToSend last members peer n.storage n.term ->
      peer ∈ last.replicas -> exists sentTerm prevTerm commit seq,
        { dest := peer
          message := Message.appendEntries sentTerm n.storage.lastIndex prevTerm
            [{ term := n.term
               index := n.storage.lastIndex + 1
               command := Command.config members }] commit seq : Action } ∈
          last.replicas.map last.appendMessageFor := by
    intro last hlast hmem
    obtain ⟨prevTerm, heq⟩ := hlast.message hfollows
    exact ⟨_, prevTerm, _, _, List.mem_map.mpr ⟨peer, hmem, heq⟩⟩
  rw [hactions]
  rcases broadcastAppend_eq _ with ⟨_, rfl | rfl, heq⟩
  · rw [heq]
    exact hsends _ hcommitted hreplica
  · rw [heq]
    obtain ⟨hagain, hreplica'⟩ := hcommitted.reload hfollows hpeer
    exact hsends _ hagain hreplica'

end AboutToSend

/-- Two voters, of which node 1 has been elected and has committed its first entry. -/
def voters12 : List Member :=
  [{ id := 1, context := [], learner := false },
    { id := 2, context := [], learner := false }]

def served : List (NodeId × Operation) :=
  [(1, Operation.campaign),
    (2, Operation.receive 1 (Message.requestVote 1 0 0)),
    (1, Operation.receive 2 (Message.requestVoteReply 1 true)),
    (2, Operation.receive 1 (Message.appendEntries 1 0 0
      [{ term := 1, index := 1, command := Command.noop }] 0 0)),
    (1, Operation.receive 2 (Message.appendEntriesReply 1 true 1 0 none 0))]

def serving : Network :=
  (Network.start (fun _ => voters12) (fun _ => {})).replay served

def addressed (address : Bytes) : List Member :=
  voters12 ++ [{ id := 3, context := address ++ [32, 97], learner := true }]

theorem addressed_accepted (address : Bytes) :
    exists n' index actions, (serving.hosts 1).node.proposeMembership
      (addressed address) = Except.ok (n', index, actions) := by
  have hrole : (serving.hosts 1).node.role = Role.leader := by decide +kernel
  have hready : (serving.hosts 1).node.readyToServe = true := by decide +kernel
  have hcommitted : ¬ (serving.hosts 1).node.membershipIndex >
      (serving.hosts 1).node.commitIndex := by
    decide +kernel
  have hvoters : (serving.hosts 1).node.voters = [1, 2] := by decide +kernel
  have hids : (addressed address).map Member.id = [1, 2, 3] := rfl
  have hnew : ((addressed address).filter (fun m => !m.learner)).map Member.id =
      [1, 2] := rfl
  have hlength : (addressed address).length = 3 := rfl
  unfold Node.proposeMembership
  rw [if_neg (not_not.mpr hrole), hready, if_neg (by decide), if_neg hcommitted, hids,
    hlength, if_neg (by decide), hnew, hvoters]
  exact ⟨_, _, _, rfl⟩

theorem sent_of_accepted {host : Host} {members : List Member} {n' : Node}
    {index : Nat} {actions : List Action}
    (hok : host.node.proposeMembership members = Except.ok (n', index, actions)) :
    (host.run (Operation.proposeMembership members)).2 = actions := by
  unfold Host.run
  dsimp only
  rw [hok]
  rfl

theorem addressed_sent (address : Bytes) :
    exists envelope,
      envelope ∈ (serving.next 1
        (Operation.proposeMembership (addressed address))).sent ∧
        (encode envelope.message).length =
          74 + (encodeMembers (addressed address)).length := by
  obtain ⟨n', index, actions, hok⟩ := addressed_accepted address
  have hrun : Network.Run (fun _ _ _ => True)
      (Network.start (fun _ => voters12) (fun _ => {})) serving :=
    Network.run_of_replays served (fun _ _ _ _ => trivial) (by decide +kernel) _
      (Network.Run.refl _)
  have hgapless := (Network.gapless_start _ _).run hrun
  obtain ⟨sentTerm, prevTerm, commit, seq, hmem⟩ :=
    proposeMembership_sends (hgapless.logs 1) hok
      (show 2 ∈ [1, 2, 3] by decide) (by decide +kernel) (by decide +kernel)
  have hactions := sent_of_accepted hok
  refine ⟨_, List.mem_append_right _ (List.mem_map.mpr ⟨_, hactions ▸ hmem, rfl⟩), ?_⟩
  dsimp only
  rw [length_encode_appendEntries]
  simp only [List.map_cons, List.map_nil, List.sum_cons, List.sum_nil,
    Entry.encodedLen, entryOverhead]
  omega

theorem length_addressed (address : Bytes) :
    (encodeMembers (addressed address)).length = address.length + 45 := by
  rw [length_encodeMembers]
  unfold addressed voters12
  simp only [List.flatMap_append, List.flatMap_cons, List.flatMap_nil,
    List.length_append, length_encodeMember, List.length_nil, List.length_cons]
  omega

/-- With an address of 64 MiB or more, up to 4 GiB, the frame is refused. -/
theorem length_field_addressed {address : Bytes} (hlong : maxFrame <= address.length)
    (hshort : address.length < 2 ^ 32 - 200) :
    exists envelope,
      envelope ∈ (serving.next 1
        (Operation.proposeMembership (addressed address))).sent ∧
        maxFrame < fromLe (slice (frame envelope.sender envelope.message) 4 8) := by
  obtain ⟨envelope, hmem, hlength⟩ := addressed_sent address
  refine ⟨envelope, hmem, ?_⟩
  rw [length_field, hlength, length_addressed, Nat.mod_eq_of_lt (by omega)]
  omega

theorem oversized_frame :
    ¬ forall (bootstraps : NodeId -> List Member) (configs : NodeId -> Config)
        (net : Network) (envelope : Envelope),
      (forall n, bindAccepts (configs n) = true) ->
        Network.Run (fun _ _ _ => True) (Network.start bootstraps configs) net ->
          envelope ∈ net.sent ->
            fromLe (slice (frame envelope.sender envelope.message) 4 8) <=
              maxFrame := by
  intro hall
  obtain ⟨address, haddress⟩ : exists address : Bytes, address.length = maxFrame :=
    ⟨List.replicate maxFrame 97, List.length_replicate⟩
  obtain ⟨envelope, hmem, hfield⟩ := length_field_addressed (Nat.le_of_eq haddress.symm)
    (by rw [haddress]; decide)
  have hrun : Network.Run (fun _ _ _ => True)
      (Network.start (fun _ => voters12) (fun _ => {})) serving :=
    Network.run_of_replays served (fun _ _ _ _ => trivial) (by decide +kernel) _
      (Network.Run.refl _)
  have hproposed := Network.Run.tail 1
    (Operation.proposeMembership (addressed address)) hrun ⟨trivial, trivial⟩ trivial
  have hwithin := hall _ _ _ envelope (fun _ => by decide) hproposed hmem
  exact absurd hfield (Nat.not_lt.mpr hwithin)

/-- A short address fits. -/
theorem every_frame_fits_serving :
    bindAccepts {} = true ∧
      forall envelope, envelope ∈ (serving.next 1
          (Operation.proposeMembership (addressed [97]))).sent ->
        FrameFits envelope.sender envelope.message := by
  have hconfig : ConfigFits 100 {} := ⟨by decide, by decide⟩
  have hrun : Network.Run (ProposalsFit 100)
      (Network.start (fun _ => voters12) (fun _ => {})) serving := by
    refine Network.run_of_replays served ?_ (by decide +kernel) _ (Network.Run.refl _)
    intro n operation hmem net
    unfold served at hmem
    simp only [List.mem_cons, Prod.mk.injEq, List.not_mem_nil, or_false] at hmem
    rcases hmem with ⟨_, rfl⟩ | ⟨_, rfl⟩ | ⟨_, rfl⟩ | ⟨_, rfl⟩ | ⟨_, rfl⟩ <;> trivial
  have hproposed := Network.Run.tail 1 (Operation.proposeMembership (addressed [97]))
    hrun ⟨trivial, trivial⟩ (show Within 100 _ by decide)
  exact ⟨by decide, fun envelope hmem => every_frame_fits (fun _ => hconfig)
    (fun _ => by decide) hproposed hmem⟩

end Raft
end Minicask
