import Minicask.Raft.Network

/-!
# What becomes of an entry

An entry that a node appended stays where it is until the node accepts a message that
conflicts with its log there or before, or takes over a snapshot.  An entry that was
lost may come back with a message.
-/

namespace Minicask
namespace Raft

/-- A message that a log accepts and that replaces an entry at an index or before. -/
def Conflicts (log : EntryLog) (index : Nat) : Message -> Prop
  | Message.appendEntries _ prevLogIndex prevLogTerm entries _ _ =>
      Accepts log prevLogIndex prevLogTerm entries ∧
        exists other old, other ∈ entries ∧ other.index <= index ∧
          log.entry other.index = some old ∧ old.term ≠ other.term
  | _ => False

/-- A message that a node heeds and that replaces an entry at an index or before. -/
def Replaces (n : Node) (message : Message) (index : Nat) : Prop :=
  n.term <= message.term ∧ Conflicts n.storage.log index message

/-- A message that a node heeds and that completes a snapshot, newer than what the
node takes to be committed. -/
def Installs (n : Node) (sender : NodeId) (message : Message)
    (about : SnapshotMeta) : Prop :=
  match message with
  | Message.installSnapshot term lastIndex lastTerm offset _ done _ members =>
      about = { index := lastIndex, term := lastTerm } ∧ n.term <= term ∧
        n.commitIndex < lastIndex ∧ n.storage.log.base.index < lastIndex ∧
        done = true ∧
        offset = ((n.continuing sender about).getD
          (MemStorage.newSnapshot about members)).written
  | _ => False

/-- A snapshot that reaches an index, or that a log does not match and gives way to. -/
def Discards (log : EntryLog) (index : Nat) (about : SnapshotMeta) : Prop :=
  index <= about.index ∨
    (log.entry about.index).map Entry.term ≠ some about.term

/-- A message that takes an entry out of a node's log. -/
def Removes (n : Node) (sender : NodeId) (message : Message) (index : Nat) : Prop :=
  Replaces n message index ∨
    exists about, Installs n sender message about ∧
      Discards n.storage.log index about

/-- A message that a node heeds and that puts an entry into its log. -/
def Brings (n : Node) (message : Message) (e : Entry) : Prop :=
  match message with
  | Message.appendEntries term prevLogIndex prevLogTerm entries _ _ =>
      n.term <= term ∧
        Accepts n.storage.log prevLogIndex prevLogTerm entries ∧ e ∈ entries ∧
        n.storage.log.base.index < e.index ∧
        forall old, n.storage.entry e.index = some old -> old.term ≠ e.term
  | _ => False

def Has (log : EntryLog) (e : Entry) : Prop :=
  log.base.index < e.index ∧
    log.entries[e.index - log.base.index - 1]? = some e

theorem has_of_entry {log : EntryLog} {e : Entry}
    (h : log.entry e.index = some e) : Has log e :=
  EntryLog.entry_eq_some h

namespace Has

variable {log log' : EntryLog} {e : Entry}

theorem entry (h : Has log e) (hfollows : Follows log.base.index log.entries) :
    log.entry e.index = some e := by
  rw [hfollows.entry, if_pos h.1]
  exact h.2

theorem extended (h : Has log e) (hbase : log'.base = log.base)
    (hentries : log.entries <+: log'.entries) : Has log' e := by
  rcases h with ⟨hpast, hheld⟩
  unfold Has
  rw [hbase]
  refine ⟨hpast, ?_⟩
  rcases hentries with ⟨fresh, heq⟩
  rw [← heq, List.getElem?_append_left (List.getElem?_eq_some_iff.mp hheld).1]
  exact hheld

theorem append {s : MemStorage} (h : Has s.log e) (es : List Entry) :
    Has (s.append es).log e := by
  apply h.extended
  · rw [append_log]
  · rw [append_log]
    exact List.prefix_append _ _

/-- A message that does not conflict with it leaves an entry where it is. -/
theorem entries {n : Node} (h : Has n.storage.log e)
    (hfollows : Follows n.storage.log.base.index n.storage.log.entries)
    (sender : NodeId) {term prevLogIndex prevLogTerm : Nat}
    {entries : List Entry} {leaderCommit seq : Nat}
    (hentries : Follows prevLogIndex entries)
    (hspared : ¬ Conflicts n.storage.log e.index (Message.appendEntries term
      prevLogIndex prevLogTerm entries leaderCommit seq)) :
    Has (n.handleAppendEntries sender prevLogIndex prevLogTerm entries
      leaderCommit seq).1.storage.log e := by
  rcases handleAppendEntries_cases n sender prevLogIndex prevLogTerm entries
    leaderCommit seq with hidle | ⟨middle, prev, prevTerm, rest, _, hstorage,
      hpast, hterm, heq⟩
  · rw [show (n.handleAppendEntries sender prevLogIndex prevLogTerm entries
      leaderCommit seq).1.storage.log = n.storage.log from
        congrArg Core.log hidle.core]
    exact h
  · rcases pastSnapshot_follows hentries hpast with ⟨hrest, hpart⟩
    have haccepts : Accepts n.storage.log prevLogIndex prevLogTerm entries :=
      ⟨prev, prevTerm, rest, hpast, hterm⟩
    rw [← hstorage] at h hfollows hterm hspared haccepts
    rcases acceptEntries_log hfollows hrest hterm with ⟨keep, fresh, hover⟩
    rw [heq]
    dsimp only
    rw [hover.log]
    rcases h with ⟨hbase, hheld⟩
    refine ⟨hbase, ?_⟩
    have hin := (List.getElem?_eq_some_iff.mp hheld).1
    have hkept : e.index - middle.storage.log.base.index - 1 < keep := by
      rcases Nat.lt_or_ge keep middle.storage.log.entries.length with hcut | hall
      · rcases hover.conflict hcut with ⟨other, old, hother, hold, hindex, hne⟩
        by_contra hpast'
        apply hspared
        refine ⟨haccepts, other, old, hpart.subset hother, ?_, ?_, hne⟩
        · omega
        · rw [hfollows.entry, if_pos (by omega)]
          rw [← hold]
          congr 1
          omega
      · exact Nat.lt_of_lt_of_le hin hall
    rw [List.getElem?_append_left, List.getElem?_take_of_lt hkept]
    · exact hheld
    · rw [List.length_take]
      exact Nat.lt_min.mpr ⟨hkept, hin⟩

/-- A snapshot that the log matches leaves what comes after it. -/
theorem installed {s : MemStorage} (h : Has s.log e) {sink : MemSnapshot}
    (hkept : s.log.base.index < sink.about.index ->
      ¬ Discards s.log e.index sink.about) :
    Has (s.installSnapshot sink).log e := by
  rcases Nat.lt_or_ge s.log.base.index sink.about.index with hnewer | hstale
  · have hlog : (s.installSnapshot sink).log =
        { base := sink.about
          entries :=
            if (s.log.entry sink.about.index).map Entry.term =
                some sink.about.term then
              s.log.entries.drop (sink.about.index - s.log.base.index)
            else [] } := by
      rw [MemStorage.installSnapshot_mem hnewer]
      exact EntryLog.compact_snd hnewer
    have hspared := hkept hnewer
    unfold Discards at hspared
    rw [not_or, not_not] at hspared
    rcases hspared with ⟨hbefore, hmatches⟩
    rw [hlog, if_pos hmatches]
    have hlt : sink.about.index < e.index := Nat.lt_of_not_le hbefore
    refine ⟨hlt, ?_⟩
    have hsame : sink.about.index - s.log.base.index +
        (e.index - sink.about.index - 1) = e.index - s.log.base.index - 1 := by
      omega
    dsimp only
    rw [List.getElem?_drop, hsame]
    exact h.2
  · rw [MemStorage.installSnapshot_stale hstale]
    exact h

theorem handleInstallSnapshot {n : Node} (h : Has n.storage.log e)
    (sender : NodeId) {about : SnapshotMeta} {offset : Nat} {data : Bytes}
    {done : Bool} {seq : Nat} {members : Option (List Member)}
    (hkept : n.commitIndex < about.index -> n.storage.log.base.index < about.index ->
      done = true ->
      offset = ((n.continuing sender about).getD
        (MemStorage.newSnapshot about members)).written ->
      ¬ Discards n.storage.log e.index about) :
    Has (n.handleInstallSnapshot sender about offset data done seq
      members).1.storage.log e := by
  rcases handleInstallSnapshot_cases n sender about offset data done seq members
    with ⟨middle, _, hstorage, hcases⟩
  rw [← hstorage] at h hkept
  rcases hcases with hsame | hdropped | ⟨hnewer, hstarted | ⟨hoffset, hmore |
    ⟨hdone, hlast⟩⟩⟩
  · rw [hsame]
    exact h
  · rw [hdropped]
    exact h
  · rw [hstarted]
    exact h
  · rw [hmore]
    exact h
  · rw [hlast]
    unfold Node.installReceived
    dsimp only
    rw [storage_reloadMembership]
    have habout := Node.continuing_about n sender about members
    apply h.installed
    intro hpast
    unfold MemSnapshot.writeAll at hpast ⊢
    dsimp only at hpast ⊢
    rw [habout] at hpast ⊢
    exact hkept hnewer hpast hdone hoffset

end Has

/-!
# One operation
-/

section Moves

variable {inputs : Inputs} {n n' : Node} {e : Entry}
  (hcontiguous : forall core sender message, inputs.heard core sender message ->
    Contiguous message)
  (hheard : forall core sender message, inputs.heard core sender message ->
    (forall term lastIndex lastTerm offset data done seq members,
      message ≠ Message.installSnapshot term lastIndex lastTerm offset data done
        seq members) ∧
      ¬ Conflicts core.log e.index message)

include hcontiguous hheard

theorem has_move
    (hfollows : Follows n.storage.log.base.index n.storage.log.entries)
    (h : Has n.storage.log e) (hmove : Move inputs n n') :
    Has n'.storage.log e := by
  cases hmove with
  | idle hidle =>
      rw [show n'.storage.log = n.storage.log from congrArg Core.log hidle.core]
      exact h
  | reload =>
      rw [storage_reloadMembership]
      exact h
  | lead => exact h.append _
  | extend es hfresh => exact h.append es
  | configure members hadmitted =>
      rw [storage_reloadMembership]
      exact h.append _
  | commit index hleader hhigher hheld => exact h
  | entries sender prevLogIndex prevLogTerm entries leaderCommit seq hsent =>
      exact h.entries hfollows sender (hcontiguous _ _ _ hsent)
        (hheard _ _ _ hsent).2
  | snapshot sender about offset data done seq members hsent =>
      exact absurd rfl ((hheard _ _ _ hsent).1 _ _ _ _ _ _ _ _)

theorem has_moves
    (hfollows : Follows n.storage.log.base.index n.storage.log.entries)
    (h : Has n.storage.log e) (hmoves : Moves inputs n n') :
    Has n'.storage.log e := by
  induction hmoves with
  | refl => exact h
  | tail hmoves hmove ih =>
      exact has_move hcontiguous hheard
        (follows_moves hcontiguous hfollows hmoves) ih hmove

end Moves

/-- What a node does with entries or a piece of a snapshot that is not of a term
gone by. -/
theorem step_heeded {n : Node} (sender : NodeId) {message : Message}
    (hcarries : message.carriesBytes = true) (hterm : n.term <= message.term) :
    exists n' : Node, n'.core = n.core ∧
      n.step sender message = n'.handle sender message := by
  have hvote : message.isVoteRequest = false := by
    cases message with
    | appendEntries => rfl
    | installSnapshot => rfl
    | _ => cases hcarries
  unfold Node.step
  rw [hvote, Bool.false_and, Bool.false_and, if_neg Bool.false_ne_true]
  split
  · cases hcarries
  · cases hcarries
  · split
    · next hhigher =>
        exact ⟨_, (idle_becomeFollower (Nat.le_of_lt hhigher) none).core, rfl⟩
    · rw [if_neg]
      · exact ⟨n, rfl, rfl⟩
      · rw [Bool.and_eq_true, decide_eq_true_eq]
        omega

theorem has_step {n : Node} {e : Entry}
    (hfollows : Follows n.storage.log.base.index n.storage.log.entries)
    (h : Has n.storage.log e) (sender : NodeId) {message : Message}
    (hcontiguous : Contiguous message)
    (hspared : ¬ Removes n sender message e.index) :
    Has (n.step sender message).1.storage.log e := by
  by_cases hstale : message.carriesBytes = true ∧ message.term < n.term
  · rw [step_stale hstale.1 hstale.2]
    exact h
  · have hmoved : (forall term lastIndex lastTerm offset data done seq members,
          message ≠ Message.installSnapshot term lastIndex lastTerm offset data
            done seq members) -> ¬ Conflicts n.storage.log e.index message ->
        Has (n.step sender message).1.storage.log e := by
      intro hplain hconflict
      have hran : Ran
          { heard := fun core _ heard => core = n.core ∧ heard = message
            offered := fun _ => False } n (n.step sender message) :=
        ran_step n ⟨rfl, rfl⟩
      refine has_moves ?_ ?_ hfollows h hran.moves
      · rintro core _ _ ⟨_, rfl⟩
        exact hcontiguous
      · rintro core _ _ ⟨rfl, rfl⟩
        exact ⟨hplain, hconflict⟩
    cases message with
    | appendEntries term prevLogIndex prevLogTerm entries leaderCommit seq =>
        apply hmoved nofun
        intro hconflict
        have hterm : n.term <= term :=
          Nat.le_of_not_lt (fun hlt => hstale ⟨rfl, hlt⟩)
        exact hspared (Or.inl ⟨hterm, hconflict⟩)
    | installSnapshot term lastIndex lastTerm offset data done seq members =>
        have hterm : n.term <= term :=
          Nat.le_of_not_lt (fun hlt => hstale ⟨rfl, hlt⟩)
        have hheeded := @step_heeded n sender (Message.installSnapshot term
          lastIndex lastTerm offset data done seq members) rfl hterm
        rcases hheeded with ⟨n', hcore, heq⟩
        have hlog : n.storage.log = n'.storage.log := congrArg Core.log hcore.symm
        have hcommit : n'.commitIndex = n.commitIndex :=
          congrArg Core.commitIndex hcore
        have hincoming : n'.incoming = n.incoming := congrArg Core.incoming hcore
        rw [heq]
        rw [hlog] at h
        apply h.handleInstallSnapshot
        intro hnewer hpast hdone hoffset hdiscards
        rw [hcommit] at hnewer
        rw [← hlog] at hpast hdiscards
        have hcontinuing : n'.continuing sender
              { index := lastIndex, term := lastTerm } =
            n.continuing sender { index := lastIndex, term := lastTerm } := by
          unfold Node.continuing
          rw [hincoming]
        rw [hcontinuing] at hoffset
        exact hspared (Or.inr ⟨_, ⟨rfl, hterm, hnewer, hpast, hdone, hoffset⟩,
          hdiscards⟩)
    | _ => exact hmoved nofun (fun hconflict => hconflict)

/-!
# What a message brings
-/

theorem Follows.entry_of_mem {log : EntryLog}
    (h : Follows log.base.index log.entries) {e : Entry}
    (hmem : e ∈ log.entries) : log.entry e.index = some e := by
  rcases List.mem_iff_getElem?.mp hmem with ⟨k, hk⟩
  have hindex := h.index hk
  rw [h.entry, if_pos (by omega), ← hk]
  congr 1
  omega

/-- The entries that a scan steps over are of the terms that the log has there. -/
theorem matching_held (s : MemStorage) {es : List Entry} {index k : Nat}
    {e : Entry} (hk : es[k]? = some e)
    (hheld : k < (Node.matching s index es).1) :
    s.termAt (index + k) = some e.term := by
  induction es generalizing index k with
  | nil => cases hk
  | cons first rest ih =>
      unfold Node.matching at hheld
      split at hheld
      · next t hterm =>
          split at hheld
          · next hsame =>
              cases k with
              | zero =>
                  obtain rfl := Option.some.inj hk
                  rw [Nat.add_zero, hterm, hsame]
              | succ k =>
                  have hrest := @ih (index + 1) k hk
                    (Nat.lt_of_succ_lt_succ hheld)
                  rwa [Nat.add_right_comm] at hrest
          · cases hheld
      · cases hheld

/-- An accepted message has all its entries in the log afterwards, or others of their
terms. -/
theorem entry_acceptEntries {n : Node} {prev t : Nat} {es : List Entry}
    (hfollows : Follows n.storage.log.base.index n.storage.log.entries)
    (hes : Follows prev es) (hterm : n.storage.termAt prev = some t)
    {e : Entry} (hmem : e ∈ es)
    (hnew : forall old, n.storage.entry e.index = some old ->
      old.term ≠ e.term) :
    (n.acceptEntries prev es).storage.log.entry e.index = some e := by
  rcases acceptEntries_log hfollows hes hterm with ⟨keep, fresh, hover⟩
  have hafter : Follows (n.acceptEntries prev es).storage.log.base.index
      (n.acceptEntries prev es).storage.log.entries := by
    rw [hover.log]
    exact hover.follows
  apply hafter.entry_of_mem
  rcases acceptEntries_cases n prev es with ⟨held, conflict, hmatching, hcases⟩
  have hdropped : e ∈ es.drop held := by
    rcases List.mem_iff_getElem?.mp hmem with ⟨k, hk⟩
    have hindex := hes.index hk
    rcases Nat.lt_or_ge k held with hbefore | hpast
    · have hsame := @matching_held n.storage es (prev + 1) k e hk
        (by rwa [hmatching])
      rw [← hindex] at hsame
      have hbase := (hfollows.termAt_le hterm).1
      have hold : (n.storage.log.entry e.index).map Entry.term =
          some e.term := by
        rw [← hsame]
        show _ = n.storage.log.termAt e.index
        rw [hfollows.termAt_eq (by omega), hfollows.entry, if_pos (by omega)]
      rcases Option.map_eq_some_iff.mp hold with ⟨old, hentry, heq⟩
      exact absurd heq (hnew old hentry)
    · rw [List.mem_iff_getElem?]
      exists k - held
      rw [List.getElem?_drop, Nat.add_sub_cancel' hpast]
      exact hk
  have happended : forall s : MemStorage, e ∈ (s.append (es.drop held)).log.entries := by
    intro s
    rw [append_log]
    exact List.mem_append_right _ hdropped
  rcases hcases with hreload | ⟨_, _, hquiet⟩
  · rw [hreload, storage_reloadMembership]
    exact happended _
  · rw [hquiet]
    exact happended _

theorem storage_handleAppendEntries {n : Node} (sender : NodeId)
    {prevLogIndex prevLogTerm : Nat} {entries : List Entry}
    (leaderCommit seq : Nat) {prev term : Nat} {rest : List Entry}
    (hpast : Node.pastSnapshot n.storage prevLogIndex prevLogTerm entries =
      some (prev, term, rest))
    (hterm : n.storage.termAt prev = some term) :
    exists middle : Node, middle.storage = n.storage ∧
      (n.handleAppendEntries sender prevLogIndex prevLogTerm entries leaderCommit
        seq).1.storage = (middle.acceptEntries prev rest).storage := by
  unfold Node.handleAppendEntries
  dsimp only
  generalize hmiddle : Node.resetElectionTimer { n with
    role := Role.follower
    leaderId := some sender } = middle
  have hstorage : middle.storage = n.storage := by
    rw [← hmiddle]
    rfl
  rw [hstorage, hpast]
  dsimp only
  rw [if_neg (not_not.mpr hterm)]
  exists middle, hstorage
  dsimp only
  split <;> rfl

theorem has_handleAppendEntries {n : Node}
    (hfollows : Follows n.storage.log.base.index n.storage.log.entries)
    (sender : NodeId) {prevLogIndex prevLogTerm : Nat} {entries : List Entry}
    (leaderCommit seq : Nat) (hentries : Follows prevLogIndex entries)
    (haccepts : Accepts n.storage.log prevLogIndex prevLogTerm entries)
    {e : Entry} (hmem : e ∈ entries) (hbase : n.storage.log.base.index < e.index)
    (hnew : forall old, n.storage.log.entry e.index = some old ->
      old.term ≠ e.term) :
    Has (n.handleAppendEntries sender prevLogIndex prevLogTerm entries
      leaderCommit seq).1.storage.log e := by
  rcases haccepts with ⟨prev, term, rest, hpast, hterm⟩
  have hrest := (pastSnapshot_follows hentries hpast).1
  rcases storage_handleAppendEntries (n := n) sender leaderCommit seq hpast hterm
    with ⟨middle, hstorage, hafter⟩
  have hin : e ∈ rest := by
    rcases pastSnapshot_some hpast with
      ⟨_, _, _, hall⟩ | ⟨hbefore, _, _, _, hdropped⟩
    · rw [hall]
      exact hmem
    · rcases List.mem_iff_getElem?.mp hmem with ⟨k, hk⟩
      have hindex := hentries.index hk
      change prevLogIndex < n.storage.log.base.index at hbefore
      rw [hdropped, List.mem_iff_getElem?]
      exists k - (n.storage.log.base.index - prevLogIndex)
      rw [List.getElem?_drop, ← hk]
      congr 1
      show n.storage.log.base.index - prevLogIndex + _ = k
      omega
  rw [← hstorage] at hfollows hnew
  have htermAt : middle.storage.termAt prev = some term := by
    rw [hstorage]
    exact hterm
  rw [hafter]
  exact has_of_entry (entry_acceptEntries hfollows hrest htermAt hin hnew)

theorem has_step_of_brings {n : Node} {e : Entry}
    (hfollows : Follows n.storage.log.base.index n.storage.log.entries)
    (sender : NodeId) {message : Message} (hcontiguous : Contiguous message)
    (h : Brings n message e) :
    Has (n.step sender message).1.storage.log e := by
  cases message with
  | appendEntries term prevLogIndex prevLogTerm entries leaderCommit seq =>
      rcases h with ⟨hterm, haccepts, hmem, hbase, hnew⟩
      have hheeded := @step_heeded n sender (Message.appendEntries term
        prevLogIndex prevLogTerm entries leaderCommit seq) rfl hterm
      rcases hheeded with ⟨n', hcore, heq⟩
      have hlog : n.storage.log = n'.storage.log := congrArg Core.log hcore.symm
      unfold MemStorage.entry at hnew
      rw [hlog] at hfollows haccepts hbase hnew
      rw [heq]
      exact has_handleAppendEntries hfollows sender leaderCommit seq hcontiguous
        haccepts hmem hbase hnew
  | _ => exact h.elim

end Raft
end Minicask
