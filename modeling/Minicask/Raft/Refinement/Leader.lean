import Minicask.Raft.Abstraction
import Minicask.Rankings

/-!
# What a leader does, as protocol steps

A leader's appends, its commit rule and its messages.  An operation that moves a
node is simulated by protocol steps of that node alone, and every message it
sends is true in the history those steps lead to.
-/

namespace Minicask
namespace Raft

open Consensus

/-- Some protocol steps of the node account for what an operation did. -/
def Simulated (B : List Member) (a : Past) (n : NodeId)
    (result : Node × List Action) : Prop :=
  exists b, Steps (setting B) n a b ∧ NodeOk B b n result.1 ∧
    forall action, action ∈ result.2 ->
      MsgOk B b { sender := n, dest := action.dest, message := action.message }

theorem simulated_quiet {B : List Member} {a : Past} {n : NodeId} {node : Node}
    (h : NodeOk B a n node) : Simulated B a n (node, []) :=
  ⟨a, Relation.ReflTransGen.refl, h, by simp⟩

theorem simulated_one {B : List Member} {a : Past} {n : NodeId} {node : Node}
    {action : Action} (h : NodeOk B a n node)
    (hmsg : MsgOk B a
      { sender := n, dest := action.dest, message := action.message }) :
    Simulated B a n (node, [action]) := by
  refine ⟨a, Relation.ReflTransGen.refl, h, ?_⟩
  intro other hother
  rw [List.mem_singleton.mp hother]
  exact hmsg

theorem Simulated.after {B : List Member} {a b : Past} {n : NodeId}
    {result : Node × List Action} (hsteps : Steps (setting B) n a b)
    (h : Simulated B b n result) : Simulated B a n result := by
  rcases h with ⟨c, hbc, hrest⟩
  exact ⟨c, Relation.ReflTransGen.trans hsteps hbc, hrest⟩

/-- Messages of an earlier part of an operation go out with those of a later
one. -/
theorem Simulated.append {B : List Member} {a : Past} {n : NodeId}
    {node : Node} {earlier later : List Action} (hinv : Inv (setting B) a)
    (hearlier : forall action, action ∈ earlier ->
      MsgOk B a { sender := n, dest := action.dest, message := action.message })
    (h : Simulated B a n (node, later)) :
    Simulated B a n (node, earlier ++ later) := by
  rcases h with ⟨b, hsteps, hnode, hmsgs⟩
  refine ⟨b, hsteps, hnode, ?_⟩
  intro action haction
  rcases List.mem_append.mp haction with hold | hnew
  · exact (hearlier action hold).mono (hinv.steps_extends hsteps)
  · exact hmsgs action hnew

/-!
# Tables
-/

namespace Table

theorem insert_eq_some {t : Table value} {key k : Nat} {x y : value}
    (h : t.insert key x k = some y) : (k = key ∧ y = x) ∨ t k = some y := by
  unfold insert at h
  split at h
  · next hk => exact Or.inl ⟨hk, (Option.some.inj h).symm⟩
  · exact Or.inr h

theorem remove_eq_some {t : Table value} {key k : Nat} {y : value}
    (h : t.remove key k = some y) : t k = some y := by
  unfold remove at h
  split at h
  · cases h
  · exact h

theorem orInsert_eq_some {t : Table value} {key k : Nat} {x y : value}
    (h : t.orInsert key x k = some y) : t k = some y ∨ y = x := by
  unfold orInsert at h
  cases hkey : t key with
  | some z =>
      rw [hkey] at h
      exact Or.inl h
  | none =>
      rw [hkey] at h
      rcases insert_eq_some h with ⟨_, hy⟩ | hold
      · exact Or.inr hy
      · exact Or.inl hold

theorem retain_eq_some {t : Table value} {keep : Nat -> Bool} {k : Nat}
    {y : value} (h : t.retain keep k = some y) : t k = some y := by
  unfold retain at h
  split at h
  · exact h
  · cases h

/-- A fold that adds one value under many keys holds that value or an old one. -/
theorem foldl_eq_some {add : Table value -> Nat -> Table value} {x : value}
    (hadd : forall t key k y, add t key k = some y -> t k = some y ∨ y = x)
    (keys : List Nat) {t : Table value} {k : Nat} {y : value}
    (h : keys.foldl add t k = some y) : t k = some y ∨ y = x := by
  induction keys generalizing t with
  | nil => exact Or.inl h
  | cons key rest ih =>
      rcases ih h with hadded | hy
      · exact hadd t key k y hadded
      · exact Or.inr hy

end Table

/-!
# Membership
-/

section Membership

variable {B : List Member} {a : Past} {n : NodeId} {node : Node}

theorem newestConfig_of_data {s : MemStorage}
    (h : forall i e, s.entry i = some e -> e.command.isConfig = false)
    (range : List Nat) (start : List Member × Nat) :
    Node.newestConfig s range start = start := by
  unfold Node.newestConfig
  induction range with
  | nil => rfl
  | cons i rest ih =>
      rw [List.foldl_cons]
      cases he : s.entry i with
      | none => exact ih
      | some e =>
          rcases e with ⟨term, index, command⟩
          cases command with
          | noop => exact ih
          | data bytes => exact ih
          | config members =>
              have := h i _ he
              cases this

theorem StorageOk.not_config (hinv : Inv (setting B) a) {s : MemStorage}
    (h : StorageOk B a n s) (i : Nat) (e : Entry) (he : s.entry i = some e) :
    e.command.isConfig = false :=
  not_config_of_chained hinv (hinv.chainedLog n)
    (List.mem_of_getElem? (h.shows.entry_eq_some he).2.1)

theorem NodeOk.membersAt (hinv : Inv (setting B) a) (h : NodeOk B a n node)
    (index : Nat) : node.membersAt index = B := by
  unfold Node.membersAt
  rw [newestConfig_of_data (h.storage.not_config hinv)]
  rcases h.storage.members with hnone | hsome
  · simp [hnone, h.bootstrap]
  · simp [hsome]

theorem NodeOk.membershipInForce (hinv : Inv (setting B) a)
    (h : NodeOk B a n node) : node.membershipInForce.1 = B := by
  unfold Node.membershipInForce
  rw [newestConfig_of_data (h.storage.not_config hinv)]
  rcases h.storage.members with hnone | hsome
  · simp [hnone, h.bootstrap]
  · simp [hsome]

theorem NodeOk.reloadMembership (hinv : Inv (setting B) a)
    (h : NodeOk B a n { node with voters := Node.votersOf B }) :
    NodeOk B a n node.reloadMembership := by
  have hforce := h.membershipInForce hinv
  change node.membershipInForce.1 = B at hforce
  have hvoters : Node.votersOf node.membershipInForce.1 = Node.votersOf B := by
    rw [hforce]
  unfold Node.reloadMembership
  split
  simp only
  next members since heq =>
    rw [heq] at hvoters
    split
    · next hrole =>
        have hlead := h.leader hrole
        refine { h with voters := hvoters, candidate := ?_, leader := ?_ }
        · intro hcand
          simp only at hcand hrole
          rw [hrole] at hcand
          cases hcand
        · intro _
          refine { hlead with matched := ?_, next := ?_ }
          · intro v k hk
            rcases Table.foldl_eq_some
              (fun t key k y => Table.orInsert_eq_some) _
              (Table.retain_eq_some hk) with hold | hzero
            · exact hlead.matched v k hold
            · rw [hzero]
              exact Nat.zero_le _
          · intro p k hk
            rcases Table.foldl_eq_some
              (fun t key k y => Table.orInsert_eq_some) _
              (Table.retain_eq_some hk) with hold | hnext
            · exact hlead.next p k hold
            · have hlast := h.storage.shows.lastIndex
              simp only [MemStorage.lastIndex] at hnext hlast
              omega
    · exact { h with voters := hvoters }

end Membership

/-!
# What a leader sends
-/

section Sending

variable {B : List Member} {a : Past} {n : NodeId} {node : Node}

theorem NodeOk.term_eq (h : NodeOk B a n node) : node.term = a.term n :=
  h.storage.term

theorem NodeOk.lastIndex (h : NodeOk B a n node) :
    node.storage.lastIndex = (a.log n).length :=
  h.storage.shows.lastIndex

theorem NodeOk.log_eq_record (hinv : Inv (setting B) a)
    (h : NodeOk B a n node) (hrole : node.role = Role.leader) :
    a.log n = a.record (a.term n) :=
  hinv.leaderLog _ n (h.leader hrole).leader rfl

theorem NodeOk.nextFor (h : NodeOk B a n node)
    (hrole : node.role = Role.leader) (peer : NodeId) :
    1 <= node.nextFor peer ∧ node.nextFor peer <= (a.log n).length + 1 := by
  unfold Node.nextFor
  cases hp : node.nextIndex peer with
  | some k => exact (h.leader hrole).next peer k hp
  | none =>
      rw [Option.getD_none, h.lastIndex]
      omega

/-- Entries cut from a leader's log at any place past its snapshot. -/
theorem NodeOk.appendEntries_ok (hinv : Inv (setting B) a)
    (h : NodeOk B a n node) (hrole : node.role = Role.leader) (peer : NodeId)
    (hnext : node.storage.log.base.index < node.nextFor peer)
    {entries : List Entry}
    (hentries : entries <+: (a.log n).drop (node.nextFor peer - 1)) :
    MsgOk B a
      { sender := n
        dest := peer
        message := Message.appendEntries node.term (node.nextFor peer - 1)
          ((node.storage.termAt (node.nextFor peer - 1)).getD 0) entries
          node.commitIndex node.seq } := by
  have hl := h.leader hrole
  have hrec := h.log_eq_record hinv hrole
  have hbound := h.nextFor hrole peer
  have hcommit := h.commit
  unfold MsgOk
  simp only
  rw [h.term_eq, MemStorage.termAt, h.storage.shows.termAt, if_pos (by omega)]
  rw [← hrec]
  exact ⟨hl.leader, by omega, rfl, hentries, hcommit, Nat.le_of_eq hl.round.symm⟩

theorem NodeOk.appendMessageFor (hinv : Inv (setting B) a)
    (h : NodeOk B a n node) (hrole : node.role = Role.leader) (peer : NodeId) :
    MsgOk B a
      { sender := n
        dest := (node.appendMessageFor peer).dest
        message := (node.appendMessageFor peer).message } := by
  have hl := h.leader hrole
  unfold Node.appendMessageFor
  simp only
  split
  · have hrec := h.log_eq_record hinv hrole
    have hbase := h.storage.base
    have hterm := h.storage.shows.baseTerm
    unfold MsgOk
    simp only [MemStorage.snapshotMeta]
    rw [h.term_eq, hterm, ← hrec]
    exact ⟨hl.leader, hbase, rfl, h.storage.members,
      Nat.le_of_eq hl.round.symm⟩
  · next hnext =>
      have hnext' : node.storage.log.base.index < node.nextFor peer :=
        Nat.lt_of_not_le hnext
      apply h.appendEntries_ok hinv hrole peer hnext'
      rcases MemStorage.entriesWithin_eq h.storage.shows
        node.config.maxAppendBytes hnext' with ⟨k, hk⟩
      rw [hk]
      exact List.take_prefix _ _

theorem NodeOk.broadcastAppend (hinv : Inv (setting B) a)
    (h : NodeOk B a n node) (hrole : node.role = Role.leader) :
    Simulated B a n node.broadcastAppend := by
  rcases broadcastAppend_eq node with ⟨sender, hsender, heq⟩
  have hok : NodeOk B a n sender ∧ sender.role = Role.leader := by
    rcases hsender with rfl | rfl
    · exact ⟨h, hrole⟩
    · exact ⟨NodeOk.reloadMembership hinv { h with voters := rfl },
        (role_reloadMembership node).trans hrole⟩
  rw [heq]
  refine ⟨a, Relation.ReflTransGen.refl, hok.1, ?_⟩
  intro action haction
  rcases List.mem_map.mp haction with ⟨peer, _, rfl⟩
  exact hok.1.appendMessageFor hinv hok.2 peer

end Sending

/-!
# The commit rule
-/

theorem majority_of_count {voters : List NodeId} {f : NodeId -> Nat} {m : Nat}
    (h : voters.length / 2 + 1 <= (voters.map f).countP (m <= ·)) :
    Majority voters { v | m <= f v } := by
  refine ⟨(voters.filter (fun v => decide (m <= f v))).toFinset, ?_, ?_⟩
  · intro v hv
    simp only [List.mem_toFinset, List.mem_filter, decide_eq_true_eq] at hv
    exact hv.2
  · rw [List.countP_map, List.countP_eq_length_filter] at h
    refine h.trans (Nat.le_of_eq ?_)
    congr 1
    apply List.filter_congr
    intro v hv
    simp [hv]

section Committing

variable {B : List Member} {a : Past} {n : NodeId} {node : Node}

theorem NodeOk.maybeCommit (hinv : Inv (setting B) a)
    (h : NodeOk B a n node) (hrole : node.role = Role.leader) :
    exists b, Steps (setting B) n a b ∧ NodeOk B b n node.maybeCommit ∧
      b.log = a.log ∧ b.term = a.term := by
  have hl := h.leader hrole
  have hrec := h.log_eq_record hinv hrole
  rcases maybeCommit_cases node with hsame | ⟨hmore, hterm, heq⟩
  · rw [hsame]
    exact ⟨a, Relation.ReflTransGen.refl, h, rfl, rfl⟩
  · rw [heq]
    generalize hm : node.majorityIndex = m at hmore hterm ⊢
    rcases h.storage.shows.termAt_eq_some hterm with ⟨_, hlen, hstamp⟩
    rw [h.term_eq] at hstamp
    -- The majority the sort found has acknowledged the entry.
    have hquorum : Majority node.voters
        { w | m <= a.acked w (a.term n) } := by
      have hsome : ((node.voters.map node.voterIndex).insertionSort
          (· >= ·))[node.quorum - 1]? = some m := by
        unfold Node.majorityIndex at hm
        cases hopt : ((node.voters.map node.voterIndex).insertionSort
            (· >= ·))[node.quorum - 1]? with
        | some x =>
            simp only [hopt, Option.getD_some] at hm
            rw [hm]
        | none =>
            simp only [hopt, Option.getD_none] at hm
            omega
      have hcount := (Rankings.le_ranked_iff hsome m).mp (Nat.le_refl m)
      unfold Node.quorum at hcount
      apply (majority_of_count (f := node.voterIndex) (m := m)
        (by omega)).mono
      intro w hw
      simp only [Set.mem_ofPred_eq] at hw ⊢
      refine hw.trans ?_
      unfold Node.voterIndex
      split
      · next hself =>
          rw [hself, h.id, h.lastIndex, hinv.leaderAck _ n hl.leader, hrec]
      · cases hmi : node.matchIndex w with
        | some k => exact hl.matched w k hmi
        | none => exact Nat.zero_le _
    rw [h.voters] at hquorum
    cases m with
    | zero => omega
    | succ i =>
        have hentry : (a.record (a.term n))[i]? =
            some ((a.log n).get ⟨i, hlen⟩) := by
          rw [← hrec, List.get_eq_getElem]
          exact List.getElem?_eq_getElem hlen
        have hstep : Step (setting B) n a _ := Step.commit hl.leader hentry (by
          rw [← hrec] at hentry
          simp only [wholeTerm, hentry, Option.map_some,
            Option.getD_some] at hstamp
          exact hstamp.symm) hquorum (Nat.lt_of_le_of_lt hl.commit hmore)
        have hext := hinv.step_extends hstep
        refine ⟨_, Relation.ReflTransGen.single hstep, ?_, rfl, rfl⟩
        refine { h with
          storage := ?_
          commit := ?_
          applied := ?_
          candidate := ?_
          leader := ?_ }
        · exact { h.storage with
            base := h.storage.base.mono hext (le_refl _) }
        · refine ⟨hlen, a.term n, le_refl _, ?_, ?_⟩
          · simp
          · simp only
            rw [hrec]
            exact List.take_prefix _ _
        · exact h.applied.mono hext (le_refl _)
        · intro hcand
          rw [hrole] at hcand
          cases hcand
        · intro _
          exact { hl with commit := by simp }

end Committing

/-!
# Appending
-/

section Appending

variable {B : List Member} {a : Past} {n : NodeId} {node : Node}

theorem NodeOk.appendOne (hinv : Inv (setting B) a) (h : NodeOk B a n node)
    (hrole : node.role = Role.leader) {e : Entry} (hterm : e.term = node.term)
    (hindex : e.index = node.storage.lastIndex + 1)
    (hdata : e.command.isConfig = false) :
    Step (setting B) n a (a.extend n e) ∧
      NodeOk B (a.extend n e) n
        { node with storage := node.storage.append [e] } := by
  have hl := h.leader hrole
  rw [h.term_eq] at hterm
  rw [h.lastIndex] at hindex
  have hstep : Step (setting B) n a (a.extend n e) :=
    Step.append hl.leader hterm ⟨hindex, hdata⟩
  have hext := hinv.step_extends hstep
  have hlog : (a.extend n e).log n = a.log n ++ [e] := by
    simp [History.extend]
  have hcomm : forall k, Committed a (a.term n) (a.log n) k ->
      Committed (a.extend n e) ((a.extend n e).term n)
        ((a.extend n e).log n) k := by
    intro k hk
    rw [hlog]
    apply (hk.mono hext (le_refl _)).congr
    exact (List.take_prefix _ _).trans (List.prefix_append _ _)
  refine ⟨hstep, ?_⟩
  refine { h with
    storage := ?_
    commit := hcomm _ h.commit
    applied := hcomm _ h.applied
    candidate := ?_
    leader := ?_ }
  · refine { h.storage with
      shows := ?_
      base := hcomm _ h.storage.base }
    rw [hlog]
    exact h.storage.shows.push hindex
  · intro hcand
    simp only at hcand
    rw [hrole] at hcand
    cases hcand
  · intro _
    refine { hl with matched := ?_, next := ?_ }
    · intro v k hk
      exact (hl.matched v k hk).trans (hext.acked v _)
    · intro p k hk
      have := hl.next p k hk
      rw [hlog, List.length_append]
      omega

/-- Entries a leader may append: its own term, the next indices, and no
membership. -/
def Appendable (term : Nat) (start : Nat) (es : List Entry) : Prop :=
  forall i e, es[i]? = some e -> e.term = term ∧ e.index = start + 1 + i ∧
    e.command.isConfig = false

theorem Appendable.tail {term start : Nat} {e : Entry} {es : List Entry}
    (h : Appendable term start (e :: es)) : Appendable term (start + 1) es := by
  intro i d hd
  have := h (i + 1) d (by simpa using hd)
  exact ⟨this.1, by omega, this.2.2⟩

theorem NodeOk.appendAll (hinv : Inv (setting B) a) (h : NodeOk B a n node)
    (hrole : node.role = Role.leader) (es : List Entry)
    (hes : Appendable node.term node.storage.lastIndex es) :
    exists b, Steps (setting B) n a b ∧
      NodeOk B b n { node with storage := node.storage.append es } := by
  induction es generalizing a node with
  | nil => exact ⟨a, Relation.ReflTransGen.refl, h⟩
  | cons e rest ih =>
      rcases hes 0 e rfl with ⟨hterm, hindex, hdata⟩
      rcases h.appendOne hinv hrole hterm hindex hdata with ⟨hstep, hnode⟩
      have hlast : (node.storage.append [e]).lastIndex =
          node.storage.lastIndex + 1 := by
        rw [hnode.lastIndex, h.lastIndex]
        simp [History.extend]
      have hrest : Appendable node.term (node.storage.append [e]).lastIndex
          rest := by
        rw [hlast]
        exact hes.tail
      rcases ih (hinv.step hstep) hnode hrole hrest with ⟨b, hsteps, hb⟩
      exact ⟨b, Relation.ReflTransGen.head hstep hsteps, hb⟩

theorem NodeOk.appendCommitBroadcast (hinv : Inv (setting B) a)
    (h : NodeOk B a n node) (hrole : node.role = Role.leader) (es : List Entry)
    (hes : Appendable node.term node.storage.lastIndex es) :
    Simulated B a n (Node.maybeCommit
      { node with storage := node.storage.append es }).broadcastAppend := by
  rcases h.appendAll hinv hrole es hes with ⟨b, hab, hb⟩
  have hinvb := hinv.steps hab
  rcases hb.maybeCommit hinvb hrole with ⟨c, hbc, hc, _⟩
  have hrolec : (Node.maybeCommit { node with
      storage := node.storage.append es }).role = Role.leader := by
    rw [role_maybeCommit]
    exact hrole
  exact ((hc.broadcastAppend (hinvb.steps hbc) hrolec).after hbc).after hab

theorem appendable_one {term start : Nat} (command : Command)
    (hdata : command.isConfig = false) :
    Appendable term start
      [{ term := term, index := start + 1, command := command }] := by
  intro i e hi
  cases i with
  | zero =>
      cases hi
      exact ⟨rfl, rfl, hdata⟩
  | succ i => cases hi

theorem NodeOk.propose (hinv : Inv (setting B) a) (h : NodeOk B a n node)
    {command : Bytes} {next : Node} {index : Nat} {actions : List Action}
    (hok : node.propose command = Except.ok (next, index, actions)) :
    Simulated B a n (next, actions) := by
  unfold Node.propose at hok
  split at hok
  · cases hok
  next hrole =>
    simp only at hok
    split at hok
    · cases hok
    · have hsim := h.appendCommitBroadcast hinv (not_not.mp hrole) _
        (appendable_one (Command.data command) rfl)
      cases hok
      exact hsim

theorem appendable_batchEntries (term maxEntryBytes : Nat) (commands : List Bytes)
    (start : Nat) :
    Appendable term start
      (Node.batchEntries term maxEntryBytes (start + 1) commands).1 := by
  induction commands generalizing start with
  | nil =>
      intro i e hi
      cases hi
  | cons command rest ih =>
      unfold Node.batchEntries
      simp only
      split
      · exact ih start
      · intro i e hi
        cases i with
        | zero =>
            cases hi
            exact ⟨rfl, rfl, rfl⟩
        | succ i =>
            have := ih (start + 1) i e (by simpa using hi)
            exact ⟨this.1, by omega, this.2.2⟩

theorem NodeOk.proposeBatch (hinv : Inv (setting B) a)
    (h : NodeOk B a n node) {commands : List Bytes} {next : Node}
    {answers : List (Except ProposeError Nat)} {actions : List Action}
    (hok : node.proposeBatch commands = Except.ok (next, answers, actions)) :
    Simulated B a n (next, actions) := by
  unfold Node.proposeBatch at hok
  split at hok
  · cases hok
  next hrole =>
    have hes := appendable_batchEntries node.term node.config.maxEntryBytes
      commands node.storage.lastIndex
    have hsim := h.appendCommitBroadcast hinv (not_not.mp hrole) _ hes
    simp only at hok
    split at hok
    · cases hok
      exact simulated_quiet h
    · cases hok
      exact hsim

end Appending

/-!
# Rounds and replies
-/

section Replies

variable {B : List Member} {a : Past} {n : NodeId} {node : Node}

theorem NodeOk.openReadRound (hinv : Inv (setting B) a)
    (h : NodeOk B a n node) (hrole : node.role = Role.leader) :
    Simulated B a n (node.openReadRound.1, node.openReadRound.2.1) := by
  have hl := h.leader hrole
  have hstep : Step (setting B) n a _ :=
    Step.raise (s := node.seq + 1) hl.leader (by rw [hl.round]; omega)
  have hext := hinv.step_extends hstep
  have hnode : NodeOk B { a with
      round := Function.update a.round (a.term n) (node.seq + 1) } n
      { node with seq := node.seq + 1 } := by
    refine { h with
      storage := ?_
      commit := h.commit.mono hext (le_refl _)
      applied := h.applied.mono hext (le_refl _)
      candidate := ?_
      leader := ?_ }
    · exact { h.storage with base := h.storage.base.mono hext (le_refl _) }
    · intro hcand
      simp only at hcand
      rw [hrole] at hcand
      cases hcand
    · intro _
      exact { hl with round := by simp }
  refine ⟨_, Relation.ReflTransGen.single hstep, hnode, ?_⟩
  intro action haction
  unfold Node.openReadRound at haction
  rcases List.mem_map.mp haction with ⟨peer, hpeer, heq⟩
  rw [← heq]
  have hnext := (List.mem_filter.mp hpeer).2
  simp only [Bool.not_eq_true', decide_eq_false_iff_not, not_le] at hnext
  exact hnode.appendEntries_ok (hinv.step hstep) hrole peer hnext
    List.nil_prefix

theorem NodeOk.handleReadIndex (hinv : Inv (setting B) a)
    (h : NodeOk B a n node) (sender : NodeId) (id : Nat) :
    Simulated B a n (node.handleReadIndex sender id) := by
  unfold Node.handleReadIndex
  split
  · exact simulated_one h trivial
  next hrole =>
    rcases h.openReadRound hinv (not_not.mp hrole) with ⟨b, hsteps, hb, hmsgs⟩
    exact ⟨b, hsteps, { hb with }, hmsgs⟩

theorem NodeOk.readIndex (hinv : Inv (setting B) a) (h : NodeOk B a n node) :
    Simulated B a n (node.readIndex.1, node.readIndex.2.2) := by
  unfold Node.readIndex
  split
  · next hrole => exact h.openReadRound hinv hrole
  · split
    · exact simulated_one { h with } trivial
    · exact simulated_quiet h

theorem NodeOk.releaseReads (h : NodeOk B a n node) :
    NodeOk B a n node.releaseReads.1 ∧
      forall action, action ∈ node.releaseReads.2 ->
        MsgOk B a
          { sender := n, dest := action.dest, message := action.message } := by
  unfold Node.releaseReads
  refine ⟨{ h with }, ?_⟩
  intro action haction
  rcases List.mem_map.mp haction with ⟨read, _, heq⟩
  rw [← heq]
  trivial

/-- A reply counts only for the term it answers, and only what its sender did
say. -/
theorem NodeOk.heardRound (h : NodeOk B a n node) {sender : NodeId}
    {term seq : Nat} (hseq : seq <= a.heard sender term) {next : Node}
    {released : List Action}
    (hheard : node.heardRound sender term seq = some (next, released)) :
    term = node.term ∧ next.role = Role.leader ∧ NodeOk B a n next ∧
      forall action, action ∈ released ->
        MsgOk B a
          { sender := n, dest := action.dest, message := action.message } := by
  unfold Node.heardRound at hheard
  split at hheard
  · cases hheard
  next hcond =>
    rw [not_or, not_not, not_not] at hcond
    rcases hcond with ⟨hrole, hterm⟩
    have hl := h.leader hrole
    rw [hterm, h.term_eq] at hseq
    simp only at hheard
    split at hheard
    · have hnode : NodeOk B a n { node with
          active := insert sender node.active
          acked := (node.acked.orInsert sender 0).insert sender seq } := by
        refine { h with leader := ?_ }
        intro _
        refine { hl with heard := ?_ }
        intro v s hs
        rcases Table.insert_eq_some hs with ⟨hv, hs'⟩ | hold
        · rw [hv, hs']
          exact hseq
        · rcases Table.orInsert_eq_some hold with hold' | hzero
          · exact hl.heard v s hold'
          · rw [hzero]
            exact Nat.zero_le _
      have hrelease := hnode.releaseReads
      cases hheard
      exact ⟨hterm, hrole, hrelease⟩
    · cases hheard
      refine ⟨hterm, hrole, { h with leader := ?_ }, by simp⟩
      intro _
      refine { hl with heard := ?_ }
      intro v s hs
      rcases Table.orInsert_eq_some hs with hold | hzero
      · exact hl.heard v s hold
      · rw [hzero]
        exact Nat.zero_le _

theorem NodeOk.matched (hinv : Inv (setting B) a) (h : NodeOk B a n node)
    (hrole : node.role = Role.leader) {sender : NodeId} {k : Nat}
    (hk : k <= a.acked sender (a.term n)) :
    NodeOk B a n { node with
      matchIndex := node.matchIndex.insert sender k
      nextIndex := node.nextIndex.insert sender (k + 1) } := by
  have hl := h.leader hrole
  refine { h with leader := ?_ }
  intro _
  refine { hl with matched := ?_, next := ?_ }
  · intro v j hj
    rcases Table.insert_eq_some hj with ⟨hv, hj'⟩ | hold
    · rw [hv, hj']
      exact hk
    · exact hl.matched v j hold
  · intro p j hj
    rcases Table.insert_eq_some hj with ⟨_, hj'⟩ | hold
    · have hbound := hinv.ackBound sender (a.term n)
      rw [h.log_eq_record hinv hrole]
      omega
    · exact hl.next p j hold

theorem NodeOk.handleAppendReply (hinv : Inv (setting B) a)
    (h : NodeOk B a n node) (hrole : node.role = Role.leader)
    {sender : NodeId} {success : Bool} {matchIndex conflictIndex : Nat}
    {conflictTerm : Option Nat}
    (hmatch : success = true -> matchIndex <= a.acked sender (a.term n))
    (hconflict : success = false ->
      conflictIndex <= (a.record (a.term n)).length + 1) :
    Simulated B a n (node.handleAppendReply sender success matchIndex
      conflictIndex conflictTerm) := by
  unfold Node.handleAppendReply
  split
  · next hs =>
      split
      · have hnode := h.matched hinv hrole (hmatch hs)
        rcases hnode.maybeCommit hinv hrole with ⟨b, hsteps, hb, _⟩
        have hroleb := (role_maybeCommit { node with
          matchIndex := node.matchIndex.insert sender matchIndex
          nextIndex := node.nextIndex.insert sender (matchIndex + 1) }).trans
            hrole
        refine Simulated.after hsteps ?_
        simp only
        split
        · exact simulated_one hb
            (hb.appendMessageFor (hinv.steps hsteps) hroleb sender)
        · exact simulated_quiet hb
      · exact simulated_quiet h
  · next hs =>
      have hl := h.leader hrole
      simp only
      have hnode : forall next, next <= (a.log n).length + 1 ->
          NodeOk B a n { node with
            nextIndex := node.nextIndex.insert sender (max next 1) } := by
        intro next hnext
        refine { h with leader := ?_ }
        intro _
        refine { hl with next := ?_ }
        intro p j hj
        rcases Table.insert_eq_some hj with ⟨_, hj'⟩ | hold
        · omega
        · exact hl.next p j hold
      have hbound := hconflict (Bool.not_eq_true _ ▸ hs)
      rw [← h.log_eq_record hinv hrole] at hbound
      refine simulated_one (hnode _ ?_)
        ((hnode _ ?_).appendMessageFor hinv hrole sender) <;>
      · split
        · split
          · next hi =>
              have := MemStorage.lastIndexOfTerm_le hi
              rw [h.lastIndex] at this
              omega
          · exact hbound
        · exact hbound

theorem NodeOk.handleSnapshotReply (hinv : Inv (setting B) a)
    (h : NodeOk B a n node) (hrole : node.role = Role.leader)
    {sender : NodeId} {lastIndex nextOffset : Nat} {done : Bool}
    (hdone : done = true -> lastIndex <= a.acked sender (a.term n)) :
    Simulated B a n
      (node.handleSnapshotReply sender lastIndex nextOffset done) := by
  unfold Node.handleSnapshotReply
  simp only
  split
  · next hd =>
      have hfinish : forall (b : Past) (next : Node), Inv (setting B) b ->
          NodeOk B b n next -> next.role = Role.leader ->
          Simulated B b n (next,
            if (next.nextIndex sender).getD 0 <= next.storage.lastIndex then
              [next.appendMessageFor sender]
            else []) := by
        intro b next hinvb hb hroleb
        split
        · exact simulated_one hb (hb.appendMessageFor hinvb hroleb sender)
        · exact simulated_quiet hb
      have hnode : NodeOk B a n { node with
          snapshotProgress := node.snapshotProgress.remove sender } := { h with }
      split
      · have hmatched := hnode.matched hinv hrole (hdone hd)
        rcases hmatched.maybeCommit hinv hrole with ⟨b, hsteps, hb, _⟩
        refine Simulated.after hsteps ?_
        apply hfinish b _ (hinv.steps hsteps) hb
        rw [role_maybeCommit]
        exact hrole
      · exact hfinish a _ hinv hnode hrole
  · have hnode : NodeOk B a n { node with
        snapshotProgress := node.snapshotProgress.insert sender
          (node.storage.snapshotMeta.index,
            if lastIndex = node.storage.snapshotMeta.index then nextOffset
            else 0) } := { h with }
    exact simulated_one hnode (hnode.appendMessageFor hinv hrole sender)

end Replies

end Raft
end Minicask
