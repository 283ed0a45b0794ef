import Minicask.Raft.Refinement.Run

/-!
# Safety of a cluster with a fixed membership

The four properties the design rests on, for every run of a cluster: one leader
a term, logs that agree where they carry the same term, leaders that hold what
was committed before them, and one entry an index for every state machine.
-/

namespace Minicask
namespace Raft

open Consensus Cluster

def pairMembers : List Member :=
  [{ id := 1, context := [], learner := false },
   { id := 2, context := [], learner := false }]

def pair : Cluster :=
  Cluster.start pairMembers (fun _ => {})

/-- Node 1 wins term 1 and commits its first entry, and the commit index reaches
node 2 beside a second entry. -/
def pairCommits : List Event :=
  [Event.campaign 1,
   Event.deliver ⟨1, 2, Message.requestVote 1 0 0⟩,
   Event.deliver ⟨2, 1, Message.requestVoteReply 1 true⟩,
   Event.deliver ⟨1, 2,
    Message.appendEntries 1 0 0 [⟨1, 1, Command.noop⟩] 0 0⟩,
   Event.deliver ⟨2, 1, Message.appendEntriesReply 1 true 1 0 none 0⟩,
   Event.propose 1 [7],
   Event.deliver ⟨1, 2,
    Message.appendEntries 1 1 1 [⟨1, 2, Command.data [7]⟩] 1 0⟩]

def pairTakesOver : List Event :=
  [Event.restart 1 {},
   Event.campaign 2,
   Event.deliver ⟨2, 1, Message.requestVote 2 2 1⟩,
   Event.deliver ⟨1, 2, Message.requestVoteReply 2 true⟩]

def pairMid : Cluster :=
  pairCommits.foldl next pair

def pairLate : Cluster :=
  pairTakesOver.foldl next pairMid

theorem pair_runs : FixedRun pair pairMid ∧ FixedRun pairMid pairLate :=
  fixedRun_start pairMembers (fun _ => {}) [1, 2] pairCommits pairTakesOver
    (by decide +kernel) (by decide +kernel)

/-!
# One leader a term
-/

theorem election_safety {B : List Member} {configs : NodeId -> Config}
    {c d : Cluster} (hc : FixedRun (start B configs) c) (hd : FixedRun c d)
    {n m : NodeId} (hn : (c.nodes n).role = Role.leader)
    (hm : (d.nodes m).role = Role.leader)
    (hterm : (c.nodes n).term = (d.nodes m).term) : n = m := by
  rcases (related_start B configs).run hc with ⟨a, _, ha⟩
  rcases ha.run hd with ⟨b, hab, hb⟩
  have hext := (ha.inv.run_extends hab).2
  have hleadn := hext.leader _ n ((ha.nodes n).leader hn).leader
  have hleadm := ((hb.nodes m).leader hm).leader
  rw [(ha.nodes n).term_eq, (hb.nodes m).term_eq] at hterm
  rw [hterm, hleadm] at hleadn
  exact (Option.some.inj hleadn).symm

theorem election_safety_pair :
    (pairLate.nodes 2).role = Role.leader ∧ (pairLate.nodes 2).term = 2 ∧
      forall n, (pairLate.nodes n).role = Role.leader ->
        (pairLate.nodes n).term = 2 -> n = 2 := by
  have hrole : (pairLate.nodes 2).role = Role.leader := by decide +kernel
  have hterm : (pairLate.nodes 2).term = 2 := by decide +kernel
  refine ⟨hrole, hterm, ?_⟩
  intro n hn hnterm
  exact election_safety (pair_runs.1.trans pair_runs.2) (FixedRun.refl _) hn
    hrole (hnterm.trans hterm.symm)

/-!
# Log matching
-/

theorem log_matching {B : List Member} {configs : NodeId -> Config}
    {c : Cluster} (hc : FixedRun (start B configs) c) {n m : NodeId} {i : Nat}
    {e d : Entry} (he : (c.nodes n).storage.entry i = some e)
    (hd : (c.nodes m).storage.entry i = some d) (hterm : e.term = d.term)
    {j : Nat} (hj : j <= i) {e' d' : Entry}
    (he' : (c.nodes n).storage.entry j = some e')
    (hd' : (c.nodes m).storage.entry j = some d') : e' = d' := by
  rcases (related_start B configs).run hc with ⟨a, _, ha⟩
  have hn := (ha.nodes n).storage.shows
  have hm := (ha.nodes m).storage.shows
  rcases hn.entry_eq_some he with ⟨hbase, hei, _⟩
  rcases hm.entry_eq_some hd with ⟨_, hdi, _⟩
  have hsucc : i - 1 + 1 = i := by omega
  have hagree : (a.log n).take i = (a.log m).take i := by
    apply Chained.agree (ha.inv.chainedLog n) (ha.inv.chainedLog m)
    · have := (List.getElem?_eq_some_iff.mp hei).1
      omega
    · have := (List.getElem?_eq_some_iff.mp hdi).1
      omega
    · rw [← hsucc, Setting.stampAt_succ_of_getElem? _ hei,
        Setting.stampAt_succ_of_getElem? _ hdi]
      exact hterm
  rcases hn.entry_eq_some he' with ⟨_, hej, _⟩
  rcases hm.entry_eq_some hd' with ⟨_, hdj, _⟩
  have hlt : j - 1 < i := by omega
  rw [← List.getElem?_take_of_lt hlt, hagree, List.getElem?_take_of_lt hlt,
    hdj] at hej
  exact (Option.some.inj hej).symm

theorem log_matching_pair :
    (pairLate.nodes 1).storage.entry 2 = (pairLate.nodes 2).storage.entry 2 ∧
      (⟨1, 1, Command.noop⟩ : Entry) = ⟨1, 1, Command.noop⟩ :=
  ⟨by decide +kernel,
    log_matching (pair_runs.1.trans pair_runs.2) (n := 1) (m := 2) (i := 2)
      (e := ⟨1, 2, Command.data [7]⟩) (d := ⟨1, 2, Command.data [7]⟩)
      (by decide +kernel) (by decide +kernel) rfl (j := 1) (by decide)
      (by decide +kernel) (by decide +kernel)⟩

/-!
# Committed entries
-/

def HoldsCommitted (c : Cluster) (n : NodeId) (i : Nat) (e : Entry) : Prop :=
  i <= (c.nodes n).commitIndex ∧ (c.nodes n).storage.entry i = some e

theorem HoldsCommitted.committed {c : Cluster} {a : Past} (h : Related c a)
    {n : NodeId} {i : Nat} {e : Entry} (he : HoldsCommitted c n i e) :
    Committed a (a.term n) (a.log n) i ∧ 0 < i ∧
      (a.log n)[i - 1]? = some e ∧ e.index = i := by
  rcases (h.nodes n).storage.shows.entry_eq_some he.2 with
    ⟨hbase, hentry, hindex⟩
  exact ⟨(h.nodes n).commit.le he.1, by omega, hentry, hindex⟩

/-- Whatever two nodes hold below their commit indices, now or later, agrees. -/
theorem committed_entries_agree {c d : Cluster} {a b : Past}
    (ha : Related c a) (hb : Related d b) (hrun : Run (setting c.bootstrap) a b)
    {n m : NodeId} {i : Nat} {e e' : Entry} (he : HoldsCommitted c n i e)
    (he' : HoldsCommitted d m i e') : e = e' := by
  rcases he.committed ha with ⟨hcomm, hpos, hentry, _⟩
  rcases he'.committed hb with ⟨hcomm', _, hentry', _⟩
  rcases ha.inv.run_extends hrun with ⟨hinv, hext⟩
  have hagree := hinv.committed_agree (hcomm.mono hext (le_refl _)) hcomm'
    (le_refl i)
  have hlt : i - 1 < i := by omega
  rw [← List.getElem?_take_of_lt hlt, hagree, List.getElem?_take_of_lt hlt,
    hentry'] at hentry
  exact (Option.some.inj hentry).symm

theorem holdsCommitted_of_taken {c : Cluster} {a : Past} (h : Related c a)
    {n : NodeId} {e : Entry} (he : e ∈ (c.nodes n).takeCommitted.2) :
    HoldsCommitted c n e.index e := by
  unfold Node.takeCommitted at he
  rcases List.mem_filterMap.mp he with ⟨i, hi, hentry⟩
  have hindex := ((h.nodes n).storage.shows.entry_eq_some hentry).2.2
  rw [MemStorage.mem_indices] at hi
  rw [hindex]
  exact ⟨hi.2, hentry⟩

theorem state_machine_safety {B : List Member} {configs : NodeId -> Config}
    {c d : Cluster} (hc : FixedRun (start B configs) c) (hd : FixedRun c d)
    {n m : NodeId} {e e' : Entry} (he : e ∈ (c.nodes n).takeCommitted.2)
    (he' : e' ∈ (d.nodes m).takeCommitted.2) (hindex : e.index = e'.index) :
    e = e' := by
  rcases (related_start B configs).run hc with ⟨a, _, ha⟩
  rcases ha.run hd with ⟨b, hab, hb⟩
  have hheld := holdsCommitted_of_taken ha he
  have hheld' := holdsCommitted_of_taken hb he'
  rw [← hindex] at hheld'
  exact committed_entries_agree ha hb hab hheld hheld'

theorem state_machine_safety_pair :
    (⟨1, 1, Command.noop⟩ : Entry) ∈ (pairMid.nodes 1).takeCommitted.2 ∧
      forall e, e ∈ (pairLate.nodes 2).takeCommitted.2 -> e.index = 1 ->
        e = ⟨1, 1, Command.noop⟩ := by
  have hmem : (⟨1, 1, Command.noop⟩ : Entry) ∈
      (pairMid.nodes 1).takeCommitted.2 := by decide +kernel
  refine ⟨hmem, ?_⟩
  intro e he hindex
  exact (state_machine_safety pair_runs.1 pair_runs.2 hmem he hindex.symm).symm

/-!
# Leader completeness
-/

/-- A committed prefix is in the log of every leader of a later term. -/
theorem Related.committed_in_leader {c d : Cluster} {a b : Past}
    (ha : Related c a) (hb : Related d b) (hrun : Run (setting c.bootstrap) a b)
    {n m : NodeId} {i : Nat} (hi : i <= (c.nodes n).commitIndex)
    (hm : (d.nodes m).role = Role.leader)
    (hterm : (c.nodes n).term <= (d.nodes m).term) :
    i <= (a.log n).length ∧ (a.log n).take i <+: b.log m := by
  rcases ha.inv.run_extends hrun with ⟨hinv, hext⟩
  have hcomm := (ha.nodes n).commit.le hi
  have hlead := ((hb.nodes m).leader hm).leader
  rw [(ha.nodes n).term_eq, (hb.nodes m).term_eq] at hterm
  refine ⟨hcomm.1, ?_⟩
  rw [hinv.leaderLog _ m hlead rfl]
  exact hinv.committed_take_record (hcomm.mono hext (le_refl _)) hterm hlead

/-- The entry a later leader holds is the one every node held there that had
committed it, so in particular the one the earlier leader committed. -/
theorem leader_completeness {B : List Member} {configs : NodeId -> Config}
    {c d : Cluster} (hc : FixedRun (start B configs) c) (hd : FixedRun c d)
    {n m : NodeId} {i : Nat} (_hn : (c.nodes n).role = Role.leader)
    (hi : i <= (c.nodes n).commitIndex)
    (hm : (d.nodes m).role = Role.leader)
    (hterm : (c.nodes n).term < (d.nodes m).term) :
    i <= (d.nodes m).storage.snapshotMeta.index ∨
      exists e, (d.nodes m).storage.entry i = some e ∧
        forall (c' : Cluster) (k : NodeId) (e' : Entry),
          FixedRun (start B configs) c' -> FixedRun c' c ->
          HoldsCommitted c' k i e' -> e' = e := by
  rcases Nat.lt_or_ge (d.nodes m).storage.snapshotMeta.index i with hlt | hge
  swap
  · exact Or.inl hge
  right
  rcases (related_start B configs).run hc with ⟨a, _, ha⟩
  rcases ha.run hd with ⟨b, hab, hb⟩
  rcases ha.committed_in_leader hb hab hi hm (Nat.le_of_lt hterm) with
    ⟨hlen, hpre⟩
  have hbound : i <= (b.log m).length := by
    have := hpre.length_le
    rw [List.length_take] at this
    omega
  have hentry : (d.nodes m).storage.entry i = some ((b.log m).get
      ⟨i - 1, by omega⟩) := by
    change (d.nodes m).storage.log.base.index < i at hlt
    rw [MemStorage.entry, (hb.nodes m).storage.shows.entry, if_pos hlt,
      List.get_eq_getElem]
    exact List.getElem?_eq_getElem (by omega)
  refine ⟨_, hentry, ?_⟩
  intro c' k e' hc' hc'c he'
  -- The histories are taken afresh, so that they account for the earlier state.
  rcases (related_start B configs).run hc' with ⟨a', _, ha'⟩
  rcases ha'.run hc'c with ⟨a, haa, ha⟩
  rcases ha.run hd with ⟨b', hab', hb'⟩
  rcases ha.committed_in_leader hb' hab' hi hm (Nat.le_of_lt hterm) with
    ⟨hlen', hpre'⟩
  rcases he'.committed ha' with ⟨hcomm, hpos, hat, _⟩
  rcases ha'.inv.run_extends haa with ⟨hinv, hext⟩
  have hagree := hinv.committed_agree (hcomm.mono hext (le_refl _))
    ((ha.nodes n).commit.le hi) (le_refl i)
  have hin : (b'.log m)[i - 1]? = some e' := by
    apply getElem?_of_prefix hpre'
    rw [← hagree, List.getElem?_take_of_lt (by omega)]
    exact hat
  rcases (hb'.nodes m).storage.shows.entry_eq_some hentry with ⟨_, hheld, _⟩
  rw [hin] at hheld
  exact Option.some.inj hheld

theorem leader_completeness_pair :
    (pairMid.nodes 1).commitIndex = 1 ∧
      (1 <= (pairLate.nodes 2).storage.snapshotMeta.index ∨
        exists e, (pairLate.nodes 2).storage.entry 1 = some e ∧
          forall (c : Cluster) (k : NodeId) (e' : Entry),
            FixedRun pair c -> FixedRun c pairMid ->
            HoldsCommitted c k 1 e' -> e' = e) :=
  ⟨by decide +kernel,
    leader_completeness pair_runs.1 pair_runs.2 (n := 1) (m := 2)
      (by decide +kernel) (by decide +kernel) (by decide +kernel)
      (by decide +kernel)⟩

end Raft
end Minicask
