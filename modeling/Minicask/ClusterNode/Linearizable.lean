import Minicask.ClusterNode.Answers
import Minicask.Replicated.Chronicles

/-!
# Calls in the order of the log

Clients read and write at any replicas of a fleet, at any time.  Every answer is that of
one log at one point of it, and the points are in the order in which the clients have
seen their calls begin and end.
-/

namespace Minicask
namespace ClusterNode

open Replicated Resp
open Raft hiding Event

/-!
# Where a write lands
-/

theorem le_of_batchEntries {term maxEntryBytes : Nat} {commands : List Bytes}
    {next k index : Nat}
    (h : (Node.batchEntries term maxEntryBytes next commands).2[k]? =
      some (Except.ok index)) : next <= index := by
  induction commands generalizing next k with
  | nil => cases h
  | cons first commands ih =>
      unfold Node.batchEntries at h
      dsimp only at h
      by_cases hsize : first.length + entryOverhead > maxEntryBytes
      · rw [if_pos hsize] at h
        cases k with
        | zero => cases h
        | succ k => exact ih h
      · rw [if_neg hsize] at h
        cases k with
        | zero =>
            cases h
            exact Nat.le_refl _
        | succ k => exact Nat.le_of_succ_le (ih h)

theorem proposeBatch_leads {n n' : Node} {commands : List Bytes}
    {answers : List (Except ProposeError Nat)} {actions : List Action}
    (h : n.proposeBatch commands = Except.ok (n', answers, actions)) :
    n.role = Role.leader := by
  unfold Node.proposeBatch at h
  split at h
  · cases h
  · next hrole => exact not_not.mp hrole

/-- A command that has landed was handed to a leader, which has put it behind all that
it had. -/
theorem proposeWrites_landed {book : AddressBook} {r : ReplicatedStore}
    {commands : List Bytes} {k index term : Nat} {command : Bytes}
    (hcommand : commands[k]? = some command)
    (hlanded : (proposeWrites book r commands).2.1[k]? =
      some (Except.ok (index, term))) :
    r.node.role = Role.leader ∧ term = r.node.term ∧
      r.node.storage.lastIndex < index ∧
      (proposeWrites book r commands).1.node.term = term ∧
      { term := term, index := index, command := Command.data command } ∈
        (proposeWrites book r commands).1.node.storage.log.entries := by
  unfold proposeWrites at hlanded ⊢
  dsimp only at hlanded ⊢
  cases hproposed : r.proposeBatch commands with
  | error why =>
      rw [hproposed] at hlanded
      dsimp only at hlanded
      cases List.eq_of_mem_replicate (List.mem_of_getElem? hlanded)
  | ok done =>
      rw [hproposed] at hlanded
      rcases Fallible.map_eq_ok hproposed with ⟨⟨n, answers, actions⟩, hbatch, rfl⟩
      dsimp only at hlanded ⊢
      rcases proposeBatch_ok hbatch with ⟨hanswers, hstorage⟩
      rw [List.getElem?_map] at hlanded
      rcases Option.map_eq_some_iff.mp hlanded with ⟨answer, hanswer, heq⟩
      cases answer with
      | error why => cases heq
      | ok landed =>
          cases heq
          rw [hanswers] at hanswer
          refine ⟨proposeBatch_leads hbatch, rfl, le_of_batchEntries hanswer, ?_, ?_⟩
          · unfold Node.term
            rw [hstorage]
            rfl
          · rw [hstorage, append_log]
            exact List.mem_append_right _ (mem_batchEntries hcommand hanswer)

/-!
# What clients ask and are told
-/

inductive Ticket where
  | read (request : ReadRequest)
  | write (index term : Nat) (command : Bytes)

/-- A client asks a replica.  A replica that does not lead forwards a read, and no answer
to the number of its question may be around. -/
inductive Asks (f g : Fleet) (n : NodeId) : Ticket -> Prop where
  | read {s : System} (hup : f.hosts n = Stage.up s)
      (hmay : s.replica.node.role = Role.leader ∨ f.Unanswered n s)
      (hasked : g = f.ask n s) : Asks f g n (Ticket.read s.replica.readIndex.2.1)
  | write {s : System} {book : AddressBook} {commands : List Bytes}
      {k index term : Nat} {command : Bytes} (hup : f.hosts n = Stage.up s)
      (hcommand : commands[k]? = some command)
      (hlanded : (proposeWrites book s.replica commands).2.1[k]? =
        some (Except.ok (index, term)))
      (hasked : g = f.put n
        (Stage.up { s with replica := (proposeWrites book s.replica commands).1 })
        (proposeWrites book s.replica commands).2.2) :
      Asks f g n (Ticket.write index term command)

/-- A client has its answer, which goes by the log up to a point.  Where a write is
answered in a later term, the log still has its entry. -/
inductive Answers (f : Fleet) (n : NodeId) : Ticket -> Nat -> Prop where
  | read {t : System} {request : ReadRequest} {i : Nat}
      (hup : f.hosts n = Stage.up t)
      (hready : t.replica.readState request = ReadState.ready i) :
      Answers f n (Ticket.read request) t.replica.applied
  | write {t : System} {index term : Nat} {command : Bytes}
      (hup : f.hosts n = Stage.up t)
      (hok : writeCheck index term t.replica = some Reply.ok)
      (hown : (t.replica.node.role = Role.leader ∧ t.replica.node.term = term) ∨
        t.replica.node.storage.entry index = some
          { term := term, index := index, command := Command.data command }) :
      Answers f n (Ticket.write index term command) index

/-- A call that begins at one moment of a run and ends at another. -/
structure Served (run : Nat -> Fleet) (k l : Nat) (n : NodeId) (ticket : Ticket)
    (point : Nat) : Prop where
  asked : Asks (run k) (run (k + 1)) n ticket
  later : k < l
  answered : Answers (run l) n ticket point

/-- Calls answered by one log.  A read is answered with what the log comes to at its
point; a write is the entry at its point; a call that begins when another has ended has a
later point, which only a read may share with what came before. -/
structure Linearizes (c : Committed) (run : Nat -> Fleet) : Prop where
  reads : forall {k l n request p}, Served run k l n (Ticket.read request) p ->
    exists t, (run l).hosts n = Stage.up t ∧
      (forall key, t.replica.get key = Except.ok (c.contents p key)) ∧
      forall key, key ∈ t.replica.store.keys ↔ (c.contents p key).isSome
  writes : forall {k l n index term command p},
    Served run k l n (Ticket.write index term command) p ->
      c.entry p = { term := term, index := p, command := Command.data command }
  positive : forall {k l n index term command p},
    Served run k l n (Ticket.write index term command) p -> 0 < p
  order : forall {k l n ticket p k' l' n' ticket' p'},
    Served run k l n ticket p -> Served run k' l' n' ticket' p' -> l <= k' -> p <= p'
  above : forall {k l n ticket p k' l' n' index term command p'},
    Served run k l n ticket p ->
      Served run k' l' n' (Ticket.write index term command) p' -> l <= k' -> p < p'
  apart : forall {k l n index term command k' l' n' index' term' command' p},
    Served run k l n (Ticket.write index term command) p ->
      Served run k' l' n' (Ticket.write index' term' command') p -> k = k' ∧ n = n'

theorem writeCheck_ok {index term : Nat} {r : ReplicatedStore}
    (h : writeCheck index term r = some Reply.ok) : index <= r.applied := by
  unfold writeCheck at h
  split at h
  · next hreached => exact hreached
  · split at h
    · cases h
    · cases h

section Calls

variable {B : List Member} {allowed : Bytes -> Prop} {run : Nat -> Fleet}
  {a : Nat -> Past} {known : Nat -> Nat -> Entry -> Prop} {k l : Nat} {n : NodeId}

theorem asks_landed (h : Chronicle B allowed run a known) {index term : Nat}
    {command : Bytes}
    (hasks : Asks (run k) (run (k + 1)) n (Ticket.write index term command)) :
    Landed (a k) (a (k + 1)) n
        { term := term, index := index, command := Command.data command } ∧
      Entry.Allowed allowed
        { term := term, index := index, command := Command.data command } := by
  cases hasks with
  | @write s book commands j _ _ _ hup hcommand hlanded hasked =>
      rcases proposeWrites_landed hcommand hlanded with
        ⟨hrole, hterm, hfresh, hkept, hmem⟩
      have hbefore := (h.tracked k).traced.hosts n
      have hafter := (h.tracked (k + 1)).traced.hosts n
      have hholds := (h.tracked (k + 1)).holds n
      rw [hup] at hbefore
      rw [hasked, Fleet.put_self] at hafter hholds
      have hleader := (hbefore.1.leader hrole).leader
      rw [← hbefore.1.term_eq, ← hterm] at hleader
      have hbelow : (a k).term n = term := by
        rw [← hbefore.1.term_eq, hterm]
      have habove : (a (k + 1)).term n = term := by
        rw [← hafter.1.term_eq]
        exact hkept
      have hleads := (h.extends_since (Nat.le_succ k)).leader term n hleader
      refine ⟨⟨hleader, ?_, ?_⟩, hholds _ hmem⟩
      · rw [← (h.inv k).leaderLog term n hleader hbelow,
          ← hbefore.1.storage.shows.lastIndex]
        exact hfresh
      · rw [← (h.inv (k + 1)).leaderLog term n hleads habove]
        have hentry := (MemStorage.follows_of_shows hafter.1.storage.shows).entry_of_mem hmem
        exact (hafter.1.storage.shows.entry_eq_some hentry).2.1

theorem answers_applied {f : Fleet} {ticket : Ticket} {p : Nat}
    (h : Answers f n ticket p) : p <= (f.hosts n).applied := by
  cases h with
  | read hup hready =>
      rw [hup]
      exact Nat.le_refl _
  | write hup hok hown =>
      rw [hup]
      exact writeCheck_ok hok

theorem served_recorded (h : Chronicle B allowed run a known) {index term : Nat}
    {command : Bytes} {p : Nat}
    (hserved : Served run k l n (Ticket.write index term command) p) :
    p = index ∧ Replicated.Recorded (a l) index
      { term := term, index := index, command := Command.data command } := by
  rcases asks_landed h hserved.asked with ⟨hlanded, _⟩
  have hreaches := (h.tracked l).reached n
  have hhosted := (h.tracked l).traced.hosts n
  cases hserved.answered with
  | @write t _ _ _ hup hok hown =>
      rw [hup] at hreaches hhosted
      refine ⟨rfl, recorded_of_reaches
        (Nat.lt_of_le_of_lt (Nat.zero_le _) hlanded.fresh) hreaches
        (writeCheck_ok hok) ?_⟩
      rcases hown with ⟨hrole, hterm⟩ | hentry
      · have hleader := (hhosted.1.leader hrole).leader
        have hlog := (h.inv l).leaderLog _ n hleader rfl
        rw [hlog, ← hhosted.1.term_eq, hterm]
        exact hlanded.later (h.extends_since hserved.later)
      · exact (hhosted.1.storage.shows.entry_eq_some hentry).2.1

/-- Whatever a client was told about was committed then. -/
theorem served_counted (h : Chronicle B allowed run a known) {ticket : Ticket}
    {p k' : Nat} (hserved : Served run k l n ticket p) (hlater : l <= k') :
    exists U, p <= (a k').commit U := by
  rcases ((h.tracked l).reached n).counted with ⟨U, hU⟩
  exact ⟨U, (Nat.le_trans (answers_applied hserved.answered) hU).trans
    ((h.extends_since hlater).commit U)⟩

theorem served_above (h : Chronicle B allowed run a known) {ticket : Ticket}
    {p k' l' : Nat} {n' : NodeId} {index term : Nat} {command : Bytes} {p' : Nat}
    (hserved : Served run k l n ticket p)
    (hwrite : Served run k' l' n' (Ticket.write index term command) p')
    (hlater : l <= k') : p < p' := by
  rcases served_counted h hserved hlater with ⟨U, hU⟩
  rcases served_recorded h hwrite with ⟨rfl, hrecorded⟩
  exact (asks_landed h hwrite.asked).1.above (h.inv k') (h.inv l')
    (h.extends_since (Nat.le_of_lt hwrite.later)) hrecorded hU

theorem served_order (h : Chronicle B allowed run a known) {ticket ticket' : Ticket}
    {p k' l' : Nat} {n' : NodeId} {p' : Nat} (hserved : Served run k l n ticket p)
    (hserved' : Served run k' l' n' ticket' p') (hlater : l <= k') : p <= p' := by
  cases ticket' with
  | write index term command =>
      exact Nat.le_of_lt (served_above h hserved hserved' hlater)
  | read request =>
      rcases served_counted h hserved hlater with ⟨U, hU⟩
      cases hserved'.answered with
      | @read t _ i hread hready =>
          rcases readState_ready hready with ⟨hready, hreached⟩
          generalize hticket : Ticket.read request = ticket at hserved'
          cases hserved'.asked with
          | write => cases hticket
          | read hup hmay hasked =>
              cases hticket
              exact (hU.trans (h.read_covers hserved'.later hup hmay hasked hread
                hready U)).trans hreached

end Calls

/-- All calls of a run are answered by one log. -/
theorem exists_linearization {B : List Member} {allowed : Bytes -> Prop}
    (hallowed : forall command, allowed command -> Writes command)
    {run : Nat -> Fleet} (hrun : Story B allowed run) :
    exists c : Committed, c.Short ∧ (forall i, (c.entry i).Allowed allowed) ∧
      (forall k, (run k).Folds c) ∧ Linearizes c run := by
  rcases hrun.exists_chronicle hallowed with ⟨a, known, h⟩
  rcases h.exists_log hallowed with ⟨c, hshort, hcommands, hrecords, hfolds⟩
  have hentry : forall {k l n index term command p},
      Served run k l n (Ticket.write index term command) p -> p = index ∧
        c.entry p =
          { term := term, index := p, command := Command.data command } := by
    intro k l n index term command p hserved
    rcases served_recorded h hserved with ⟨rfl, hrecorded⟩
    exact ⟨rfl, hrecords _ _ ⟨(asks_landed h hserved.asked).2, l, hrecorded⟩⟩
  refine ⟨c, hshort, hcommands, hfolds, ?_, fun hserved => (hentry hserved).2, ?_,
    served_order h, served_above h, ?_⟩
  · intro k l n request p hserved
    cases hserved.answered with
    | @read t _ i hread hready => exact ⟨t, hread, hfolds l n t hread⟩
  · intro k l n index term command p hserved
    rcases served_recorded h hserved with ⟨rfl, hpos, _⟩
    exact hpos
  · intro k l n index term command k' l' n' index' term' command' p hserved hserved'
    rcases hentry hserved with ⟨rfl, hmine⟩
    rcases hentry hserved' with ⟨rfl, hsame⟩
    rw [hmine] at hsame
    cases hsame
    have hlanded := (asks_landed h hserved.asked).1
    have hlanded' := (asks_landed h hserved'.asked).1
    rcases Nat.lt_trichotomy k k' with hlt | heq | hgt
    · exact (hlanded.once hlanded' (h.extends_since hlt)).elim
    · subst heq
      exact ⟨rfl, Option.some.inj (hlanded.leader.symm.trans hlanded'.leader)⟩
    · exact (hlanded'.once hlanded (h.extends_since hgt)).elim

end ClusterNode
end Minicask
