import Minicask.NumberedLogs
import Minicask.Raft.StorageRefinement

/-!
# The entry log is a log by number

An `EntryLog` keeps its entries by position, and converts every index it is asked
for.  Whatever is done to it, it answers as a map from indices to entries would.
-/

namespace Minicask
namespace Raft

/-- What its storages do to a log.  What is appended has the next index. -/
inductive LogStep where
  | push (term : Nat) (command : Command)
  | truncateFrom (index : Nat)
  | compact (about : SnapshotMeta)
deriving Repr, DecidableEq

namespace LogStep

def take (log : EntryLog) : LogStep -> EntryLog
  | push term command =>
      log.push { term := term, index := log.lastIndex + 1, command := command }
  | truncateFrom index => log.truncateFrom index
  | compact about => (log.compact about).2

/-- What a step does to a log by number. -/
def takeNumbered (l : NumberedLog Nat Entry) : LogStep -> NumberedLog Nat Entry
  | push term command =>
      l.push (fun index => { term := term, index := index, command := command })
  | truncateFrom index => l.truncate index
  | compact about => l.compact Entry.term about.index about.term

end LogStep

namespace EntryLog

/-- The entries are held by index from the base on, without gaps. -/
structure Denotes (log : EntryLog) (l : NumberedLog Nat Entry) : Prop where
  base : l.base = log.base.index
  mark : l.mark = log.base.term
  held : forall i, l.held i = log.entry i
  follows : Follows log.base.index log.entries

/-- Every query of the log is answered as the log by number answers it. -/
structure Agrees (log : EntryLog) (l : NumberedLog Nat Entry) : Prop where
  base : log.base.index = l.base ∧ log.base.term = l.mark
  indices : forall k e, log.entries[k]? = some e ->
    e.index = log.base.index + 1 + k
  lastIndex : log.lastIndex = l.last
  position : forall i, log.position i = l.place i
  termAt : forall i, log.termAt i = l.markAt Entry.term i
  entry : forall i, log.entry i = l.held i
  entriesFrom : forall i, log.entriesFrom i = l.onwards i

end EntryLog

namespace Follows

variable {log : EntryLog} (h : Follows log.base.index log.entries)

include h

theorem entry_isSome (i : Nat) :
    (log.entry i).isSome ↔ log.base.index < i ∧ i <= log.lastIndex := by
  rw [h.entry, h.lastIndex]
  split
  · rw [Option.isSome_iff_ne_none, ne_eq, List.getElem?_eq_none_iff]
    omega
  · next hi => simp [hi]

/-- In 64 bits the index after the largest base of all wraps to zero.  Nothing is
held after that base, wherever the search starts. -/
theorem position_wrapped (hlast : log.lastIndex < 2 ^ 64) (i : Nat) :
    log.position (max i ((log.base.index + 1) % 2 ^ 64)) =
      log.position (max i (log.base.index + 1)) := by
  have hbase := h.lastIndex
  rcases Nat.lt_or_ge (log.base.index + 1) (2 ^ 64) with hlt | hge
  · rw [Nat.mod_eq_of_lt hlt]
  · have hwrap : (log.base.index + 1) % 2 ^ 64 = 0 := by omega
    have hempty : log.lastIndex = log.base.index := by omega
    unfold EntryLog.position
    rw [hwrap, hempty, if_pos (by omega), if_pos (by omega)]

/-- Asked for one after another, the entries come in the order they are kept in. -/
theorem filterMap_entry (p count : Nat)
    (hcount : p + count = log.entries.length) :
    (List.range' (log.base.index + 1 + p) count).filterMap log.entry =
      log.entries.drop p := by
  induction count generalizing p with
  | zero =>
      rw [List.drop_eq_nil_of_le (by omega)]
      rfl
  | succ count ih =>
      have hlt : p < log.entries.length := by omega
      have hplace : log.base.index + 1 + p - log.base.index - 1 = p := by
        omega
      have hentry : log.entry (log.base.index + 1 + p) =
          some (log.entries.get ⟨p, hlt⟩) := by
        rw [h.entry, if_pos (by omega), hplace]
        exact List.getElem?_eq_getElem hlt
      have hrest : p + 1 + count = log.entries.length := by omega
      rw [List.range'_succ, List.filterMap_cons_some hentry,
        List.drop_eq_getElem_cons hlt, Nat.add_assoc _ p 1, ih (p + 1) hrest]
      rfl

end Follows

namespace EntryLog.Denotes

variable {log : EntryLog} {l : NumberedLog Nat Entry} (h : log.Denotes l)

include h

theorem keys : l.keys = Finset.Ioc l.base log.lastIndex := by
  ext i
  rw [l.mem_keys, h.held, h.follows.entry_isSome, Finset.mem_Ioc, h.base]

theorem base_le : l.base <= log.lastIndex := by
  rw [h.base, h.follows.lastIndex]
  exact Nat.le_add_right _ _

theorem last : l.last = log.lastIndex :=
  NumberedLog.last_eq h.keys h.base_le

theorem agrees : log.Agrees l where
  base := ⟨h.base.symm, h.mark.symm⟩
  indices := fun _ _ hk => h.follows.index hk
  lastIndex := h.last.symm
  position := by
    intro i
    rw [NumberedLog.place_eq h.keys, h.base]
    unfold EntryLog.position
    split
    · rw [if_neg (by omega)]
    · rw [if_pos (by omega)]
  termAt := by
    intro i
    unfold EntryLog.termAt NumberedLog.markAt
    rw [h.base, h.mark, h.held]
  entry := fun i => (h.held i).symm
  entriesFrom := by
    intro i
    have hheld : l.held = log.entry := funext h.held
    have hlast := h.follows.lastIndex
    rw [NumberedLog.onwards_eq h.keys, h.base, hheld]
    unfold EntryLog.entriesFrom EntryLog.position
    rcases Nat.lt_or_ge log.lastIndex (max i (log.base.index + 1)) with hpast | hin
    · rw [if_pos (Or.inr hpast), Nat.sub_eq_zero_of_le hpast]
      rfl
    · rw [if_neg (by omega)]
      have hstart : max i (log.base.index + 1) =
          log.base.index + 1 + (max i (log.base.index + 1) - log.base.index - 1) := by
        omega
      have hall := h.follows.filterMap_entry
        (max i (log.base.index + 1) - log.base.index - 1)
        (log.lastIndex + 1 - max i (log.base.index + 1)) (by omega)
      rw [← hstart] at hall
      exact hall.symm

/-- By its place, an entry is held at its index. -/
theorem held_eq {i : Nat} (hi : log.base.index < i) :
    l.held i = log.entries[i - log.base.index - 1]? := by
  rw [h.held, h.follows.entry, if_pos hi]

omit h in
theorem of_held {log : EntryLog} {l : NumberedLog Nat Entry}
    (hbase : l.base = log.base.index) (hmark : l.mark = log.base.term)
    (hfollows : Follows log.base.index log.entries)
    (hheld : forall i, log.base.index < i ->
      l.held i = log.entries[i - log.base.index - 1]?) : log.Denotes l := by
  refine ⟨hbase, hmark, ?_, hfollows⟩
  intro i
  rw [hfollows.entry]
  split
  · next hi => exact hheld i hi
  · next hi =>
      rw [← Option.not_isSome_iff_eq_none, ← l.mem_keys]
      intro hmem
      have hlater := l.later i hmem
      omega

/-!
# Steps
-/

theorem push (term : Nat) (command : Command) :
    (log.push { term := term, index := log.lastIndex + 1, command := command }).Denotes
      (l.push (fun index =>
        { term := term, index := index, command := command })) := by
  have hlast := h.follows.lastIndex
  refine of_held h.base h.mark
    (h.follows.append ⟨by dsimp only; omega, trivial⟩) ?_
  intro i hi
  unfold NumberedLog.push EntryLog.push at *
  dsimp only at *
  rw [h.last]
  by_cases hnext : i = log.lastIndex + 1
  · have hend : i - log.base.index - 1 = log.entries.length := by omega
    rw [hend, List.getElem?_concat_length, hnext, Function.update_self]
  · rw [Function.update_of_ne hnext, h.held_eq hi]
    rcases Nat.lt_or_ge (i - log.base.index - 1) log.entries.length with hlt | hge
    · rw [List.getElem?_append_left hlt]
    · rw [List.getElem?_eq_none hge, List.getElem?_eq_none]
      rw [List.length_append, List.length_singleton]
      omega

theorem truncateFrom (index : Nat) :
    (log.truncateFrom index).Denotes (l.truncate index) := by
  refine of_held h.base h.mark (h.follows.take _) ?_
  intro i hi
  unfold NumberedLog.truncate EntryLog.truncateFrom at *
  dsimp only at *
  have hkeep : i - log.base.index - 1 <
      (if index <= log.base.index then 0
        else min (index - log.base.index - 1) log.entries.length) ↔
        i < index ∧ i - log.base.index - 1 < log.entries.length := by
    split
    · omega
    · omega
  rw [h.held_eq hi, List.getElem?_take]
  simp only [hkeep]
  rcases Nat.lt_or_ge (i - log.base.index - 1) log.entries.length with hlt | hge
  · simp only [hlt, and_true]
  · rw [List.getElem?_eq_none hge, ite_self, ite_self]

theorem compact (about : SnapshotMeta) :
    (log.compact about).2.Denotes
      (l.compact Entry.term about.index about.term) := by
  rcases Nat.lt_or_ge log.base.index about.index with hnewer | holder
  · have hmark : l.markAt Entry.term about.index =
        (log.entry about.index).map Entry.term := by
      unfold NumberedLog.markAt
      rw [h.base, if_neg (Nat.ne_of_gt hnewer), h.held]
    have hnotle : ¬ about.index <= l.base := by
      rw [h.base]
      exact Nat.not_le.mpr hnewer
    have hfollows := EntryLog.follows_compact hnewer h.follows
    rw [EntryLog.compact_snd hnewer] at hfollows ⊢
    unfold NumberedLog.compact
    rw [if_neg hnotle]
    refine of_held rfl rfl hfollows ?_
    intro i hi
    dsimp only at hi ⊢
    rw [hmark]
    split
    · next hkept =>
        rw [if_pos hkept.2, List.getElem?_drop, h.held_eq (Nat.lt_trans hnewer hi)]
        congr 1
        omega
    · next hgone =>
        rw [if_neg (fun hsame => hgone ⟨hi, hsame⟩)]
        rfl
  · unfold EntryLog.compact NumberedLog.compact
    rw [if_pos holder, if_pos (by rwa [h.base])]
    exact h

theorem take (step : LogStep) :
    (LogStep.take log step).Denotes (LogStep.takeNumbered l step) := by
  cases step with
  | push term command => exact h.push term command
  | truncateFrom index => exact h.truncateFrom index
  | compact about => exact h.compact about

theorem run (steps : List LogStep) :
    (steps.foldl LogStep.take log).Denotes
      (steps.foldl LogStep.takeNumbered l) := by
  induction steps generalizing log l with
  | nil => exact h
  | cons step steps ih => exact ih (h.take step)

end EntryLog.Denotes

theorem EntryLog.denotes_empty (base : SnapshotMeta) :
    EntryLog.Denotes { base := base } (NumberedLog.empty base.index base.term) :=
  EntryLog.Denotes.of_held rfl rfl trivial (fun _ _ => rfl)

/-- Whatever is pushed, truncated and compacted, the entry log answers as the log
by number to which the same is done. -/
theorem entry_log_agrees (base : SnapshotMeta) (steps : List LogStep) :
    (steps.foldl LogStep.take { base := base }).Agrees
      (steps.foldl LogStep.takeNumbered
        (NumberedLog.empty base.index base.term)) :=
  ((EntryLog.denotes_empty base).run steps).agrees

/-!
# Storages in use
-/

theorem steps_of_append {log : EntryLog} {entries : List Entry}
    (h : Follows log.lastIndex entries) :
    exists steps : List LogStep,
      entries.foldl EntryLog.push log = steps.foldl LogStep.take log := by
  induction entries generalizing log with
  | nil => exact ⟨[], rfl⟩
  | cons e entries ih =>
      have hpush : LogStep.take log (LogStep.push e.term e.command) = log.push e := by
        unfold LogStep.take
        rw [← h.1]
      have hlast : (log.push e).lastIndex = e.index := by
        unfold EntryLog.push EntryLog.lastIndex
        dsimp only
        rw [List.getLast?_concat]
      have hrest : Follows (log.push e).lastIndex entries := by
        rw [hlast]
        exact h.2
      rcases ih hrest with ⟨steps, hsteps⟩
      refine ⟨LogStep.push e.term e.command :: steps, ?_⟩
      rw [List.foldl_cons, List.foldl_cons, hpush]
      exact hsteps

theorem steps_of_installSnapshot (s : MemStorage) (sink : MemSnapshot) :
    exists steps : List LogStep,
      (s.installSnapshot sink).log = steps.foldl LogStep.take s.log := by
  rcases Nat.lt_or_ge s.log.base.index sink.about.index with hnewer | hstale
  · refine ⟨[LogStep.compact sink.about], ?_⟩
    rw [MemStorage.installSnapshot_mem hnewer]
    rfl
  · refine ⟨[], ?_⟩
    rw [MemStorage.installSnapshot_stale hstale]
    rfl

theorem steps_of_call {c : MemClient} {call : StorageCall} (h : c.Allows call) :
    exists steps : List LogStep,
      (c.call call).storage.log = steps.foldl LogStep.take c.storage.log := by
  cases call with
  | append stamp entries => exact steps_of_append h.1
  | truncateFrom index => exact ⟨[LogStep.truncateFrom index], rfl⟩
  | installSnapshot stamp slot =>
      show exists steps : List LogStep,
        (c.installSnapshot slot).storage.log = steps.foldl LogStep.take c.storage.log
      unfold MemClient.installSnapshot
      split
      · exact ⟨[], rfl⟩
      · next sink _ => exact steps_of_installSnapshot c.storage sink
  | _ => exact ⟨[], rfl⟩

theorem steps_of_run {c : MemClient} {calls : List StorageCall}
    (h : c.AllowsAll calls) :
    exists steps : List LogStep,
      (c.run calls).storage.log = steps.foldl LogStep.take c.storage.log := by
  induction calls generalizing c with
  | nil => exact ⟨[], rfl⟩
  | cons call calls ih =>
      rcases steps_of_call h.1 with ⟨steps, hsteps⟩
      rcases ih h.2 with ⟨more, hmore⟩
      refine ⟨steps ++ more, ?_⟩
      rw [List.foldl_append, ← hsteps, ← hmore]
      rfl

/-- In every run of calls, both storages answer from a log by number. -/
theorem storages_denote (stamp : Entry -> UInt64) (calls : List StorageCall)
    (hallows : ({} : MemClient).AllowsAll calls) :
    exists s c l, DiskStorage.openDir {} stamp = Except.ok s ∧
      DiskClient.run { storage := s } calls = Except.ok c ∧
      c.storage.log.Denotes l ∧
      (({} : MemClient).run calls).storage.log.Denotes l := by
  have hempty : ({} : RaftDir).disk.Holds {} := holds_empty
  rcases DiskStorage.openDir_spec hempty stamp with ⟨s, hopen, hstores, _⟩
  rcases (ClientStores.opened hstores).run hallows with ⟨c, hrun, hlast⟩
  rcases steps_of_run hallows with ⟨steps, hsteps⟩
  have hdenotes := (EntryLog.denotes_empty {}).run steps
  rw [show steps.foldl LogStep.take { base := {} } =
    (({} : MemClient).run calls).storage.log from hsteps.symm] at hdenotes
  refine ⟨s, c, _, hopen, hrun, ?_, hdenotes⟩
  rw [hlast.storage.log]
  exact hdenotes

end Raft
end Minicask
