import Minicask.Raft.Follows
import Minicask.Raft.Moves

/-!
# What a message with entries does to a log

For entries that follow the index they are offered after, and a log without gaps.  The
log keeps what it had up to the first entry that conflicts, and ends no earlier than
the message does.
-/

namespace Minicask
namespace Raft

section Accepting

variable {s : MemStorage} (h : Follows s.log.base.index s.log.entries)

include h

/-- The scan stops at the end of the message, at the end of the log, or at a
conflict. -/
theorem matching_cases (es : List Entry) {prev : Nat}
    (hlow : s.log.base.index <= prev) (hhigh : prev <= s.lastIndex) :
    exists held conflict,
      Node.matching s (prev + 1) es = (held, conflict) ∧ held <= es.length ∧
        prev + held <= s.lastIndex ∧
        ((conflict = none ∧
            (held = es.length ∨ prev + held = s.lastIndex)) ∨
          (conflict = some (prev + held + 1) ∧
            exists e old, es[held]? = some e ∧
              s.entry (prev + held + 1) = some old ∧ old.term ≠ e.term)) := by
  induction es generalizing prev with
  | nil =>
      refine ⟨0, none, rfl, Nat.le_refl 0, hhigh, Or.inl ⟨rfl, Or.inl rfl⟩⟩
  | cons e rest ih =>
      have hlast : s.lastIndex = s.log.base.index + s.log.entries.length :=
        h.lastIndex
      have hterm : s.termAt (prev + 1) = (s.entry (prev + 1)).map Entry.term := by
        show s.log.termAt (prev + 1) = (s.log.entry (prev + 1)).map Entry.term
        rw [h.termAt_eq (by omega), h.entry, if_pos (by omega)]
      unfold Node.matching
      rw [hterm]
      cases hentry : s.entry (prev + 1) with
      | none =>
          refine ⟨0, none, rfl, Nat.zero_le _, hhigh, Or.inl ⟨rfl, Or.inr ?_⟩⟩
          have hnone : s.log.entry (prev + 1) = none := hentry
          rw [h.entry, if_pos (by omega), List.getElem?_eq_none_iff] at hnone
          omega
      | some old =>
          have hsome : s.log.entry (prev + 1) = some old := hentry
          rw [h.entry, if_pos (by omega)] at hsome
          have hlt := (List.getElem?_eq_some_iff.mp hsome).1
          dsimp only [Option.map_some]
          by_cases hsame : old.term = e.term
          · rw [if_pos hsame]
            obtain ⟨held, conflict, heq, hle, hin, hstop⟩ :=
              @ih (prev + 1) (by omega) (by omega)
            rw [heq]
            refine ⟨held + 1, conflict, rfl, Nat.succ_le_succ hle, by omega, ?_⟩
            rcases hstop with ⟨hnone, hend⟩ | ⟨hat, other, found, hother, hfound,
              hne⟩
            · refine Or.inl ⟨hnone, ?_⟩
              rw [List.length_cons]
              omega
            · have hshift : prev + 1 + held + 1 = prev + (held + 1) + 1 := by
                omega
              rw [hshift] at hat hfound
              exact Or.inr ⟨hat, other, found, hother, hfound, hne⟩
          · rw [if_neg hsame]
            exact ⟨0, some (prev + 1), rfl, Nat.zero_le _, hhigh,
              Or.inr ⟨rfl, e, old, rfl, hentry, hsame⟩⟩

end Accepting

/-- A log after a message: it ends with the message or later, and gives up entries only
at one that conflicts. -/
structure Overwrites (before after : EntryLog) (prev : Nat) (es : List Entry)
    (keep : Nat) (fresh : List Entry) : Prop where
  log : after = { before with entries := before.entries.take keep ++ fresh }
  follows : Follows before.base.index (before.entries.take keep ++ fresh)
  part : fresh <:+ es
  covers : prev + es.length <=
    before.base.index + (before.entries.take keep ++ fresh).length
  conflict : keep < before.entries.length ->
    exists e old, e ∈ es ∧ before.entries[keep]? = some old ∧
      e.index = before.base.index + keep + 1 ∧ old.term ≠ e.term

theorem append_log (s : MemStorage) (es : List Entry) :
    (s.append es).log = { s.log with entries := s.log.entries ++ es } :=
  foldl_push es s.log

theorem acceptEntries_log {n : Node}
    (h : Follows n.storage.log.base.index n.storage.log.entries) {prev t : Nat}
    {es : List Entry} (hes : Follows prev es)
    (hterm : n.storage.termAt prev = some t) :
    exists keep fresh, Overwrites n.storage.log
      (n.acceptEntries prev es).storage.log prev es keep fresh := by
  have hlast : n.storage.lastIndex =
      n.storage.log.base.index + n.storage.log.entries.length := h.lastIndex
  obtain ⟨hlow, hhigh⟩ := h.termAt_le hterm
  obtain ⟨held, conflict, hmatching, hheld, hin, hstop⟩ :=
    matching_cases h es hlow (by omega)
  have hrest : Follows (prev + held) (es.drop held) := hes.drop hheld
  have hstorage : (n.acceptEntries prev es).storage =
      (conflict.elim n.storage n.storage.truncateFrom).append
        (es.drop held) := by
    obtain ⟨appendFrom, found, hfound, hcases⟩ := acceptEntries_cases n prev es
    rw [hmatching] at hfound
    obtain ⟨rfl, rfl⟩ := Prod.mk.inj hfound
    rcases hcases with hreload | ⟨_, _, hquiet⟩
    · have hreloaded := congrArg Node.storage hreload
      rw [storage_reloadMembership] at hreloaded
      cases conflict <;> exact hreloaded
    · have hsame := congrArg Node.storage hquiet
      cases conflict <;> exact hsame
  rw [hstorage, append_log]
  have hdrop : (es.drop held).length = es.length - held := List.length_drop
  rcases hstop with ⟨rfl, hend⟩ | ⟨rfl, e, old, he, hold, hne⟩
  · rw [Option.elim_none]
    refine ⟨n.storage.log.entries.length, es.drop held, ?_, ?_,
      List.drop_suffix held es, ?_, ?_⟩
    · rw [List.take_length]
    · rw [List.take_length]
      apply h.append
      rcases hend with hall | hlog
      · rw [hall, List.drop_length]
        trivial
      · rwa [← hlast, ← hlog]
    · rw [List.take_length, List.length_append, hdrop]
      omega
    · intro hlt
      omega
  · rw [Option.elim_some]
    have hentry : n.storage.log.entry (prev + held + 1) = some old := hold
    rw [h.entry, if_pos (by omega)] at hentry
    have hlt := (List.getElem?_eq_some_iff.mp hentry).1
    have hkeep : prev + held + 1 - n.storage.log.base.index - 1 =
        prev + held - n.storage.log.base.index := by
      omega
    rw [hkeep] at hentry hlt
    have hcut : (n.storage.truncateFrom (prev + held + 1)).log =
        { n.storage.log with
          entries := n.storage.log.entries.take
            (prev + held - n.storage.log.base.index) } := by
      show n.storage.log.truncateFrom (prev + held + 1) = _
      unfold EntryLog.truncateFrom
      rw [if_neg (by omega), hkeep, Nat.min_eq_left (by omega)]
    have htake : (n.storage.log.entries.take
        (prev + held - n.storage.log.base.index)).length =
        prev + held - n.storage.log.base.index :=
      List.length_take_of_le (by omega)
    refine ⟨prev + held - n.storage.log.base.index, es.drop held, ?_, ?_,
      List.drop_suffix held es, ?_, ?_⟩
    · dsimp only
      rw [hcut]
    · apply (h.take _).append
      rw [htake]
      have hback : n.storage.log.base.index +
          (prev + held - n.storage.log.base.index) = prev + held := by
        omega
      rwa [hback]
    · rw [List.length_append, htake, hdrop]
      omega
    · intro _
      refine ⟨e, old, List.mem_of_getElem? he, hentry, ?_, hne⟩
      rw [hes.index he]
      omega

def Accepts (log : EntryLog) (prevLogIndex prevLogTerm : Nat)
    (entries : List Entry) : Prop :=
  exists prev term rest,
    Node.pastSnapshot { log := log } prevLogIndex prevLogTerm entries =
        some (prev, term, rest) ∧
      log.termAt prev = some term

/-- What lies past the snapshot of a message whose entries follow its index follows the
index it starts after. -/
theorem pastSnapshot_follows {s : MemStorage} {prevLogIndex prevLogTerm : Nat}
    {entries : List Entry} (hentries : Follows prevLogIndex entries)
    {prev term : Nat} {rest : List Entry}
    (h : Node.pastSnapshot s prevLogIndex prevLogTerm entries =
      some (prev, term, rest)) :
    Follows prev rest ∧ rest <:+ entries := by
  constructor
  · rcases pastSnapshot_some h with
      ⟨_, rfl, rfl, rfl⟩ | ⟨hbefore, hskip, rfl, rfl, rfl⟩
    · exact hentries
    · have hdrop := hentries.drop (Nat.le_of_lt hskip)
      rw [Nat.add_sub_cancel' (Nat.le_of_lt hbefore)] at hdrop
      exact hdrop
  · exact pastSnapshot_suffix h

end Raft
end Minicask
