import Minicask.Raft.Stored

/-!
# The storage on disk refines the one in memory

A client of a storage calls it, and holds snapshots that it has not yet installed.
Whatever it calls, and however often it closes the storage on disk and opens it
again, both storages answer alike.  Closing ends the process, and the snapshots
being written go with it.
-/

namespace Minicask
namespace Raft

inductive StorageCall where
  | saveHardState (state : HardState)
  | append (stamp : Entry -> UInt64) (entries : List Entry)
  | truncateFrom (index : Nat)
  | newSnapshot (slot : Nat) (about : SnapshotMeta)
      (members : Option (List Member))
  | write (slot : Nat) (data : Bytes)
  | dropSnapshot (slot : Nat)
  | installSnapshot (stamp : Entry -> UInt64) (slot : Nat)
  | reopen (stamp : Entry -> UInt64)

/-- A storage on disk and the snapshots being written to it.  A slot is a variable
of the client, and what it held before is dropped. -/
structure DiskClient where
  storage : DiskStorage
  sinks : Nat -> Option DiskSnapshot := fun _ => none

structure MemClient where
  storage : MemStorage := {}
  sinks : Nat -> Option MemSnapshot := fun _ => none

namespace DiskClient

def dropSnapshot (c : DiskClient) (slot : Nat) : DiskClient :=
  match c.sinks slot with
  | none => c
  | some sink =>
      { storage := c.storage.dropSnapshot sink
        sinks := Function.update c.sinks slot none }

def newSnapshot (c : DiskClient) (slot : Nat) (about : SnapshotMeta)
    (members : Option (List Member)) : DiskClient :=
  let c := c.dropSnapshot slot
  let (sink, storage) := c.storage.newSnapshot about members
  { storage := storage, sinks := Function.update c.sinks slot (some sink) }

def write (c : DiskClient) (slot : Nat) (data : Bytes) : DiskClient :=
  match c.sinks slot with
  | none => c
  | some sink =>
      let (sink, storage) := c.storage.writeSnapshot sink data
      { storage := storage, sinks := Function.update c.sinks slot (some sink) }

def installSnapshot (c : DiskClient) (stamp : Entry -> UInt64) (slot : Nat) :
    Except Error DiskClient :=
  match c.sinks slot with
  | none => Except.ok c
  | some sink =>
      (c.storage.installSnapshot stamp sink).map (fun storage =>
        { storage := storage, sinks := Function.update c.sinks slot none })

def call (c : DiskClient) : StorageCall -> Except Error DiskClient
  | StorageCall.saveHardState state =>
      Except.ok { c with storage := c.storage.saveHardState state }
  | StorageCall.append stamp entries =>
      (c.storage.append stamp entries).map (fun storage =>
        { c with storage := storage })
  | StorageCall.truncateFrom index =>
      Except.ok { c with storage := c.storage.truncateFrom index }
  | StorageCall.newSnapshot slot about members =>
      Except.ok (c.newSnapshot slot about members)
  | StorageCall.write slot data => Except.ok (c.write slot data)
  | StorageCall.dropSnapshot slot => Except.ok (c.dropSnapshot slot)
  | StorageCall.installSnapshot stamp slot => c.installSnapshot stamp slot
  | StorageCall.reopen stamp =>
      (DiskStorage.openDir c.storage.dir stamp).map (fun storage =>
        { storage := storage })

def run (c : DiskClient) : List StorageCall -> Except Error DiskClient
  | [] => Except.ok c
  | call :: calls => (c.call call).bind (fun c => c.run calls)

end DiskClient

namespace MemClient

def installSnapshot (c : MemClient) (slot : Nat) : MemClient :=
  match c.sinks slot with
  | none => c
  | some sink =>
      { storage := c.storage.installSnapshot sink
        sinks := Function.update c.sinks slot none }

def call (c : MemClient) : StorageCall -> MemClient
  | StorageCall.saveHardState state =>
      { c with storage := c.storage.saveHardState state }
  | StorageCall.append _ entries =>
      { c with storage := c.storage.append entries }
  | StorageCall.truncateFrom index =>
      { c with storage := c.storage.truncateFrom index }
  | StorageCall.newSnapshot slot about members =>
      { c with
        sinks := Function.update c.sinks slot
          (some (MemStorage.newSnapshot about members)) }
  | StorageCall.write slot data =>
      { c with
        sinks := Function.update c.sinks slot
          ((c.sinks slot).map (fun sink => sink.writeAll data)) }
  | StorageCall.dropSnapshot slot =>
      { c with sinks := Function.update c.sinks slot none }
  | StorageCall.installSnapshot _ slot => c.installSnapshot slot
  | StorageCall.reopen _ => { storage := c.storage }

def run (c : MemClient) (calls : List StorageCall) : MemClient :=
  calls.foldl call c

/-- What a client may ask for: a vote that can be recorded, entries that continue
the log, and lengths that fit. -/
def Allows (c : MemClient) : StorageCall -> Prop
  | StorageCall.saveHardState state => state.Fits
  | StorageCall.append _ entries =>
      Follows c.storage.lastIndex entries ∧
        forall entry, entry ∈ entries -> entry.Fits
  | StorageCall.newSnapshot _ about members =>
      about.Fits ∧ SnapshotMembersFit members
  | _ => True

def AllowsAll (c : MemClient) : List StorageCall -> Prop
  | [] => True
  | call :: calls => c.Allows call ∧ (c.call call).AllowsAll calls

end MemClient

/-- Both storages answer every question alike. -/
structure Agree (s : DiskStorage) (m : MemStorage) : Prop where
  hardState : s.hardState = m.hardState
  lastIndex : s.lastIndex = m.lastIndex
  termAt : forall index, s.termAt index = m.termAt index
  entry : forall index, s.entry index = m.entry index
  entriesFrom : forall index, s.entriesFrom index = m.entriesFrom index
  snapshotMeta : s.snapshotMeta = m.snapshotMeta
  snapshotMembers : s.snapshotMembers = m.snapshotMembers
  snapshotLen : s.snapshotLen = m.snapshotLen
  readSnapshot : forall offset len,
    s.readSnapshot offset len = Except.ok (m.readSnapshot offset len)

/-!
# Answers
-/

namespace DiskStorage.Stores

variable {s : DiskStorage} {m : MemStorage} {junk : Bytes}

theorem readSnapshot (h : s.Stores m junk) (offset len : Nat) :
    s.readSnapshot offset len = Except.ok (m.readSnapshot offset len) := by
  unfold DiskStorage.readSnapshot MemStorage.readSnapshot
  rw [h.len]
  dsimp only
  by_cases hpast : m.snapshot.length <= offset
  · rw [if_pos hpast, Nat.min_eq_right hpast,
      Nat.min_eq_right (Nat.le_add_right _ _), Nat.sub_self, List.take_zero]
  · rw [if_neg hpast]
    cases hfile : s.dir.disk.snapshot with
    | none =>
        have hdata := h.data
        rw [hfile] at hdata
        rw [hdata] at hpast
        simp at hpast
    | some bytes =>
        have hdata : m.snapshot = bytes.drop s.snapshotDataAt := by
          have hdata := h.data
          rw [hfile] at hdata
          exact hdata
        have hlength : m.snapshot.length = bytes.length - s.snapshotDataAt := by
          rw [hdata, List.length_drop]
        dsimp only
        rw [if_pos (by omega), slice, ← List.drop_drop, ← hdata]
        congr 2
        · omega
        · congr 1
          omega

theorem agree (h : s.Stores m junk) : Agree s m where
  hardState := h.hardState
  lastIndex := congrArg EntryLog.lastIndex h.log
  termAt := fun index => congrArg (fun log => log.termAt index) h.log
  entry := fun index => congrArg (fun log => log.entry index) h.log
  entriesFrom := fun index => congrArg (fun log => log.entriesFrom index) h.log
  snapshotMeta := congrArg EntryLog.base h.log
  snapshotMembers := h.members
  snapshotLen := h.len
  readSnapshot := h.readSnapshot

end DiskStorage.Stores

/-!
# One call
-/

/-- The storages and the snapshots of two clients stand for each other, and no
two snapshots share a part file. -/
structure ClientStores (c : DiskClient) (m : MemClient) (junk : Bytes) :
    Prop where
  storage : c.storage.Stores m.storage junk
  sinks : forall slot,
    (c.sinks slot = none ∧ m.sinks slot = none) ∨
    exists sink msink, c.sinks slot = some sink ∧
      m.sinks slot = some msink ∧
      DiskStorage.SinkStores c.storage.dir.disk sink msink ∧
      msink.Fits
  fresh : forall slot sink, c.sinks slot = some sink ->
    sink.part <= c.storage.nextPart
  apart : forall slot slot' sink sink', c.sinks slot = some sink ->
    c.sinks slot' = some sink' -> slot ≠ slot' -> sink.part ≠ sink'.part

namespace ClientStores

variable {c : DiskClient} {m : MemClient} {junk : Bytes}

theorem sink_of_eq_some (h : ClientStores c m junk) {slot : Nat}
    {sink : DiskSnapshot} (hsink : c.sinks slot = some sink) :
    exists msink, m.sinks slot = some msink ∧
      DiskStorage.SinkStores c.storage.dir.disk sink msink ∧
      msink.Fits := by
  rcases h.sinks slot with ⟨hnone, _⟩ | ⟨sink', msink, hsome, hm, hstores⟩
  · rw [hnone] at hsink
    cases hsink
  · rw [hsink] at hsome
    cases hsome
    exact ⟨msink, hm, hstores⟩

theorem sink_of_eq_none (h : ClientStores c m junk) {slot : Nat}
    (hsink : c.sinks slot = none) : m.sinks slot = none := by
  rcases h.sinks slot with ⟨_, hnone⟩ | ⟨sink, msink, hsome, _⟩
  · exact hnone
  · rw [hsink] at hsome
    cases hsome

/-- A snapshot does not see what happens outside its part file. -/
theorem frame {disk disk' : RaftDisk} {sink : DiskSnapshot}
    {msink : MemSnapshot} (h : DiskStorage.SinkStores disk sink msink)
    (hparts : disk'.parts.lookup sink.part = disk.parts.lookup sink.part) :
    DiskStorage.SinkStores disk' sink msink :=
  { h with file := hparts.trans h.file }

theorem opened {s : DiskStorage} {m : MemStorage} (h : s.Stores m junk) :
    ClientStores { storage := s } { storage := m } junk where
  storage := h
  sinks := fun _ => Or.inl ⟨rfl, rfl⟩
  fresh := by
    intro slot sink hsink
    cases hsink
  apart := by
    intro slot slot' sink sink' hsink
    cases hsink

theorem keep (h : ClientStores c m junk) {s : DiskStorage} {m' : MemStorage}
    {junk' : Bytes} (hstores : s.Stores m' junk')
    (hparts : s.dir.disk.parts = c.storage.dir.disk.parts)
    (hnext : s.nextPart = c.storage.nextPart) :
    ClientStores { c with storage := s } { m with storage := m' } junk' where
  storage := hstores
  sinks := by
    intro slot
    rcases h.sinks slot with hnone | ⟨sink, msink, hsink, hmsink, hheld, hfits⟩
    · exact Or.inl hnone
    · refine Or.inr ⟨sink, msink, hsink, hmsink, frame hheld ?_, hfits⟩
      show s.dir.disk.parts.lookup _ = _
      rw [hparts]
  fresh := by
    intro slot sink hsink
    show sink.part <= s.nextPart
    rw [hnext]
    exact h.fresh slot sink hsink
  apart := h.apart

theorem leave (h : ClientStores c m junk) {slot : Nat} {sink : DiskSnapshot}
    (hsink : c.sinks slot = some sink) {s : DiskStorage} {m' : MemStorage}
    {junk' : Bytes} (hstores : s.Stores m' junk')
    (hparts : forall part, part ≠ sink.part ->
      s.dir.disk.parts.lookup part = c.storage.dir.disk.parts.lookup part)
    (hnext : s.nextPart = c.storage.nextPart) :
    ClientStores
      { storage := s, sinks := Function.update c.sinks slot none }
      { storage := m', sinks := Function.update m.sinks slot none }
      junk' where
  storage := hstores
  sinks := by
    intro other
    by_cases heq : other = slot
    · subst heq
      exact Or.inl ⟨Function.update_self .., Function.update_self ..⟩
    · dsimp only
      rw [Function.update_of_ne heq, Function.update_of_ne heq]
      rcases h.sinks other with hnone | ⟨sink', msink, hother, hmother,
        hheld, hfits⟩
      · exact Or.inl hnone
      · have hparts' :=
          hparts _ (h.apart other slot sink' sink hother hsink heq)
        exact Or.inr ⟨sink', msink, hother, hmother, frame hheld hparts', hfits⟩
  fresh := by
    intro other sink' hother
    dsimp only at hother ⊢
    rw [hnext]
    by_cases heq : other = slot
    · rw [heq, Function.update_self] at hother
      cases hother
    · rw [Function.update_of_ne heq] at hother
      exact h.fresh other sink' hother
  apart := by
    intro left right sink' sink'' hleft hright hne
    dsimp only at hleft hright
    by_cases hl : left = slot
    · rw [hl, Function.update_self] at hleft
      cases hleft
    · by_cases hr : right = slot
      · rw [hr, Function.update_self] at hright
        cases hright
      · rw [Function.update_of_ne hl] at hleft
        rw [Function.update_of_ne hr] at hright
        exact h.apart left right sink' sink'' hleft hright hne

theorem put (h : ClientStores c m junk) (slot : Nat) {sink : DiskSnapshot}
    {msink : MemSnapshot} {s : DiskStorage}
    (hstores : s.Stores m.storage junk)
    (hheld : DiskStorage.SinkStores s.dir.disk sink msink)
    (hfits : msink.Fits)
    (hparts : forall part, part ≠ sink.part ->
      s.dir.disk.parts.lookup part = c.storage.dir.disk.parts.lookup part)
    (hnext : c.storage.nextPart <= s.nextPart) (hpart : sink.part <= s.nextPart)
    (happart : forall other sink', other ≠ slot ->
      c.sinks other = some sink' -> sink'.part ≠ sink.part) :
    ClientStores
      { storage := s, sinks := Function.update c.sinks slot (some sink) }
      { m with sinks := Function.update m.sinks slot (some msink) }
      junk where
  storage := hstores
  sinks := by
    intro other
    by_cases heq : other = slot
    · subst heq
      exact Or.inr ⟨sink, msink, Function.update_self ..,
        Function.update_self .., hheld, hfits⟩
    · dsimp only
      rw [Function.update_of_ne heq, Function.update_of_ne heq]
      rcases h.sinks other with hnone | ⟨sink', msink', hother, hmother,
        hold, hfits'⟩
      · exact Or.inl hnone
      · have hparts' := hparts _ (happart other sink' heq hother)
        exact Or.inr ⟨sink', msink', hother, hmother, frame hold hparts', hfits'⟩
  fresh := by
    intro other sink' hother
    dsimp only at hother ⊢
    by_cases heq : other = slot
    · rw [heq, Function.update_self] at hother
      cases hother
      exact hpart
    · rw [Function.update_of_ne heq] at hother
      exact Nat.le_trans (h.fresh other sink' hother) hnext
  apart := by
    intro left right sink' sink'' hleft hright hne
    dsimp only at hleft hright
    by_cases hl : left = slot
    · rw [hl, Function.update_self] at hleft
      cases hleft
      have hr : right ≠ slot := fun heq => hne (hl.trans heq.symm)
      rw [Function.update_of_ne hr] at hright
      exact (happart right sink'' hr hright).symm
    · rw [Function.update_of_ne hl] at hleft
      by_cases hr : right = slot
      · rw [hr, Function.update_self] at hright
        cases hright
        exact happart left sink' hl hleft
      · rw [Function.update_of_ne hr] at hright
        exact h.apart left right sink' sink'' hleft hright hne

theorem dropSnapshot (h : ClientStores c m junk) (slot : Nat) :
    ClientStores (c.dropSnapshot slot)
      { m with sinks := Function.update m.sinks slot none } junk := by
  unfold DiskClient.dropSnapshot
  cases hsink : c.sinks slot with
  | none =>
      have hsame : Function.update m.sinks slot none = m.sinks := by
        rw [← h.sink_of_eq_none hsink, Function.update_eq_self]
      rw [hsame]
      exact h
  | some sink =>
      exact h.leave hsink (DiskStorage.dropSnapshot_stores h.storage sink)
        (fun part hpart => AList.lookup_erase_ne hpart) rfl

theorem newSnapshot (h : ClientStores c m junk) (slot : Nat)
    {about : SnapshotMeta} (hfits : about.Fits)
    {members : Option (List Member)} (hmembers : SnapshotMembersFit members) :
    ClientStores (c.newSnapshot slot about members)
      { m with
        sinks := Function.update m.sinks slot
          (some (MemStorage.newSnapshot about members)) } junk := by
  have hdropped := h.dropSnapshot slot
  have hput := hdropped.put slot
    (DiskStorage.newSnapshot_stores hdropped.storage about members)
    (DiskStorage.newSnapshot_sink _ about members) ⟨hfits, hmembers⟩
    (fun part hpart => AList.lookup_insert_ne hpart)
    (Nat.le_succ _) (Nat.le_refl _)
    (fun other sink' _ hother =>
      Nat.ne_of_lt (Nat.lt_succ_of_le (hdropped.fresh other sink' hother)))
  rw [Function.update_idem] at hput
  exact hput

theorem write (h : ClientStores c m junk) (slot : Nat) (data : Bytes) :
    ClientStores (c.write slot data)
      { m with
        sinks := Function.update m.sinks slot
          ((m.sinks slot).map (fun sink => sink.writeAll data)) } junk := by
  unfold DiskClient.write
  cases hsink : c.sinks slot with
  | none =>
      have hsame : Function.update m.sinks slot
          ((m.sinks slot).map (fun sink => sink.writeAll data)) = m.sinks := by
        rw [h.sink_of_eq_none hsink, Option.map_none,
          ← h.sink_of_eq_none hsink, Function.update_eq_self]
      rw [hsame]
      exact h
  | some sink =>
      rcases h.sink_of_eq_some hsink with ⟨msink, hmsink, hheld, hfits⟩
      rw [hmsink]
      refine h.put slot { h.storage with } ?_ hfits ?_ (Nat.le_refl _)
        (h.fresh slot sink hsink) ?_
      · refine
          { hheld with
            crc := ?_
            written := ?_
            file := ?_ }
        · show Crc.update sink.crc data = _
          rw [hheld.crc]
          simp [Crc.update, MemSnapshot.writeAll]
        · show sink.written + data.length = (msink.data ++ data).length
          rw [hheld.written, List.length_append]
        · show (AList.insert _ _ _).lookup _ = _
          rw [AList.lookup_insert, hheld.file]
          exact congrArg some (List.append_assoc _ _ _)
      · intro part hpart
        exact AList.lookup_insert_ne hpart
      · intro other sink' hne hother
        exact h.apart other slot sink' sink hother hsink hne

theorem installSnapshot (h : ClientStores c m junk) (stamp : Entry -> UInt64)
    (slot : Nat) :
    exists c' junk', c.installSnapshot stamp slot = Except.ok c' ∧
      (junk' = junk ∨ junk' = []) ∧
      ClientStores c' (m.installSnapshot slot) junk' := by
  unfold DiskClient.installSnapshot MemClient.installSnapshot
  cases hsink : c.sinks slot with
  | none =>
      rw [h.sink_of_eq_none hsink]
      exact ⟨c, junk, rfl, Or.inl rfl, h⟩
  | some sink =>
      rcases h.sink_of_eq_some hsink with ⟨msink, hmsink, hheld, hfits⟩
      rcases DiskStorage.installSnapshot_stores h.storage stamp hheld hfits with
        ⟨s, junk', hinstall, hjunk, hstores, hparts, hnext⟩
      rw [hmsink]
      dsimp only
      rw [hinstall]
      exact ⟨_, junk', rfl, hjunk, h.leave hsink hstores hparts hnext⟩

/-- What is left past the log of what was there before a call: all of it, or at
most what a record does not reach. -/
def LeftOver (junk junk' : Bytes) : Prop :=
  exists n, junk' = junk.drop n ∧ (n = 0 ∨ headerLen + 16 <= n)

theorem leftOver_of_or {junk junk' : Bytes} (h : junk' = junk ∨ junk' = []) :
    LeftOver junk junk' := by
  rcases h with heq | hnil
  · exact ⟨0, heq, Or.inl rfl⟩
  · refine ⟨junk.length + (headerLen + 16), ?_, Or.inr (Nat.le_add_left _ _)⟩
    rw [hnil, List.drop_eq_nil_of_le (Nat.le_add_right _ _)]

theorem call (h : ClientStores c m junk) {call : StorageCall}
    (hallows : m.Allows call)
    (hjunk : forall stamp, call = StorageCall.reopen stamp -> Unfinished junk) :
    exists c' junk', c.call call = Except.ok c' ∧ LeftOver junk junk' ∧
      ClientStores c' (m.call call) junk' := by
  cases call with
  | saveHardState state =>
      refine ⟨_, junk, rfl, leftOver_of_or (Or.inl rfl), h.keep
        (DiskStorage.saveHardState_stores h.storage hallows) ?_ ?_⟩
      · unfold DiskStorage.saveHardState
        split <;> rfl
      · unfold DiskStorage.saveHardState
        split <;> rfl
  | append stamp entries =>
      rcases DiskStorage.append_stores h.storage stamp hallows.1 hallows.2 with
        ⟨s, offsets, buf, happend, hencoded, hstores, hparts, hnext⟩
      refine ⟨_, junk.drop buf.length, ?_, ?_, h.keep hstores hparts hnext⟩
      · unfold DiskClient.call
        dsimp only
        rw [happend]
        rfl
      · refine ⟨buf.length, rfl, ?_⟩
        cases hencoded with
        | nil => exact Or.inl rfl
        | cons stamp hencode _ =>
            have hlong := Encoded.length_encodeEntry hencode
            rw [List.length_append]
            exact Or.inr (Nat.le_add_right_of_le hlong)
  | truncateFrom index =>
      rcases DiskStorage.truncateFrom_stores h.storage index with
        ⟨junk', hor, hstores, hparts, hnext⟩
      exact ⟨_, junk', rfl, leftOver_of_or hor, h.keep hstores hparts hnext⟩
  | newSnapshot slot about members =>
      exact ⟨_, junk, rfl, leftOver_of_or (Or.inl rfl),
        h.newSnapshot slot hallows.1 hallows.2⟩
  | write slot data =>
      exact ⟨_, junk, rfl, leftOver_of_or (Or.inl rfl), h.write slot data⟩
  | dropSnapshot slot =>
      exact ⟨_, junk, rfl, leftOver_of_or (Or.inl rfl), h.dropSnapshot slot⟩
  | installSnapshot stamp slot =>
      rcases h.installSnapshot stamp slot with
        ⟨c', junk', hinstall, hor, hstores⟩
      exact ⟨c', junk', hinstall, leftOver_of_or hor, hstores⟩
  | reopen stamp =>
      rcases DiskStorage.openDir_spec (h.storage.holds (hjunk stamp rfl)) stamp
        with ⟨s, hopen, hstores, hnext, _⟩
      refine ⟨{ storage := s }, [], ?_, leftOver_of_or (Or.inr rfl),
        opened hstores⟩
      unfold DiskClient.call
      dsimp only
      rw [hopen]
      rfl

/-- Calls keep two clients together as long as there is nothing past the log. -/
theorem run (h : ClientStores c m []) {calls : List StorageCall}
    (hallows : m.AllowsAll calls) :
    exists c', c.run calls = Except.ok c' ∧ ClientStores c' (m.run calls) [] := by
  induction calls generalizing c m with
  | nil => exact ⟨c, rfl, h⟩
  | cons call calls ih =>
      rcases h.call hallows.1 (fun _ _ => unfinished_nil) with
        ⟨c', junk', hcall, ⟨n, hjunk, _⟩, hstores⟩
      rw [List.drop_nil] at hjunk
      subst hjunk
      rcases ih hstores hallows.2 with ⟨c'', hrun, hlast⟩
      refine ⟨c'', ?_, hlast⟩
      rw [DiskClient.run, hcall]
      exact hrun

end ClientStores

/-!
# Every sequence of calls
-/

theorem holds_empty : RaftDisk.Holds {} {} where
  hardState := rfl
  snapshot := ⟨0, rfl, rfl⟩
  entries := by
    refine ⟨0, [], ⟨⟨[], [], [], rfl, Encoded.nil 0, unfinished_nil⟩, trivial, ?_⟩,
      Nat.le_refl 0, rfl⟩
    intro entry hentry
    cases hentry

/-- A storage that is opened on an empty directory answers like one in memory
after any calls, and every opening succeeds.  A membership may not be so long that
its length reads as none. -/
theorem disk_refines_mem (stamp : Entry -> UInt64) (calls : List StorageCall)
    (hallows : ({} : MemClient).AllowsAll calls) :
    exists s c, DiskStorage.openDir {} stamp = Except.ok s ∧
      DiskClient.run { storage := s } calls = Except.ok c ∧
      Agree c.storage (({} : MemClient).run calls).storage := by
  have hempty : ({} : RaftDir).disk.Holds {} := holds_empty
  rcases DiskStorage.openDir_spec hempty stamp with ⟨s, hopen, hstores, _⟩
  rcases (ClientStores.opened hstores).run hallows with ⟨c, hrun, hlast⟩
  exact ⟨s, c, hopen, hrun, hlast.storage.agree⟩

/-- A vote, a no-op, an empty command and a membership, a snapshot in the middle
of them, and a reopening after each kind of change. -/
def mixedCalls : List StorageCall :=
  [StorageCall.saveHardState { term := 1, votedFor := some 2 },
    StorageCall.append (fun _ => 7)
      [{ term := 1, index := 1, command := Command.noop },
        { term := 1, index := 2, command := Command.data [] },
        { term := 1, index := 3,
          command := Command.config
            [{ id := 2, context := [104], learner := false }] }],
    StorageCall.reopen (fun _ => 8),
    StorageCall.newSnapshot 0 { index := 1, term := 1 }
      (some [{ id := 2, context := [104], learner := true }]),
    StorageCall.write 0 [5, 6],
    StorageCall.installSnapshot (fun _ => 9) 0,
    StorageCall.reopen (fun _ => 10),
    StorageCall.truncateFrom 3]

theorem disk_refines_mem_mixed :
    (({} : MemClient).run mixedCalls).storage.lastIndex = 2 ∧
    exists s c, DiskStorage.openDir {} (fun _ => 0) = Except.ok s ∧
      DiskClient.run { storage := s } mixedCalls = Except.ok c ∧
      Agree c.storage (({} : MemClient).run mixedCalls).storage := by
  refine ⟨by decide, disk_refines_mem (fun _ => 0) mixedCalls ?_⟩
  refine ⟨⟨by decide, ?_⟩, ⟨⟨rfl, rfl, rfl, trivial⟩, by decide⟩, trivial,
    ⟨⟨by decide, by decide⟩, ?_⟩, trivial, trivial, trivial, trivial, trivial⟩
  · intro vote hvote
    cases hvote
    decide
  · intro list hlist
    cases hlist
    decide

/-!
# A membership of the longest length

Its length is the one that stands for no membership at all.
-/

section Longest

variable {members : List Member}

/-- The length field says that there is no membership, and the membership is taken
for data. -/
theorem readSnapshotHeader_longest
    (hlen : (encodeMembers members).length = noMembers) {about : SnapshotMeta}
    (hfits : about.Fits) (data : Bytes) :
    readSnapshotHeader (some (snapshotFile about (some members) data)) =
      Except.ok
        { about := about
          members := none
          dataAt := 28
          dataLen := (encodeMembers members ++ data).length } := by
  have hmembers : forall front : Bytes, front.length = 28 ->
      readSnapshotMembers (front ++ ([] ++ (encodeMembers members ++ data)))
        noMembers = Except.ok (none, []) := by
    intro front _
    unfold readSnapshotMembers
    rw [if_pos rfl]
  have hread := readSnapshotHeader_magic hfits (by decide) hmembers rfl
  rw [List.length_nil, Nat.add_zero] at hread
  rw [← hread]
  have hfield : membersLen (some members) = noMembers := hlen
  unfold snapshotFile
  rw [snapshotHeader_eq, hfield]
  simp [membersPart, Crc.crc32Parts, Crc.update]

theorem holds_longest (hlen : (encodeMembers members).length = noMembers)
    {disk : RaftDisk} {about : SnapshotMeta} (hfits : about.Fits) {data : Bytes}
    (hhard : readHardState disk.hardState = Except.ok {})
    (hsnapshot : disk.snapshot =
      some (snapshotFile about (some members) data))
    (hentries : disk.entries.bytes = []) :
    disk.Holds
      { log := { base := about }
        snapshot := (snapshotFile about (some members) data).drop 28
        snapshotMembers := none } where
  hardState := hhard
  snapshot := by
    have hread := readSnapshotHeader_longest hlen hfits data
    have hdata := dataLen_eq hread
    dsimp only [Option.getD_some] at hdata
    rw [hdata] at hread
    refine ⟨28, ?_, ?_⟩
    · rw [hsnapshot]
      exact hread
    · rw [hsnapshot]
      rfl
  entries := by
    refine ⟨0, [], ⟨⟨[], [], [], hentries, Encoded.nil 0, unfinished_nil⟩,
      trivial, ?_⟩, Nat.zero_le _, (reconcile_nil about (Nat.zero_le _)).symm⟩
    intro entry hentry
    cases hentry

def snapshotCalls (members : List Member) : List StorageCall :=
  [StorageCall.newSnapshot 0 { index := 1, term := 1 } (some members),
    StorageCall.installSnapshot (fun _ => 0) 0,
    StorageCall.reopen (fun _ => 0)]

theorem members_lost (hlen : (encodeMembers members).length = noMembers) :
    exists s c, DiskStorage.openDir {} (fun _ => 0) = Except.ok s ∧
      DiskClient.run { storage := s } (snapshotCalls members) = Except.ok c ∧
      c.storage.snapshotMembers = none := by
  have hempty : ({} : RaftDir).disk.Holds {} := holds_empty
  rcases DiskStorage.openDir_spec hempty (fun _ => 0) with
    ⟨s, hopen, hstores, _⟩
  have habout : SnapshotMeta.Fits { index := 1, term := 1 } := by
    constructor <;> decide
  have hnewer : ({} : MemStorage).log.base.index <
      (MemStorage.newSnapshot { index := 1, term := 1 }
        (some members)).about.index :=
    Nat.zero_lt_one
  rcases DiskStorage.installSnapshot_ok
    (DiskStorage.newSnapshot_stores hstores { index := 1, term := 1 }
      (some members)) (fun _ => 0)
    (DiskStorage.newSnapshot_sink s { index := 1, term := 1 }
      (some members)) hnewer with ⟨offsets, buf, hbuf, hinstall⟩
  have hbytes : buf = [] := by
    have hentries : (EntryLog.compact ({} : MemStorage).log
        (MemStorage.newSnapshot { index := 1, term := 1 }
          (some members)).about).2.entries = [] := rfl
    rw [hentries] at hbuf
    cases hbuf
    rfl
  subst hbytes
  have hcall : DiskClient.call
      (DiskClient.newSnapshot { storage := s } 0 { index := 1, term := 1 }
        (some members)) (StorageCall.installSnapshot (fun _ => 0) 0) =
      ((s.newSnapshot { index := 1, term := 1 }
        (some members)).2.installSnapshot (fun _ => 0)
        (s.newSnapshot { index := 1, term := 1 } (some members)).1).map
        (fun storage =>
          { storage := storage
            sinks := Function.update (DiskClient.newSnapshot { storage := s } 0
              { index := 1, term := 1 } (some members)).sinks 0 none }) := rfl
  rw [hinstall] at hcall
  dsimp only [Except.map] at hcall
  rcases DiskStorage.openDir_spec
    (holds_longest hlen habout hstores.hardFile rfl rfl :
      ((((s.newSnapshot { index := 1, term := 1 }
          (some members)).2.dir.writePart
          (s.newSnapshot { index := 1, term := 1 } (some members)).1.part
          (snapshotFile { index := 1, term := 1 } (some members) [])).renamePart
          (s.newSnapshot { index := 1, term := 1 } (some members)).1.part
          (snapshotFile { index := 1, term := 1 } (some members)
            [])).replaceEntries []).disk.Holds _) (fun _ => 0) with
    ⟨t, hreopen, ht, _⟩
  refine ⟨s, { storage := t }, hopen, ?_, ht.members⟩
  show (DiskClient.newSnapshot { storage := s } 0 { index := 1, term := 1 }
    (some members)).run [StorageCall.installSnapshot (fun _ => 0) 0,
      StorageCall.reopen (fun _ => 0)] = _
  rw [DiskClient.run, hcall]
  show Except.bind ((DiskStorage.openDir _ _).map _) _ = _
  exact congrArg
    (fun opened => Except.bind (Except.map _ opened) _) hreopen

theorem members_kept (members : List Member) :
    (({} : MemClient).run (snapshotCalls members)).storage.snapshotMembers =
      some members := rfl

end Longest

theorem length_encodeMembers_singleton (member : Member) :
    (encodeMembers [member]).length = 17 + member.context.length := by
  rw [encodeMembers_eq, List.flatMap_singleton, List.length_append,
    length_leBytes, length_encodeMember]
  omega

def longestMember : Member where
  id := 1
  context := List.replicate (u32Max - 17) 0
  learner := false

theorem length_longestMember : longestMember.context.length = u32Max - 17 :=
  List.length_replicate

theorem length_longestMembers :
    (encodeMembers [longestMember]).length = u32Max := by
  rw [length_encodeMembers_singleton, length_longestMember]
  unfold u32Max
  omega

theorem longestMember_fits : MembersFit [longestMember] := by
  refine ⟨Nat.one_lt_two_pow (by decide), ?_⟩
  intro member hmember
  rw [List.mem_singleton.mp hmember]
  refine ⟨Nat.one_lt_two_pow (by decide), ?_⟩
  rw [length_longestMember]
  unfold u32Max
  omega

/-- A membership within every length limit is gone once the storage has been
closed and opened. -/
theorem longest_members_lost :
    MembersFit [longestMember] ∧
    (encodeMembers [longestMember]).length <= u32Max ∧
    (({} : MemClient).run
      (snapshotCalls [longestMember])).storage.snapshotMembers =
        some [longestMember] ∧
    exists s c, DiskStorage.openDir {} (fun _ => 0) = Except.ok s ∧
      DiskClient.run { storage := s } (snapshotCalls [longestMember]) =
        Except.ok c ∧
      c.storage.snapshotMembers = none :=
  ⟨longestMember_fits, Nat.le_of_eq length_longestMembers,
    members_kept [longestMember], members_lost length_longestMembers⟩

end Raft
end Minicask
