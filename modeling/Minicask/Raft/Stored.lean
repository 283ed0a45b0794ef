import Minicask.Raft.Recovery

/-!
# What a directory of consensus state stands for

The files of a node stand for an in-memory storage: the hard state, the snapshot,
and a log of the entries that follow it.  A crash may have come between the
snapshot and the rewriting of the entries, so the log is what is left of the
entries once the snapshot has been taken into account.
-/

namespace Minicask
namespace Raft

/-- The log that entries after `prev` stand for beside a snapshot. -/
def reconcile (about : SnapshotMeta) (prev : Nat) (entries : List Entry) :
    EntryLog :=
  if prev = about.index then { base := about, entries := entries }
  else
    (EntryLog.compact
      { base := { index := prev, term := 0 }, entries := entries } about).2

namespace EntryLog

theorem entry_base (log : EntryLog) (hne : log.entries ≠ [])
    {base : SnapshotMeta} (hbase : base.index = log.base.index) (index : Nat) :
    ({ log with base := base } : EntryLog).entry index = log.entry index := by
  have hlast : ({ log with base := base } : EntryLog).lastIndex =
      log.lastIndex := by
    unfold lastIndex
    cases hget : log.entries.getLast? with
    | none => exact absurd (List.getLast?_eq_none_iff.mp hget) hne
    | some last => rfl
  unfold entry position
  rw [hlast, hbase]

/-- Taking a snapshot does not look at the term of the one before it. -/
theorem reconcile_eq_compact {log : EntryLog} {about : SnapshotMeta}
    (h : log.base.index < about.index) :
    reconcile about log.base.index log.entries = (log.compact about).2 := by
  unfold reconcile
  rw [if_neg (Nat.ne_of_lt h), compact_snd h, compact_snd (by exact h)]
  by_cases hne : log.entries = []
  · simp [hne]
  · have hentry := entry_base log hne
      (rfl : (SnapshotMeta.mk log.base.index 0).index = _) about.index
    rw [hentry]

theorem mem_compact {log : EntryLog} {about : SnapshotMeta}
    (h : log.base.index < about.index) {e : Entry}
    (he : e ∈ (log.compact about).2.entries) : e ∈ log.entries := by
  rw [compact_snd h] at he
  dsimp only at he
  split at he
  · exact List.mem_of_mem_drop he
  · cases he

end EntryLog

theorem reconcile_nil (about : SnapshotMeta) {prev : Nat}
    (h : prev <= about.index) :
    reconcile about prev [] = { base := about, entries := [] } := by
  unfold reconcile
  split
  · rfl
  · next hne =>
      rw [EntryLog.compact_snd (Nat.lt_of_le_of_ne h hne)]
      simp

theorem follows_reconcile {about : SnapshotMeta} {prev : Nat}
    {entries : List Entry} (hprev : prev <= about.index)
    (h : Follows prev entries) :
    (reconcile about prev entries).base = about ∧
      Follows about.index (reconcile about prev entries).entries ∧
      forall e, e ∈ (reconcile about prev entries).entries -> e ∈ entries := by
  unfold reconcile
  split
  · next heq =>
      rw [heq] at h
      exact ⟨rfl, h, fun e he => he⟩
  · next hne =>
      have hlt : prev < about.index := Nat.lt_of_le_of_ne hprev hne
      refine ⟨?_, EntryLog.follows_compact hlt h,
        fun e he => EntryLog.mem_compact hlt he⟩
      rw [EntryLog.compact_snd hlt]

/-!
# The files and what they stand for
-/

def MemSnapshot.Fits (sink : MemSnapshot) : Prop :=
  sink.about.Fits ∧ SnapshotMembersFit sink.members

/-- The entries file holds these entries, and perhaps the start of one more. -/
structure Logged (bytes : Bytes) (prev : Nat) (entries : List Entry) : Prop where
  whole : exists offsets whole tail, bytes = whole ++ tail ∧
    Encoded 0 offsets entries whole ∧ Unfinished tail
  follows : Follows prev entries
  fits : forall entry, entry ∈ entries -> entry.Fits

/-- Opening these files gives this state. -/
structure RaftDisk.Holds (disk : RaftDisk) (m : MemStorage) : Prop where
  hardState : readHardState disk.hardState = Except.ok m.hardState
  snapshot : exists dataAt,
    readSnapshotHeader disk.snapshot = Except.ok
      { about := m.log.base
        members := m.snapshotMembers
        dataAt := dataAt
        dataLen := m.snapshot.length } ∧
    m.snapshot = (disk.snapshot.getD []).drop dataAt
  entries : exists prev entries, Logged disk.entries.bytes prev entries ∧
    prev <= m.log.base.index ∧ m.log = reconcile m.log.base prev entries

/-- A storage in use.  Past the end of its log the entries file may hold bytes
that nobody asked for. -/
structure DiskStorage.Stores (s : DiskStorage) (m : MemStorage)
    (junk : Bytes) : Prop where
  hardState : s.hardState = m.hardState
  log : s.log = m.log
  members : s.snapshotMembers = m.snapshotMembers
  len : s.snapshotLen = m.snapshot.length
  data : m.snapshot = (s.dir.disk.snapshot.getD []).drop s.snapshotDataAt
  hardFile : readHardState s.dir.disk.hardState = Except.ok m.hardState
  snapshotFile : readSnapshotHeader s.dir.disk.snapshot = Except.ok
    { about := m.log.base
      members := m.snapshotMembers
      dataAt := s.snapshotDataAt
      dataLen := m.snapshot.length }
  encoded : exists whole, s.dir.disk.entries.bytes = whole ++ junk ∧
    Encoded 0 s.offsets m.log.entries whole ∧ s.endAt = whole.length
  follows : Follows m.log.base.index m.log.entries
  fits : forall entry, entry ∈ m.log.entries -> entry.Fits

/-- If what lies past the log is not a whole record, opening drops it. -/
theorem DiskStorage.Stores.holds {s : DiskStorage} {m : MemStorage}
    {junk : Bytes} (h : s.Stores m junk) (hjunk : Unfinished junk) :
    s.dir.disk.Holds m where
  hardState := h.hardFile
  snapshot := ⟨s.snapshotDataAt, h.snapshotFile, h.data⟩
  entries := by
    rcases h.encoded with ⟨whole, hbytes, hencoded, _⟩
    refine ⟨m.log.base.index, m.log.entries,
      ⟨⟨s.offsets, whole, junk, hbytes, hencoded, hjunk⟩, h.follows, h.fits⟩,
      Nat.le_refl _, ?_⟩
    unfold reconcile
    rw [if_pos rfl]

/-!
# Opening
-/

/-- A property of the files that held all along, and does now. -/
def RaftDir.Through (P : RaftDisk -> Prop) (dir : RaftDir) : Prop :=
  P dir.disk ∧ forall disk, disk ∈ dir.past -> P disk

theorem RaftDir.Through.move {P : RaftDisk -> Prop} {dir : RaftDir}
    (h : dir.Through P) {disk : RaftDisk} (hdisk : P disk) :
    (dir.move disk).Through P := by
  refine ⟨hdisk, ?_⟩
  intro other hother
  rcases List.mem_cons.mp hother with heq | hpast
  · rw [heq]
    exact h.1
  · exact h.2 other hpast

theorem RaftDir.Through.mono {P Q : RaftDisk -> Prop} {dir : RaftDir}
    (h : dir.Through P) (hmono : forall disk, P disk -> Q disk) :
    dir.Through Q :=
  ⟨hmono _ h.1, fun disk hdisk => hmono disk (h.2 disk hdisk)⟩

/-- Two directories that differ in part files only. -/
def RaftDisk.Same (disk disk' : RaftDisk) : Prop :=
  disk'.hardState = disk.hardState ∧ disk'.entries = disk.entries ∧
    disk'.snapshot = disk.snapshot

/-- Everything in the entries file is sure to survive. -/
def RaftDisk.Settled (disk : RaftDisk) : Prop :=
  disk.entries.synced = disk.entries.bytes.length

/-- Files that stand for a state, whatever a crash does to them. -/
def RaftDisk.Durable (m : MemStorage) (disk : RaftDisk) : Prop :=
  disk.Holds m ∧ disk.Settled

theorem RaftDisk.Holds.same {disk disk' : RaftDisk} {m : MemStorage}
    (h : disk.Holds m) (hsame : disk.Same disk') : disk'.Holds m := by
  rcases hsame with ⟨hhard, hentries, hsnapshot⟩
  constructor
  · rw [hhard]
    exact h.hardState
  · rw [hsnapshot]
    exact h.snapshot
  · rw [hentries]
    exact h.entries

theorem RaftDisk.Durable.same {disk disk' : RaftDisk} {m : MemStorage}
    (h : disk.Durable m) (hsame : disk.Same disk') : disk'.Durable m := by
  refine ⟨h.1.same hsame, ?_⟩
  unfold RaftDisk.Settled
  rw [hsame.2.1]
  exact h.2

theorem removeStrayParts_same (dir : RaftDir) :
    dir.disk.Same dir.removeStrayParts.disk := by
  have hloop : forall (parts : List Nat) (dir : RaftDir),
      dir.disk.Same (parts.foldl RaftDir.removePart dir).disk := by
    intro parts
    induction parts with
    | nil => exact fun dir => ⟨rfl, rfl, rfl⟩
    | cons part parts ih =>
        intro dir
        exact ih (dir.removePart part)
  exact hloop _ dir

theorem removeStrayParts_through {m : MemStorage} {dir : RaftDir}
    (h : dir.Through (RaftDisk.Durable m)) :
    dir.removeStrayParts.Through (RaftDisk.Durable m) := by
  have hloop : forall (parts : List Nat) (dir : RaftDir),
      dir.Through (RaftDisk.Durable m) ->
      (parts.foldl RaftDir.removePart dir).Through (RaftDisk.Durable m) := by
    intro parts
    induction parts with
    | nil => exact fun dir hdir => hdir
    | cons part parts ih =>
        intro dir hdir
        exact ih (dir.removePart part)
          (hdir.move (hdir.1.same ⟨rfl, rfl, rfl⟩))
  exact hloop _ dir h

/-- The files stand for the same state with the entries file replaced by one that
holds the log and nothing else. -/
theorem RaftDisk.Holds.rewritten {disk : RaftDisk} {m : MemStorage}
    (h : disk.Holds m) {offsets : List Nat} {file : File}
    (hencoded : Encoded 0 offsets m.log.entries file.bytes)
    (hfollows : Follows m.log.base.index m.log.entries)
    (hfits : forall entry, entry ∈ m.log.entries -> entry.Fits) :
    RaftDisk.Holds { disk with entries := file } m where
  hardState := h.hardState
  snapshot := h.snapshot
  entries := by
    refine ⟨m.log.base.index, m.log.entries,
      ⟨⟨offsets, file.bytes, [], ?_, hencoded, unfinished_nil⟩, hfollows,
        hfits⟩, Nat.le_refl _, ?_⟩
    · rw [List.append_nil]
    · unfold reconcile
      rw [if_pos rfl]

/-- Recovery finds the entries that the files hold, and cuts off what a crash left
of another one. -/
theorem recover_spec {dir : RaftDir} {m : MemStorage} (h : dir.disk.Holds m) :
    exists found prev dir', recover dir = Except.ok (found, dir') ∧
      Follows prev found.entries ∧
      (forall entry, entry ∈ found.entries -> entry.Fits) ∧
      prev <= m.log.base.index ∧
      m.log = reconcile m.log.base prev found.entries ∧
      Encoded 0 found.offsets found.entries dir'.disk.entries.bytes ∧
      found.stop = dir'.disk.entries.bytes.length ∧
      dir'.disk.hardState = dir.disk.hardState ∧
      dir'.disk.snapshot = dir.disk.snapshot ∧
      (dir.Through (RaftDisk.Durable m) ->
        dir'.Through (RaftDisk.Durable m)) := by
  rcases h.entries with ⟨prev, entries, hlogged, hprev, hlog⟩
  rcases hlogged.whole with ⟨offsets, whole, tail, hbytes, hencoded, htail⟩
  have hlength : dir.disk.entries.bytes.length = whole.length + tail.length := by
    rw [hbytes, List.length_append]
  have hcount := hencoded.length_entries_le
  have hloop : recoverLoop dir.disk.entries.bytes.length
      (dir.disk.entries.bytes.length + 1) dir.disk.entries.bytes {} =
      Except.ok
        { entries := entries, offsets := offsets, stop := whole.length } := by
    have hrun : recoverLoop dir.disk.entries.bytes.length
        (dir.disk.entries.bytes.length + 1) (whole ++ tail) {} = Except.ok
        { entries := [] ++ entries
          offsets := [] ++ offsets
          stop := 0 + whole.length } :=
      recoverLoop_encoded hencoded hlogged.follows hlogged.fits htail rfl
        (Or.inr rfl) (by omega) (by omega)
    rw [← hbytes, Nat.zero_add] at hrun
    exact hrun
  unfold recover
  dsimp only
  rw [hloop]
  dsimp only [Except.bind]
  by_cases hcut : whole.length ≠ dir.disk.entries.bytes.length
  · rw [if_pos hcut]
    have hwhole : dir.disk.entries.bytes.take whole.length = whole := by
      rw [hbytes, List.take_left]
    have hheld : (dir.setLen whole.length).disk.Holds m := by
      refine ⟨h.hardState, h.snapshot, prev, entries,
        ⟨⟨offsets, whole, [], ?_, hencoded, unfinished_nil⟩, hlogged.follows,
          hlogged.fits⟩, hprev, hlog⟩
      rw [List.append_nil]
      exact hwhole
    refine ⟨_, prev, _, rfl, hlogged.follows, hlogged.fits, hprev, hlog, ?_, ?_,
      rfl, rfl, ?_⟩
    · show Encoded 0 offsets entries (dir.disk.entries.bytes.take whole.length)
      rw [hwhole]
      exact hencoded
    · show whole.length = (dir.disk.entries.bytes.take whole.length).length
      rw [hwhole]
    · intro hthrough
      have hsettled : (dir.setLen whole.length).disk.Settled := by
        have hbefore : dir.disk.entries.synced = dir.disk.entries.bytes.length :=
          hthrough.1.2
        show min dir.disk.entries.synced whole.length =
          (dir.disk.entries.bytes.take whole.length).length
        rw [hwhole, hbefore]
        omega
      have hsynced : (dir.setLen whole.length).syncAll.disk.Holds m :=
        ⟨hheld.hardState, hheld.snapshot, hheld.entries⟩
      exact (hthrough.move ⟨hheld, hsettled⟩).move ⟨hsynced, rfl⟩
  · rw [if_neg hcut]
    have htail' : tail = [] := by
      apply List.eq_nil_of_length_eq_zero
      omega
    subst htail'
    rw [List.append_nil] at hbytes
    refine ⟨_, prev, _, rfl, hlogged.follows, hlogged.fits, hprev, hlog, ?_, ?_,
      rfl, rfl, fun hthrough => hthrough⟩
    · show Encoded 0 offsets entries dir.disk.entries.bytes
      rw [hbytes]
      exact hencoded
    · show whole.length = dir.disk.entries.bytes.length
      rw [hbytes]

namespace DiskStorage

theorem rewriteEntries_ok (s : DiskStorage) (stamp : Entry -> UInt64)
    (hfits : forall entry, entry ∈ s.log.entries -> entry.Fits) :
    exists offsets buf, Encoded 0 offsets s.log.entries buf ∧
      s.rewriteEntries stamp = Except.ok
        { s with
          dir := s.dir.replaceEntries buf
          offsets := offsets
          endAt := buf.length } := by
  rcases encodeEntries_ok stamp 0 hfits with ⟨offsets, buf, hencode⟩
  refine ⟨offsets, buf, encodeEntries_encoded hencode, ?_⟩
  unfold rewriteEntries
  rw [hencode]
  rfl

theorem openDir_spec {dir : RaftDir} {m : MemStorage} (h : dir.disk.Holds m)
    (stamp : Entry -> UInt64) :
    exists s, openDir dir stamp = Except.ok s ∧ s.Stores m [] ∧
      s.nextPart = 0 ∧
      (dir.Through (RaftDisk.Durable m) ->
        s.dir.Through (RaftDisk.Durable m)) := by
  have hcleaned := h.same (removeStrayParts_same dir)
  rcases h.snapshot with ⟨dataAt, hheader, hdata⟩
  rcases recover_spec hcleaned with ⟨found, prev, dir', hrecover, hfollows,
    hfits, hprev, hlog, hencoded, hstop, hhard, hsnapshot, hthrough⟩
  rw [(removeStrayParts_same dir).1] at hhard
  rw [(removeStrayParts_same dir).2.2] at hsnapshot
  rcases follows_reconcile hprev hfollows with ⟨_, hkept, hmem⟩
  rw [← hlog] at hkept hmem
  have hkeptFits : forall entry, entry ∈ m.log.entries -> entry.Fits :=
    fun entry hentry => hfits entry (hmem entry hentry)
  have hdirs : dir.Through (RaftDisk.Durable m) ->
      dir'.Through (RaftDisk.Durable m) :=
    fun hdir => hthrough (removeStrayParts_through hdir)
  unfold openDir
  rw [h.hardState]
  dsimp only [Except.bind]
  rw [hheader]
  dsimp only
  rw [hrecover]
  dsimp only
  -- The usual case: what was found is the log as it stands.
  have hkeep : found.entries = m.log.entries ->
      DiskStorage.Stores
        { dir := dir'
          hardState := m.hardState
          log := { base := m.log.base, entries := found.entries }
          offsets := found.offsets
          endAt := found.stop
          snapshotLen := m.snapshot.length
          snapshotDataAt := dataAt
          snapshotMembers := m.snapshotMembers
          nextPart := 0 } m [] := by
    intro hentries
    refine ⟨rfl, ?_, rfl, rfl, ?_, ?_, ?_, ⟨_, (List.append_nil _).symm, ?_,
      hstop⟩, hkept, hkeptFits⟩
    · rw [hentries]
    · rw [hsnapshot]
      exact hdata
    · rw [hhard]
      exact h.hardState
    · rw [hsnapshot]
      exact hheader
    · rw [← hentries]
      exact hencoded
  cases hhead : found.entries.head? with
  | none =>
      have hnil : found.entries = [] := List.head?_eq_none_iff.mp hhead
      rw [hnil, reconcile_nil _ hprev] at hlog
      refine ⟨_, rfl, hkeep ?_, rfl, hdirs⟩
      rw [hnil, hlog]
  | some first =>
      rcases List.head?_eq_some_iff.mp hhead with ⟨rest, hfound⟩
      have hfirst : first.index = prev + 1 := by
        rw [hfound] at hfollows
        exact hfollows.1
      dsimp only
      by_cases hstart : prev = m.log.base.index
      · rw [if_pos (by rw [hfirst, hstart])]
        refine ⟨_, rfl, hkeep ?_, rfl, hdirs⟩
        rw [hlog]
        unfold reconcile
        rw [if_pos hstart]
      · have hcompact : (EntryLog.compact
            { base := { index := first.index - 1, term := 0 }
              entries := found.entries } m.log.base).2 = m.log := by
          have hreconciled := hlog.symm
          unfold reconcile at hreconciled
          rw [if_neg hstart] at hreconciled
          rw [hfirst, Nat.add_sub_cancel]
          exact hreconciled
        rw [if_neg (by omega), if_pos (by omega), hcompact]
        rcases rewriteEntries_ok
          { dir := dir'
            hardState := m.hardState
            log := m.log
            offsets := found.offsets
            endAt := found.stop
            snapshotLen := m.snapshot.length
            snapshotDataAt := dataAt
            snapshotMembers := m.snapshotMembers
            nextPart := 0 } stamp hkeptFits with
          ⟨offsets, buf, hbuf, hrewrite⟩
        refine ⟨_, hrewrite, ?_, rfl, ?_⟩
        · refine ⟨rfl, rfl, rfl, rfl, ?_, ?_, ?_, ⟨_, (List.append_nil _).symm,
            hbuf, rfl⟩, hkept, hkeptFits⟩
          · show m.snapshot = (dir'.disk.snapshot.getD []).drop dataAt
            rw [hsnapshot]
            exact hdata
          · show readHardState dir'.disk.hardState = _
            rw [hhard]
            exact h.hardState
          · show readSnapshotHeader dir'.disk.snapshot = _
            rw [hsnapshot]
            exact hheader
        · intro hdir
          have hbefore := hdirs hdir
          exact hbefore.move
            ⟨hbefore.1.1.rewritten (by exact hbuf) hkept hkeptFits, rfl⟩

/-!
# Operations
-/

theorem saveHardState_stores {s : DiskStorage} {m : MemStorage} {junk : Bytes}
    (h : s.Stores m junk) {state : HardState} (hfits : state.Fits) :
    (s.saveHardState state).Stores (m.saveHardState state) junk := by
  unfold saveHardState
  split
  · next heq =>
      have hsame : m.saveHardState state = m := by
        unfold MemStorage.saveHardState
        rw [heq, h.hardState]
      rw [hsame]
      exact h
  · exact
      { h with
        hardState := rfl
        hardFile := readHardState_encode hfits }

theorem overwrite_end (whole junk buf : Bytes) :
    overwrite (whole ++ junk) whole.length buf =
      whole ++ buf ++ junk.drop buf.length := by
  unfold overwrite
  rw [List.take_left, List.drop_append, List.drop_eq_nil_of_le (by omega),
    Nat.add_sub_cancel_left, List.nil_append]

theorem append_ok (s : DiskStorage) (stamp : Entry -> UInt64)
    {entries : List Entry} (hne : entries ≠ [])
    (hfits : forall entry, entry ∈ entries -> entry.Fits) :
    exists offsets buf, Encoded s.endAt offsets entries buf ∧
      s.append stamp entries = Except.ok
        { s with
          dir := (s.dir.writeAt s.endAt buf).syncAll
          endAt := s.endAt + buf.length
          log := entries.foldl EntryLog.push s.log
          offsets := s.offsets ++ offsets } := by
  rcases encodeEntries_ok stamp s.endAt hfits with ⟨offsets, buf, hencode⟩
  refine ⟨offsets, buf, encodeEntries_encoded hencode, ?_⟩
  unfold append
  rw [if_neg (by rwa [List.isEmpty_iff]), hencode]
  rfl

/-- What the file holds past the new end of the log is what it held there
before. -/
theorem append_stores {s : DiskStorage} {m : MemStorage} {junk : Bytes}
    (h : s.Stores m junk) (stamp : Entry -> UInt64) {entries : List Entry}
    (hfollows : Follows m.lastIndex entries)
    (hfits : forall entry, entry ∈ entries -> entry.Fits) :
    exists s' offsets buf, s.append stamp entries = Except.ok s' ∧
      Encoded s.endAt offsets entries buf ∧
      s'.Stores (m.append entries) (junk.drop buf.length) ∧
      s'.dir.disk.parts = s.dir.disk.parts ∧ s'.nextPart = s.nextPart := by
  by_cases hne : entries = []
  · subst hne
    exact ⟨s, [], [], rfl, Encoded.nil _, h, rfl, rfl⟩
  · rcases append_ok s stamp hne hfits with ⟨offsets, buf, hencoded, happend⟩
    refine ⟨_, offsets, buf, happend, hencoded, ?_, rfl, rfl⟩
    rcases h.encoded with ⟨whole, hbytes, hwhole, hend⟩
    have hall := h.follows.append (by
      have hlast := hfollows
      unfold MemStorage.lastIndex at hlast
      rwa [h.follows.lastIndex] at hlast)
    have hlog : (m.append entries).log =
        { m.log with entries := m.log.entries ++ entries } :=
      foldl_push entries m.log
    constructor
    · exact h.hardState
    · show entries.foldl EntryLog.push s.log = (m.append entries).log
      rw [h.log]
      rfl
    · exact h.members
    · exact h.len
    · exact h.data
    · exact h.hardFile
    · rw [hlog]
      exact h.snapshotFile
    · refine ⟨whole ++ buf, ?_, ?_, ?_⟩
      · show overwrite s.dir.disk.entries.bytes s.endAt buf = _
        rw [hbytes, hend, overwrite_end]
      · rw [hlog]
        rw [hend, ← Nat.zero_add whole.length] at hencoded
        exact hwhole.append hencoded
      · show s.endAt + buf.length = _
        rw [hend, List.length_append]
    · rw [hlog]
      exact hall
    · rw [hlog]
      intro entry hentry
      rcases List.mem_append.mp hentry with hold | hnew
      · exact h.fits entry hold
      · exact hfits entry hnew

/-- Records past the end of the log are taken for entries of it. -/
theorem Stores.holds_append {s : DiskStorage} {m : MemStorage} {junk : Bytes}
    (h : s.Stores m junk) {offsets : List Nat} {entries : List Entry}
    {front tail : Bytes} (hjunk : junk = front ++ tail)
    (hencoded : Encoded s.endAt offsets entries front)
    (htail : Unfinished tail) (hfollows : Follows m.lastIndex entries)
    (hfits : forall entry, entry ∈ entries -> entry.Fits) :
    s.dir.disk.Holds (m.append entries) := by
  rcases h.encoded with ⟨whole, hbytes, hwhole, hend⟩
  have hlog : (m.append entries).log =
      { m.log with entries := m.log.entries ++ entries } :=
    foldl_push entries m.log
  refine ⟨h.hardFile, ?_, ?_⟩
  · rw [hlog]
    exact ⟨s.snapshotDataAt, h.snapshotFile, h.data⟩
  · rw [hlog]
    refine ⟨m.log.base.index, m.log.entries ++ entries,
      ⟨⟨s.offsets ++ offsets, whole ++ front, tail, ?_, ?_, htail⟩, ?_, ?_⟩,
      Nat.le_refl _, ?_⟩
    · rw [hbytes, hjunk, List.append_assoc]
    · rw [hend, ← Nat.zero_add whole.length] at hencoded
      exact hwhole.append hencoded
    · refine h.follows.append ?_
      unfold MemStorage.lastIndex at hfollows
      rwa [h.follows.lastIndex] at hfollows
    · intro entry hentry
      rcases List.mem_append.mp hentry with hold | hnew
      · exact h.fits entry hold
      · exact hfits entry hnew
    · unfold reconcile
      rw [if_pos rfl]

theorem truncateFrom_entries (log : EntryLog) (index : Nat) :
    (log.truncateFrom index).entries =
      log.entries.take (log.truncateFrom index).entries.length := by
  unfold EntryLog.truncateFrom
  dsimp only
  rw [List.length_take, List.take_eq_take_iff]
  omega

/-- Cutting the log cuts off whatever lay past it. -/
theorem truncateFrom_stores {s : DiskStorage} {m : MemStorage} {junk : Bytes}
    (h : s.Stores m junk) (index : Nat) :
    exists junk', (junk' = junk ∨ junk' = []) ∧
      (s.truncateFrom index).Stores (m.truncateFrom index) junk' ∧
      (s.truncateFrom index).dir.disk.parts = s.dir.disk.parts ∧
      (s.truncateFrom index).nextPart = s.nextPart := by
  have hentries := truncateFrom_entries m.log index
  rcases h.encoded with ⟨whole, hbytes, hwhole, hend⟩
  unfold truncateFrom
  rw [h.log]
  dsimp only
  cases hstart : s.offsets[(m.log.truncateFrom index).entries.length]? with
  | none =>
      have hkept : (m.log.truncateFrom index).entries = m.log.entries := by
        rw [hentries]
        exact hwhole.keeps_all hstart
      refine ⟨junk, Or.inl rfl, ?_, rfl, rfl⟩
      exact
        { h with
          log := rfl
          snapshotFile := h.snapshotFile
          encoded := by
            refine ⟨whole, hbytes, ?_, hend⟩
            show Encoded 0 s.offsets (m.log.truncateFrom index).entries whole
            rw [hkept]
            exact hwhole
          follows := by
            show Follows m.log.base.index (m.log.truncateFrom index).entries
            rw [hkept]
            exact h.follows
          fits := by
            show forall entry, entry ∈ (m.log.truncateFrom index).entries -> _
            rw [hkept]
            exact h.fits }
  | some start =>
      rcases hwhole.take hstart with ⟨_, hle, htaken⟩
      rw [Nat.sub_zero] at hle htaken
      refine ⟨[], Or.inr rfl, ?_, rfl, rfl⟩
      constructor
      · exact h.hardState
      · rfl
      · exact h.members
      · exact h.len
      · exact h.data
      · exact h.hardFile
      · exact h.snapshotFile
      · refine ⟨whole.take start, ?_, ?_, ?_⟩
        · show s.dir.disk.entries.bytes.take start = _
          rw [hbytes, List.take_append_of_le_length hle, List.append_nil]
        · rw [← hentries] at htaken
          exact htaken
        · show start = (whole.take start).length
          rw [List.length_take]
          omega
      · show Follows m.log.base.index (m.log.truncateFrom index).entries
        rw [hentries]
        exact h.follows.take _
      · intro entry hentry
        rw [show (m.truncateFrom index).log.entries =
          (m.log.truncateFrom index).entries from rfl, hentries] at hentry
        exact h.fits entry (List.mem_of_mem_take hentry)

/-!
# Installing a snapshot
-/

/-- A snapshot being written, and the one in memory that it stands for. -/
structure SinkStores (disk : RaftDisk) (sink : DiskSnapshot)
    (m : MemSnapshot) : Prop where
  about : sink.about = m.about
  members : sink.members = m.members
  header : sink.header = snapshotHeader m.about m.members
  crc : sink.crc = Crc.update (Crc.update 0xFFFFFFFF sink.header) m.data
  written : sink.written = m.data.length
  file : disk.parts.lookup sink.part =
    some (List.replicate (8 + sink.header.length) 0 ++ m.data)

theorem SinkStores.finishPart {disk : RaftDisk} {sink : DiskSnapshot}
    {m : MemSnapshot} (h : SinkStores disk sink m) :
    finishPart sink (List.replicate (8 + sink.header.length) 0 ++ m.data) =
      snapshotFile m.about m.members m.data := by
  have hcrc : sink.crc ^^^ 0xFFFFFFFF =
      Crc.crc32Parts [snapshotHeader m.about m.members, m.data] := by
    rw [h.crc, h.header]
    rfl
  have hlength : (snapshotMagic ++
      leBytes 4 (sink.crc ^^^ 0xFFFFFFFF).toNat ++ sink.header).length =
      (List.replicate (8 + sink.header.length) (0 : UInt8)).length := by
    simp [snapshotMagic]
    omega
  unfold DiskStorage.finishPart overwrite snapshotFile
  rw [List.take_zero, List.nil_append, Nat.zero_add, hlength, List.drop_left,
    hcrc, h.header]

theorem dropSnapshot_stores {s : DiskStorage} {m : MemStorage} {junk : Bytes}
    (h : s.Stores m junk) (sink : DiskSnapshot) :
    (s.dropSnapshot sink).Stores m junk :=
  { h with }

theorem newSnapshot_stores {s : DiskStorage} {m : MemStorage} {junk : Bytes}
    (h : s.Stores m junk) (about : SnapshotMeta)
    (members : Option (List Member)) :
    (s.newSnapshot about members).2.Stores m junk :=
  { h with }

theorem newSnapshot_sink (s : DiskStorage) (about : SnapshotMeta)
    (members : Option (List Member)) :
    SinkStores (s.newSnapshot about members).2.dir.disk
      (s.newSnapshot about members).1
      (MemStorage.newSnapshot about members) where
  about := rfl
  members := rfl
  header := rfl
  crc := by
    simp only [newSnapshot, MemStorage.newSnapshot, Crc.update, List.foldl_nil]
  written := rfl
  file := by
    show (s.dir.disk.parts.insert (s.nextPart + 1) _).lookup (s.nextPart + 1) =
      some (_ ++ [])
    rw [AList.lookup_insert, List.append_nil]
    rfl

theorem installSnapshot_ok {s : DiskStorage} {m : MemStorage} {junk : Bytes}
    (h : s.Stores m junk) (stamp : Entry -> UInt64) {sink : DiskSnapshot}
    {msink : MemSnapshot} (hsink : SinkStores s.dir.disk sink msink)
    (hnewer : m.log.base.index < msink.about.index) :
    exists offsets buf,
      Encoded 0 offsets (m.log.compact msink.about).2.entries buf ∧
      s.installSnapshot stamp sink = Except.ok
        { s with
          dir := ((s.dir.writePart sink.part
              (snapshotFile msink.about msink.members msink.data)).renamePart
            sink.part
            (snapshotFile msink.about msink.members msink.data)).replaceEntries
              buf
          snapshotLen := msink.data.length
          snapshotDataAt :=
            8 + (snapshotHeader msink.about msink.members).length
          snapshotMembers := msink.members
          log := (m.log.compact msink.about).2
          offsets := offsets
          endAt := buf.length } := by
  have hfits : forall entry,
      entry ∈ (m.log.compact msink.about).2.entries -> entry.Fits :=
    fun entry hentry => h.fits entry (EntryLog.mem_compact hnewer hentry)
  rcases rewriteEntries_ok
    { s with
      dir := (s.dir.writePart sink.part
          (snapshotFile msink.about msink.members msink.data)).renamePart
        sink.part (snapshotFile msink.about msink.members msink.data)
      snapshotLen := msink.data.length
      snapshotDataAt := 8 + (snapshotHeader msink.about msink.members).length
      snapshotMembers := msink.members
      log := (m.log.compact msink.about).2 } stamp hfits with
    ⟨offsets, buf, hbuf, hrewrite⟩
  refine ⟨offsets, buf, hbuf, ?_⟩
  unfold installSnapshot
  rw [h.log, hsink.about, if_neg (Nat.not_le.mpr hnewer), hsink.file]
  dsimp only
  rw [hsink.finishPart, hsink.header, hsink.members, hsink.written]
  exact hrewrite

theorem installSnapshot_stores {s : DiskStorage} {m : MemStorage}
    {junk : Bytes} (h : s.Stores m junk) (stamp : Entry -> UInt64)
    {sink : DiskSnapshot} {msink : MemSnapshot}
    (hsink : SinkStores s.dir.disk sink msink) (hfits : msink.Fits) :
    exists s' junk', s.installSnapshot stamp sink = Except.ok s' ∧
      (junk' = junk ∨ junk' = []) ∧
      s'.Stores (m.installSnapshot msink) junk' ∧
      (forall part, part ≠ sink.part ->
        s'.dir.disk.parts.lookup part = s.dir.disk.parts.lookup part) ∧
      s'.nextPart = s.nextPart := by
  by_cases hnewer : m.log.base.index < msink.about.index
  · rcases installSnapshot_ok h stamp hsink hnewer with
      ⟨offsets, buf, hbuf, hinstall⟩
    refine ⟨_, [], hinstall, Or.inr rfl, ?_, ?_, rfl⟩
    · rw [MemStorage.installSnapshot_mem hnewer]
      have hbase : (m.log.compact msink.about).2.base = msink.about := by
        rw [EntryLog.compact_snd hnewer]
      constructor
      · exact h.hardState
      · rfl
      · rfl
      · rfl
      · exact (drop_snapshotFile _ _ _).symm
      · exact h.hardFile
      · dsimp only
        rw [hbase]
        exact readSnapshotHeader_snapshotFile hfits.1 hfits.2 _
      · exact ⟨buf, (List.append_nil buf).symm, hbuf, rfl⟩
      · dsimp only
        rw [hbase]
        exact EntryLog.follows_compact hnewer h.follows
      · exact fun entry hentry =>
          h.fits entry (EntryLog.mem_compact hnewer hentry)
    · intro part hpart
      show ((s.dir.disk.parts.insert sink.part _).erase sink.part).lookup part =
        _
      rw [AList.lookup_erase_ne hpart, AList.lookup_insert_ne hpart]
  · have hstale := Nat.le_of_not_lt hnewer
    refine ⟨s.dropSnapshot sink, junk, ?_, Or.inl rfl, ?_, ?_, rfl⟩
    · unfold installSnapshot
      rw [h.log, hsink.about, if_pos hstale]
    · rw [MemStorage.installSnapshot_stale hstale]
      exact dropSnapshot_stores h sink
    · intro part hpart
      exact AList.lookup_erase_ne hpart

end DiskStorage

end Raft
end Minicask
