import Minicask.Server.Replies
import Minicask.Store.PowerCut

/-!
# Group commit

`server.rs`: a write goes into the store's buffer, and its reply waits until an fsync
has covered it.  Whoever needs an fsync first runs one, outside the locks, for
everyone.

A step of the server is one section under a lock, or the beginning or the end of an
fsync.  What an fsync makes durable is what the kernel had when it began.
-/

namespace Minicask

/-- What the kernel had when an fsync of it began is sure to survive. -/
def File.syncUpTo (file : File) (extent : Nat) : File where
  bytes := file.bytes
  synced := max file.synced (min extent file.bytes.length)
  synced_le := Nat.max_le.mpr ⟨file.synced_le, Nat.min_le_right _ _⟩

def Dir.syncUpTo (dir : Dir) (id : FileId) (extent : Nat) : Dir :=
  dir.modify id (fun file => file.syncUpTo extent)

/-- What is sure to survive of a data file. -/
def Disk.durable (disk : Disk) (id : FileId) : Bytes :=
  (disk.contents id).take (disk.synced id)

abbrev Point := FileId × Nat

/-- Points compare in the order they were written. -/
def Point.Before (p q : Point) : Prop :=
  p.1 < q.1 ∨ (p.1 = q.1 ∧ p.2 < q.2)

instance (p q : Point) : Decidable (p.Before q) :=
  inferInstanceAs (Decidable (p.1 < q.1 ∨ (p.1 = q.1 ∧ p.2 < q.2)))

/-- A file to fsync, and the point that will then be durable. -/
structure SyncHandle where
  file : FileId
  point : Point
deriving Repr, DecidableEq

/-- Where a write of a record is refused: the buffer, or the sync, of the file that is
sealed, the next file, the handle that reads it, or the record itself. -/
inductive Refusal where
  | flushing
  | sealing
  | creating
  | opening
  | appending
deriving Repr, DecidableEq

namespace Store

def syncHandle (s : Store) : SyncHandle × Store :=
  let (writer, dir) := s.writer.flush s.dir
  let s := { s with writer := writer, dir := dir }
  ({ file := s.writer.fileId, point := Server.appendPoint s }, s)

def noteSynced (s : Store) (point : Point) : Store :=
  if point.1 = s.writer.fileId ∧ s.writer.synced < point.2 then
    { s with writer := { s.writer with synced := point.2 } }
  else s

/-- What is left of a store where the write of a record was refused.  Nothing of
what was refused goes in. -/
def refuse (s : Store) (bytes : Bytes) (reach : Reach) : Refusal -> Store
  | Refusal.flushing => s
  | Refusal.sealing =>
      let (writer, dir) := s.writer.flush s.dir
      { s with writer := writer, dir := dir }
  | Refusal.creating =>
      let (writer, dir) := s.writer.sync s.dir
      { s with
        writer := writer
        dir := Hint.write dir writer.fileId writer.offset s.activeHints
        activeHints := [] }
  | Refusal.opening =>
      { s.sealInto (s.writer.fileId + 1) with readers := s.readers }
  | Refusal.appending =>
      let s := s.rollIfNeeded bytes.length
      if reach ≠ Reach.buffer ∧ s.writer.pending.isEmpty then s
      else
        { s with
          writer := { s.writer with
            pending := s.writer.pending ++ bytes
            offset := s.writer.offset + bytes.length } }

end Store

namespace Server

/-- Where durability has got to, and whether someone is moving it. -/
structure Durable where
  point : Point
  syncing : Bool
deriving Repr, DecidableEq

/-- How far a connection is.  It serves commands, with the point that its replies
wait for, and then is in one of the sections of `wait`: before the lock, with the flag
taken, with a handle, inside the fsync, and past it.  A `wait` that has returned says
how. -/
inductive Stage where
  | serving (durableBy : Option Point)
  | waiting (point : Point)
  | elected (point : Point)
  | holding (point : Point) (handle : SyncHandle)
  | syncing (point : Point) (handle : SyncHandle) (extent : Nat)
  | synced (point : Point) (result : Except Error Point)
  | noted (point : Point) (result : Except Error Point)
  | acknowledged (point : Point)
  | failed (point : Point) (e : Error)

/-- Between taking the flag and giving it back. -/
def Stage.Moves : Stage -> Prop
  | elected _ => True
  | holding _ _ => True
  | syncing _ _ _ => True
  | synced _ _ => True
  | noted _ _ => True
  | _ => False

/-- The store and the durable point, which the connections share, and how far each
of them is. -/
structure Threads where
  store : Store
  state : Durable
  stage : Nat -> Stage

/-- Whatever the store opened with counts as durable. -/
def bind (s : Store) : Threads where
  store := s
  state := { point := appendPoint s, syncing := false }
  stage := fun _ => Stage.serving none

def turn (state : Durable) (point : Point) : Durable × Stage :=
  if ¬state.point.Before point then (state, Stage.acknowledged point)
  else if !state.syncing then
    ({ state with syncing := true }, Stage.elected point)
  else (state, Stage.waiting point)

/-- The lock is taken again after an fsync, and the loop goes on if it went well. -/
def settle (state : Durable) (point : Point) (result : Except Error Point) :
    Durable × Stage :=
  let state := { state with syncing := false }
  match result with
  | Except.error e => (state, Stage.failed point e)
  | Except.ok reached =>
      turn (if state.point.Before reached then { state with point := reached }
        else state) point

abbrev Writes : Store -> Store -> Prop :=
  Relation.ReflTransGen (fun s s' => exists reach, s.Flowed reach s')

namespace Threads

def enter (t : Threads) (i : Nat) (stage : Stage) : Threads :=
  { t with stage := Function.update t.stage i stage }

/-- One section under a lock, or the beginning or the end of an fsync. -/
inductive Step (t : Threads) : Threads -> Prop where
  | command {i : Nat} {durableBy : Option Point} (os : Answers)
      (command : Bytes) (args : List Bytes)
      (hstage : t.stage i = Stage.serving durableBy)
      (hgranted : forall turn, os.refused turn = none) :
      Step t ({ t with
        store := (dispatch os t.store durableBy command args).2.1 }.enter i
          (Stage.serving (dispatch os t.store durableBy command args).2.2))
  /- A command that the disk refuses a write, after some that went through. -/
  | refused {i : Nat} {durableBy : Option Point} {s : Store} (bytes : Bytes)
      (reach : Reach) (refusal : Refusal)
      (hstage : t.stage i = Stage.serving durableBy)
      (hwrites : Writes t.store s) :
      Step t ({ t with store := s.refuse bytes reach refusal }.enter i
        (Stage.serving (mustReach (s.refuse bytes reach refusal) durableBy)))
  | send {i : Nat} {point : Point}
      (hstage : t.stage i = Stage.serving (some point)) :
      Step t (t.enter i (Stage.waiting point))
  /- On coming in, or on waking up. -/
  | lock {i : Nat} {point : Point} (hstage : t.stage i = Stage.waiting point) :
      Step t ({ t with state := (turn t.state point).1 }.enter i
        (turn t.state point).2)
  | handle {i : Nat} {point : Point}
      (hstage : t.stage i = Stage.elected point) :
      Step t ({ t with store := t.store.syncHandle.2 }.enter i
        (Stage.holding point t.store.syncHandle.1))
  /- The flush is refused, or the handle. -/
  | handleRefused {i : Nat} {point : Point} (flushed : Bool) (why : String)
      (hstage : t.stage i = Stage.elected point) :
      Step t ({ t with
        store := if flushed then t.store.syncHandle.2 else t.store }.enter i
          (Stage.synced point (Except.error (Error.io why))))
  | enterFsync {i : Nat} {point : Point} {handle : SyncHandle}
      (hstage : t.stage i = Stage.holding point handle) :
      Step t (t.enter i (Stage.syncing point handle
        (t.store.dir.disk.contents handle.file).length))
  | leaveFsync {i : Nat} {point : Point} {handle : SyncHandle} {extent : Nat}
      (hstage : t.stage i = Stage.syncing point handle extent) :
      Step t ({ t with store := { t.store with
        dir := t.store.dir.syncUpTo handle.file extent } }.enter i
          (Stage.synced point (Except.ok handle.point)))
  | fsyncRefused {i : Nat} {point : Point} {handle : SyncHandle} {extent : Nat}
      (why : String)
      (hstage : t.stage i = Stage.syncing point handle extent) :
      Step t (t.enter i (Stage.synced point (Except.error (Error.io why))))
  | note {i : Nat} {point reached : Point}
      (hstage : t.stage i = Stage.synced point (Except.ok reached)) :
      Step t ({ t with store := t.store.noteSynced reached }.enter i
        (Stage.noted point (Except.ok reached)))
  | skip {i : Nat} {point : Point} {e : Error}
      (hstage : t.stage i = Stage.synced point (Except.error e)) :
      Step t (t.enter i (Stage.noted point (Except.error e)))
  | settle {i : Nat} {point : Point} {result : Except Error Point}
      (hstage : t.stage i = Stage.noted point result) :
      Step t ({ t with state := (settle t.state point result).1 }.enter i
        (settle t.state point result).2)
  /- The replies are sent, and the connection goes on. -/
  | reply {i : Nat} {point : Point}
      (hstage : t.stage i = Stage.acknowledged point) :
      Step t (t.enter i (Stage.serving none))

end Threads

/-- The server from the moment it is bound: the states it has been in, newest first,
and the one it is in. -/
inductive Run (s : Store) : List Threads -> Threads -> Prop where
  | bind : Run s [] (bind s)
  | step {past : List Threads} {t t' : Threads} (h : Run s past t)
      (hstep : t.Step t') : Run s (t :: past) t'

end Server

/-!
# How the log grows
-/

namespace Store

/-- A later state of a store whose files only grow.  The files that were sealed in
between are synced. -/
structure Grew (s s' : Store) : Prop where
  ok : s'.writer.Ok s'.dir
  newer : s.writer.fileId <= s'.writer.fileId
  sealed : forall id, s.writer.fileId <= id -> id < s'.writer.fileId ->
    s'.dir.disk.synced id = (s'.dir.disk.contents id).length
  synced : forall id, s.dir.disk.synced id <= s'.dir.disk.synced id
  kernel : forall id, s.dir.disk.contents id <+: s'.dir.disk.contents id
  below : forall id, id < s.writer.fileId ->
    s'.dir.disk.contents id = s.dir.disk.contents id
  held : s.contents s.writer.fileId <+: s'.contents s.writer.fileId

theorem Grew.refl {s : Store} (h : s.writer.Ok s.dir) : s.Grew s where
  ok := h
  newer := Nat.le_refl _
  sealed _ hle hlt := absurd hle (Nat.not_le_of_lt hlt)
  synced _ := Nat.le_refl _
  kernel _ := List.prefix_refl _
  below _ _ := rfl
  held := List.prefix_refl _

theorem contents_of_lt {s : Store} {id : FileId} (h : id < s.writer.fileId) :
    s.contents id = s.dir.disk.contents id :=
  if_neg (Nat.ne_of_lt h)

theorem Grew.contents {s s' : Store} (h : s.Grew s') {id : FileId}
    (hid : id <= s.writer.fileId) : s.contents id <+: s'.contents id := by
  rcases Nat.lt_or_eq_of_le hid with hlt | heq
  · rewrite [contents_of_lt hlt,
      contents_of_lt (Nat.lt_of_lt_of_le hlt h.newer), h.below id hlt]
    exact List.prefix_refl _
  · rw [heq]
    exact h.held

theorem Grew.trans {s s' s'' : Store} (h : s.Grew s') (h' : s'.Grew s'') :
    s.Grew s'' where
  ok := h'.ok
  newer := Nat.le_trans h.newer h'.newer
  sealed id hle hlt := by
    by_cases hbelow : id < s'.writer.fileId
    · have hsealed := h.sealed id hle hbelow
      have hsynced := h'.synced id
      have hmost := s''.dir.disk.synced_le id
      rw [h'.below id hbelow] at hmost ⊢
      omega
    · exact h'.sealed id (Nat.le_of_not_lt hbelow) hlt
  synced id := Nat.le_trans (h.synced id) (h'.synced id)
  kernel id := (h.kernel id).trans (h'.kernel id)
  below id hlt :=
    (h'.below id (Nat.lt_of_lt_of_le hlt h.newer)).trans (h.below id hlt)
  held := h.held.trans (h'.contents h.newer)

theorem grew_of_appended {s s' : Store} {bytes : Bytes}
    (hok : s.writer.Ok s.dir)
    (h : LogWriter.Appended s.writer s.dir bytes s'.writer s'.dir) :
    s.Grew s' where
  ok := h.ok
  newer := Nat.le_of_eq h.fileId.symm
  sealed id hle hlt := by
    rw [h.fileId] at hlt
    exact absurd hle (Nat.not_le_of_lt hlt)
  synced id := by
    by_cases heq : id = s.writer.fileId
    · rw [heq]
      exact h.frame.synced
    · rw [Disk.synced, Disk.synced, h.frame.lookup id heq]
  kernel id := by
    by_cases heq : id = s.writer.fileId
    · rw [heq]
      exact h.kept hok
    · rewrite [h.frame.contents heq]
      exact List.prefix_refl _
  below id hlt := h.frame.contents (Nat.ne_of_lt hlt)
  held := by
    unfold Store.contents
    rw [if_pos rfl, if_pos h.fileId.symm, h.contents]
    exact List.prefix_append _ _

/-- The files are as they were, and the writer too but for what it believes to be
synced. -/
theorem grew_of_same {s s' : Store} (hok : s.writer.Ok s.dir)
    (hdata : s'.dir.disk.data = s.dir.disk.data)
    (hwriter : exists synced, s'.writer = { s.writer with synced := synced }) :
    s.Grew s' := by
  rcases hwriter with ⟨synced, hwriter⟩
  have hcontents : forall id,
      s'.dir.disk.contents id = s.dir.disk.contents id := by
    intro id
    rw [Disk.contents, Disk.contents, hdata]
  have hsynced : forall id, s'.dir.disk.synced id = s.dir.disk.synced id := by
    intro id
    rw [Disk.synced, Disk.synced, hdata]
  refine ⟨⟨?_, ?_, ?_⟩, ?_, ?_, ?_, ?_, ?_, ?_⟩
  · rw [hwriter, hdata]
    exact hok.linked
  · rw [hwriter, hcontents]
    exact hok.written
  · rw [hwriter]
    exact hok.offset
  · rw [hwriter]
  · intro id hle hlt
    rw [hwriter] at hlt
    exact absurd hle (Nat.not_le_of_lt hlt)
  · exact fun id => Nat.le_of_eq (hsynced id).symm
  · intro id
    rewrite [hcontents]
    exact List.prefix_refl _
  · exact fun id _ => hcontents id
  · unfold Store.contents LogWriter.contents
    rewrite [hwriter, if_pos rfl, if_pos rfl, hcontents]
    exact List.prefix_refl _

theorem grew_openFile {s s' : Store} (hok : s.writer.Ok s.dir)
    (hpending : s.writer.pending = [])
    (hsynced : s.dir.disk.synced s.writer.fileId = s.writer.offset)
    (hopened : (s'.writer, s'.dir) =
      LogWriter.openFile s.dir (s.writer.fileId + 1)) : s.Grew s' := by
  have hwriter := congrArg Prod.fst hopened
  have hdir := congrArg Prod.snd hopened
  dsimp only at hwriter hdir
  have hid : s'.writer.fileId = s.writer.fileId + 1 := by
    rw [hwriter]
    rfl
  have hlt : s.writer.fileId < s'.writer.fileId := by
    rw [hid]
    exact Nat.lt_succ_self _
  have hlookup : forall id, id <= s.writer.fileId ->
      s'.dir.disk.data.lookup id = s.dir.disk.data.lookup id := by
    intro id hle
    rw [hdir]
    exact (Dir.lookup_create _ _ _).trans
      (if_neg (Nat.ne_of_lt (Nat.lt_succ_of_le hle)))
  have hcontents : forall id, id <= s.writer.fileId ->
      s'.dir.disk.contents id = s.dir.disk.contents id := by
    intro id hle
    rw [Disk.contents, Disk.contents, hlookup id hle]
  have hfile : forall id,
      (s'.dir.disk.data.lookup id).getD {} =
        (s.dir.disk.data.lookup id).getD {} := by
    intro id
    rw [hdir]
    refine (congrArg (fun file => file.getD {}) (Dir.lookup_create _ _ _)).trans ?_
    split
    · rename_i heq
      rw [heq]
      rfl
    · rfl
  refine ⟨?_, ?_, ?_, ?_, ?_, ?_, ?_⟩
  · rw [hwriter, hdir]
    exact LogWriter.ok_openFile
  · exact Nat.le_of_lt hlt
  · intro id hle hbelow
    rw [hid] at hbelow
    have heq : id = s.writer.fileId :=
      Nat.le_antisymm (Nat.le_of_lt_succ hbelow) hle
    rw [heq, hcontents _ (Nat.le_refl _), Disk.synced,
      hlookup _ (Nat.le_refl _), hok.written]
    have hoffset := hok.offset
    rw [hpending] at hoffset
    exact hsynced.trans hoffset
  · intro id
    rw [Disk.synced, Disk.synced, hfile]
  · intro id
    rewrite [Disk.contents, Disk.contents, hfile]
    exact List.prefix_refl _
  · exact fun id hlt => hcontents id (Nat.le_of_lt hlt)
  · rewrite [contents_of_lt hlt, hcontents _ (Nat.le_refl _), Store.contents,
      if_pos rfl, LogWriter.contents, hpending, List.append_nil]
    exact List.prefix_refl _

theorem grew_sealed {s s' : Store} (hok : s.writer.Ok s.dir)
    (hwriter : s'.writer = s.sync.writer)
    (hdata : s'.dir.disk.data = s.sync.dir.disk.data) : s.Grew s' := by
  have hsync : s.Grew s.sync :=
    grew_of_appended hok (LogWriter.appended_sync hok).1
  exact hsync.trans (grew_of_same hsync.ok hdata ⟨_, hwriter⟩)

theorem grew_sealInto {s : Store} (hok : s.writer.Ok s.dir) :
    s.Grew (s.sealInto (s.writer.fileId + 1)) := by
  rcases LogWriter.appended_sync hok with ⟨hsync, hpending⟩
  have hid : s.sync.writer.fileId = s.writer.fileId := hsync.fileId
  let hinted : Store := { s.sync with
    dir := Hint.write s.sync.dir s.sync.writer.fileId s.sync.writer.offset
      s.activeHints }
  have hgrew : s.Grew hinted := grew_sealed hok rfl rfl
  refine hgrew.trans (grew_openFile hgrew.ok hpending ?_ ?_)
  · show s.sync.dir.disk.synced s.sync.writer.fileId = s.sync.writer.offset
    rw [hid]
    refine (LogWriter.synced_sync hok).trans ?_
    exact (hsync.offset hok).symm
  · show _ = LogWriter.openFile hinted.dir (s.sync.writer.fileId + 1)
    rw [hid]
    rfl

theorem grew_rollIfNeeded {s : Store} (hok : s.writer.Ok s.dir)
    (incoming : Nat) : s.Grew (s.rollIfNeeded incoming) := by
  unfold rollIfNeeded
  split
  · exact Grew.refl hok
  · exact grew_sealInto hok

theorem Flowed.grew {s s' : Store} {reach : Reach} (hok : s.writer.Ok s.dir)
    (h : s.Flowed reach s') : s.Grew s' := by
  rcases h with ⟨_, bytes, hwriter, hdir⟩
  have hrolled := grew_rollIfNeeded hok bytes.length
  have happended := (LogWriter.appended_append hrolled.ok bytes reach).2
  rw [← hwriter, ← hdir] at happended
  exact hrolled.trans (grew_of_appended hrolled.ok happended)

theorem grew_syncHandle {s : Store} (hok : s.writer.Ok s.dir) :
    s.Grew s.syncHandle.2 :=
  grew_of_appended hok (LogWriter.appended_flush hok).1

theorem grew_noteSynced {s : Store} (hok : s.writer.Ok s.dir) (point : Point) :
    s.Grew (s.noteSynced point) := by
  unfold noteSynced
  split
  · exact grew_of_same hok rfl ⟨_, rfl⟩
  · exact Grew.refl hok

/-- Whatever is refused, what is in the log stays there. -/
theorem grew_refuse {s : Store} (hok : s.writer.Ok s.dir) (bytes : Bytes)
    (reach : Reach) (refusal : Refusal) :
    s.Grew (s.refuse bytes reach refusal) := by
  cases refusal with
  | flushing => exact Grew.refl hok
  | sealing =>
      exact grew_of_appended hok (LogWriter.appended_flush hok).1
  | creating => exact grew_sealed hok rfl rfl
  | opening =>
      have hsealed := grew_sealInto hok
      exact hsealed.trans (grew_of_same hsealed.ok rfl ⟨_, rfl⟩)
  | appending =>
      have hrolled := grew_rollIfNeeded hok bytes.length
      unfold refuse
      dsimp only
      split
      · exact hrolled
      · exact hrolled.trans (grew_of_appended hrolled.ok
          (LogWriter.appended_pending hrolled.ok bytes))

theorem grew_syncUpTo {s : Store} (hok : s.writer.Ok s.dir) (id : FileId)
    (extent : Nat) :
    s.Grew { s with dir := s.dir.syncUpTo id extent } := by
  have hlookup := fun other => Dir.lookup_modify s.dir id
    (fun file => file.syncUpTo extent) other
  have hsame : forall other, other ≠ id ->
      (s.dir.syncUpTo id extent).disk.data.lookup other =
        s.dir.disk.data.lookup other := by
    intro other hne
    exact (hlookup other).trans (if_neg hne)
  have hcontents : forall other,
      (s.dir.syncUpTo id extent).disk.contents other =
        s.dir.disk.contents other := by
    intro other
    by_cases heq : other = id
    · rw [heq, Disk.contents, Disk.contents, Dir.syncUpTo, hlookup, if_pos rfl]
      cases s.dir.disk.data.lookup id with
      | none => rfl
      | some file => rfl
    · rw [Disk.contents, Disk.contents, hsame other heq]
  have hframe : Dir.SameBut id s.dir (s.dir.syncUpTo id extent) :=
    Dir.modify_sameBut s.dir id (fun file => Nat.le_max_left _ _)
  refine ⟨⟨?_, ?_, hok.offset⟩, Nat.le_refl _, ?_, ?_, ?_, ?_, ?_⟩
  · show s.writer.fileId ∈ (s.dir.syncUpTo id extent).disk.data
    by_cases heq : s.writer.fileId = id
    · rw [heq]
      exact hframe.linked (heq ▸ hok.linked)
    · rw [← AList.lookup_isSome, hsame _ heq, AList.lookup_isSome]
      exact hok.linked
  · show ((s.dir.syncUpTo id extent).disk.contents _).length = _
    rw [hcontents]
    exact hok.written
  · intro other hle hlt
    exact absurd hle (Nat.not_le_of_lt hlt)
  · intro other
    by_cases heq : other = id
    · rw [heq]
      exact hframe.synced
    · show _ <= (s.dir.syncUpTo id extent).disk.synced other
      rw [Disk.synced, Disk.synced, hsame other heq]
  · intro other
    show _ <+: (s.dir.syncUpTo id extent).disk.contents other
    rewrite [hcontents]
    exact List.prefix_refl _
  · exact fun other _ => hcontents other
  · show _ <+: Store.contents { s with dir := s.dir.syncUpTo id extent } _
    unfold Store.contents LogWriter.contents
    rewrite [if_pos rfl, if_pos rfl]
    dsimp only
    rewrite [hcontents]
    exact List.prefix_refl _

/-- An fsync that began when the kernel had so much has put it on the disk. -/
theorem synced_syncUpTo {s : Store} {id : FileId} {extent : Nat}
    (hle : extent <= (s.dir.disk.contents id).length) :
    extent <= (s.dir.syncUpTo id extent).disk.synced id := by
  rw [Disk.synced, Dir.syncUpTo, Dir.lookup_modify, if_pos rfl]
  unfold Disk.contents at hle
  cases hlookup : s.dir.disk.data.lookup id with
  | none =>
      rw [hlookup] at hle
      exact hle
  | some file =>
      rw [hlookup] at hle
      exact Nat.le_trans (Nat.le_min.mpr ⟨Nat.le_refl _, hle⟩)
        (Nat.le_max_right _ _)

end Store

namespace Server

/-!
# What a command writes
-/

namespace Answers

theorem writes_put {os : Answers} (hgranted : forall turn, os.refused turn = none)
    (turn : Nat) (s : Store) (key value : Bytes) :
    Writes s (os.put turn s key value).2 := by
  unfold put
  rw [hgranted turn]
  dsimp only
  split
  · exact Relation.ReflTransGen.refl
  · rename_i written hwritten
    split at hwritten
    · exact Relation.ReflTransGen.single ⟨_, Store.flowed_putWith hwritten⟩
    · exact Relation.ReflTransGen.single ⟨_, Store.flowed_putWith hwritten⟩

theorem writes_deleteWith {s s' : Store} {key : Bytes} {reach : Reach}
    {now later : UInt64} {was : Bool}
    (h : s.deleteWith key reach now later = Except.ok (s', was)) :
    Writes s s' := by
  cases was with
  | true => exact Relation.ReflTransGen.single ⟨_, Store.flowed_deleteWith h⟩
  | false =>
      rcases Store.deleteWith_eq_ok h with ⟨_, _, ⟨_, hsame⟩ | ⟨hlive, _⟩⟩
      · rw [hsame]
      · cases hlive

theorem writes_delete {os : Answers}
    (hgranted : forall turn, os.refused turn = none) (turn : Nat) (s : Store)
    (key : Bytes) : Writes s (os.delete turn s key).2 := by
  unfold delete
  rw [hgranted turn]
  dsimp only
  split
  · exact Relation.ReflTransGen.refl
  · rename_i deleted was hdeleted
    split at hdeleted
    · exact writes_deleteWith hdeleted
    · exact writes_deleteWith hdeleted

end Answers

theorem writes_deleteAll {os : Answers}
    (hgranted : forall turn, os.refused turn = none) (keys : List Bytes) :
    forall (turn : Nat) (s : Store), Writes s (deleteAll os turn s keys).2 := by
  induction keys with
  | nil => exact fun _ _ => Relation.ReflTransGen.refl
  | cons key keys ih =>
      intro turn s
      have hone := Answers.writes_delete hgranted turn s key
      unfold deleteAll
      split
      · rename_i e s' heq
        rw [heq] at hone
        exact hone
      · rename_i was s' heq
        rw [heq] at hone
        exact hone.trans (ih (turn + 1) s')

theorem writes_putAll {os : Answers}
    (hgranted : forall turn, os.refused turn = none) (turn : Nat) (s : Store)
    (pairs : List Bytes) : Writes s (putAll os turn s pairs).2 := by
  fun_induction putAll os turn s pairs with
  | case1 turn s key value pairs e s' heq =>
      have hone := Answers.writes_put hgranted turn s key value
      rw [heq] at hone
      exact hone
  | case2 turn s key value pairs s' heq ih =>
      have hone := Answers.writes_put hgranted turn s key value
      rw [heq] at hone
      exact hone.trans ih
  | case3 => exact Relation.ReflTransGen.refl

theorem writes_set {os : Answers}
    (hgranted : forall turn, os.refused turn = none) (s : Store)
    (key value : Bytes) (options : List Bytes) :
    Writes s (set os s key value options).2 := by
  unfold set
  split
  · exact Relation.ReflTransGen.refl
  · split
    · exact Relation.ReflTransGen.refl
    · dsimp only
      split
      · exact Relation.ReflTransGen.refl
      · exact Answers.writes_put hgranted 0 s key value

theorem writes_run {os : Answers}
    (hgranted : forall turn, os.refused turn = none) (s : Store)
    (durableBy : Option Point) (name : String) (verb : Verb)
    (args : List Bytes) :
    Writes s (run os s durableBy name verb args).2.1 := by
  fun_cases run os s durableBy name verb args
  case case8 key value options reply left heq =>
      have hset := writes_set hgranted s key value options
      rw [heq] at hset
      exact hset
  case case11 count left _ heq =>
      have hdeleted := writes_deleteAll hgranted args 0 s
      rw [heq] at hdeleted
      exact hdeleted
  case case18 written left _ _ heq =>
      have hput := writes_putAll hgranted 0 s args
      rw [heq] at hput
      exact hput
  case case23 count left heq =>
      have hdeleted := writes_deleteAll hgranted s.keys 0 s
      rw [heq] at hdeleted
      exact hdeleted
  all_goals exact Relation.ReflTransGen.refl

theorem writes_dispatch {os : Answers}
    (hgranted : forall turn, os.refused turn = none) (s : Store)
    (durableBy : Option Point) (command : Bytes) (args : List Bytes) :
    Writes s (dispatch os s durableBy command args).2.1 := by
  unfold dispatch
  dsimp only
  split
  · exact Relation.ReflTransGen.refl
  · rename_i verb _
    have hrun := writes_run hgranted s durableBy (commandName command) verb args
    split
    · rename_i heq
      rw [heq] at hrun
      exact hrun
    · rename_i heq
      rw [heq] at hrun
      exact hrun

theorem Writes.grew {s s' : Store} (hok : s.writer.Ok s.dir)
    (h : Writes s s') : s.Grew s' := by
  induction h with
  | refl => exact Store.Grew.refl hok
  | tail _ hlast ih =>
      rcases hlast with ⟨reach, hflowed⟩
      exact ih.trans (hflowed.grew ih.ok)

theorem Writes.opts {s s' : Store} (h : Writes s s') : s'.opts = s.opts := by
  induction h with
  | refl => rfl
  | tail _ hlast ih =>
      rcases hlast with ⟨reach, hflowed⟩
      exact hflowed.1.trans ih

/-!
# What holds all along
-/

theorem Point.before_iff (p q : Point) :
    p.Before q ↔ @LT.lt Nat _ p.1 q.1 ∨ (@Eq Nat p.1 q.1 ∧ p.2 < q.2) :=
  Iff.rfl

theorem Point.not_before_self (p : Point) : ¬p.Before p := by
  rw [Point.before_iff]
  omega

theorem Point.Before.trans_le {p q r : Point} (h : p.Before q)
    (h' : ¬r.Before q) : p.Before r := by
  rw [Point.before_iff] at *
  omega

/-- The log is durable up to a point: all of the files that were sealed since `first`,
and this much of the one after them. -/
structure Covered (first now : Store) (point : Point) : Prop where
  after : first.writer.fileId <= point.1
  within : point.1 <= now.writer.fileId
  synced : point.2 <= now.dir.disk.synced point.1

theorem Covered.grew {first now later : Store} {point : Point}
    (h : Covered first now point) (hgrew : now.Grew later) :
    Covered first later point where
  after := h.after
  within := Nat.le_trans h.within hgrew.newer
  synced := Nat.le_trans h.synced (hgrew.synced point.1)

/-- What a connection knows in each section of `wait`. -/
def Stage.Holds (first now : Store) : Stage -> Prop
  | holding _ handle =>
      handle.point.1 = handle.file ∧
        first.writer.fileId <= handle.file ∧
        handle.file <= now.writer.fileId ∧
        handle.point.2 <= (now.dir.disk.contents handle.file).length
  | syncing _ handle extent =>
      handle.point.1 = handle.file ∧
        first.writer.fileId <= handle.file ∧
        handle.file <= now.writer.fileId ∧
        handle.point.2 <= extent ∧
        extent <= (now.dir.disk.contents handle.file).length
  | synced _ (Except.ok reached) => Covered first now reached
  | noted _ (Except.ok reached) => Covered first now reached
  | acknowledged point =>
      ¬Point.Before (appendPoint first) point ∨
        exists reached, Covered first now reached ∧
          ¬Point.Before reached point
  | _ => True

theorem Stage.Holds.grew {first now later : Store} {stage : Stage}
    (h : stage.Holds first now) (hgrew : now.Grew later) :
    stage.Holds first later := by
  have hlength := fun id => (hgrew.kernel id).length_le
  cases stage with
  | holding point handle =>
      rcases h with ⟨hpoint, hfirst, hnow, hkernel⟩
      exact ⟨hpoint, hfirst, Nat.le_trans hnow hgrew.newer,
        Nat.le_trans hkernel (hlength _)⟩
  | syncing point handle extent =>
      rcases h with ⟨hpoint, hfirst, hnow, hextent, hkernel⟩
      exact ⟨hpoint, hfirst, Nat.le_trans hnow hgrew.newer, hextent,
        Nat.le_trans hkernel (hlength _)⟩
  | synced point result =>
      cases result with
      | error e => trivial
      | ok reached => exact Covered.grew h hgrew
  | noted point result =>
      cases result with
      | error e => trivial
      | ok reached => exact Covered.grew h hgrew
  | acknowledged point =>
      rcases h with hfirst | ⟨reached, hcovered, hreached⟩
      · exact Or.inl hfirst
      · exact Or.inr ⟨reached, hcovered.grew hgrew, hreached⟩
  | serving durableBy => trivial
  | waiting point => trivial
  | elected point => trivial
  | failed point e => trivial

theorem Stage.holds_syncHandle {first now : Store} (h : first.Grew now)
    (point : Point) :
    (holding point now.syncHandle.1).Holds first now.syncHandle.2 := by
  rcases LogWriter.appended_flush h.ok with ⟨hflush, hpending⟩
  have hid : now.syncHandle.2.writer.fileId = now.writer.fileId :=
    hflush.fileId
  have hwritten : (now.syncHandle.2.dir.disk.contents
      now.syncHandle.2.writer.fileId).length =
        now.syncHandle.2.writer.written := hflush.ok.written
  have hoffset : now.syncHandle.2.writer.offset =
      now.syncHandle.2.writer.written := by
    have := hflush.ok.offset
    rw [hpending] at this
    exact this
  refine ⟨rfl, ?_, Nat.le_refl _, ?_⟩
  · show first.writer.fileId <= now.syncHandle.2.writer.fileId
    rw [hid]
    exact h.newer
  · show now.syncHandle.2.writer.offset <= (now.syncHandle.2.dir.disk.contents
      now.syncHandle.2.writer.fileId).length
    rw [hwritten, hoffset]

/-- The durable point is covered, nobody but whoever took the flag moves it, and
each connection knows what it should. -/
structure Threads.Ok (first : Store) (t : Threads) : Prop where
  grew : first.Grew t.store
  point : t.state.point = appendPoint first ∨
    Covered first t.store t.state.point
  stages : forall i, (t.stage i).Holds first t.store
  flagged : forall i, (t.stage i).Moves -> t.state.syncing = true
  alone : forall i j, (t.stage i).Moves -> (t.stage j).Moves -> i = j

namespace Threads.Ok

/-- A connection enters another section.  If it moves the durable point there then
nobody else does. -/
theorem replace {first : Store} {t t' : Threads} {i : Nat} {stage : Stage}
    (h : t.Ok first) (hgrew : t.store.Grew t'.store)
    (hstages : t'.stage = t.stage)
    (hpoint : t'.state.point = appendPoint first ∨
      Covered first t'.store t'.state.point)
    (hholds : stage.Holds first t'.store)
    (hothers : forall j, j ≠ i -> (t.stage j).Moves ->
      t'.state.syncing = true)
    (hmoves : stage.Moves -> t'.state.syncing = true ∧
      forall j, j ≠ i -> ¬(t.stage j).Moves) :
    (t'.enter i stage).Ok first := by
  have hself : (t'.enter i stage).stage i = stage := by
    simp [Threads.enter]
  have hother : forall j, j ≠ i ->
      (t'.enter i stage).stage j = t.stage j := by
    intro j hne
    simp [Threads.enter, Function.update_of_ne hne, hstages]
  refine ⟨h.grew.trans hgrew, hpoint, ?_, ?_, ?_⟩
  · intro j
    by_cases heq : j = i
    · rw [heq, hself]
      exact hholds
    · rw [hother j heq]
      exact (h.stages j).grew hgrew
  · intro j hj
    by_cases heq : j = i
    · rw [heq, hself] at hj
      exact (hmoves hj).1
    · rw [hother j heq] at hj
      exact hothers j heq hj
  · intro j k hj hk
    by_cases hji : j = i
    · by_cases hki : k = i
      · rw [hji, hki]
      · rw [hji, hself] at hj
        rw [hother k hki] at hk
        exact absurd hk ((hmoves hj).2 k hki)
    · by_cases hki : k = i
      · rw [hki, hself] at hk
        rw [hother j hji] at hj
        exact absurd hj ((hmoves hk).2 j hji)
      · rw [hother j hji] at hj
        rw [hother k hki] at hk
        exact h.alone j k hj hk

theorem enter {first : Store} {t : Threads} {i : Nat} {store : Store}
    {stage : Stage} (h : t.Ok first) (hgrew : t.store.Grew store)
    (hholds : stage.Holds first store)
    (hmoves : stage.Moves -> (t.stage i).Moves) :
    ({ t with store := store }.enter i stage).Ok first := by
  refine h.replace hgrew rfl ?_ hholds (fun j _ hj => h.flagged j hj) ?_
  · rcases h.point with hfirst | hcovered
    · exact Or.inl hfirst
    · exact Or.inr (hcovered.grew hgrew)
  · intro hmove
    refine ⟨h.flagged i (hmoves hmove), ?_⟩
    intro j hne hj
    exact hne (h.alone j i hj (hmoves hmove))

/-- A turn of the loop in `wait`.  Whoever finds the flag free takes it. -/
theorem turn {first : Store} {t : Threads} {i : Nat} {state : Durable}
    (point : Point) (h : t.Ok first)
    (hpoint : state.point = appendPoint first ∨
      Covered first t.store state.point)
    (hothers : forall j, j ≠ i -> (t.stage j).Moves -> state.syncing = true) :
    ({ t with state := (Server.turn state point).1 }.enter i
      (Server.turn state point).2).Ok first := by
  have hgrew := Store.Grew.refl h.grew.ok
  unfold Server.turn
  split
  · rename_i hreached
    refine h.replace hgrew rfl hpoint ?_ hothers (fun hmove => hmove.elim)
    rcases hpoint with hfirst | hcovered
    · rw [hfirst] at hreached
      exact Or.inl hreached
    · exact Or.inr ⟨state.point, hcovered, hreached⟩
  · split
    · rename_i hfree
      refine h.replace hgrew rfl hpoint trivial (fun _ _ _ => rfl) ?_
      refine fun _ => ⟨rfl, ?_⟩
      intro j hne hj
      rw [hothers j hne hj] at hfree
      cases hfree
    · exact h.replace hgrew rfl hpoint trivial hothers
        (fun hmove => hmove.elim)

theorem settle {first : Store} {t : Threads} {i : Nat} {point : Point}
    {result : Except Error Point} (h : t.Ok first)
    (hstage : t.stage i = Stage.noted point result) :
    ({ t with state := (Server.settle t.state point result).1 }.enter i
      (Server.settle t.state point result).2).Ok first := by
  have hmoves : (t.stage i).Moves := by
    rw [hstage]
    trivial
  have hnone : forall (b : Bool) j, j ≠ i -> (t.stage j).Moves -> b = true :=
    fun _ j hne hj => absurd (h.alone j i hj hmoves) hne
  have hholds := h.stages i
  rw [hstage] at hholds
  unfold Server.settle
  cases result with
  | error e =>
      exact h.replace (Store.Grew.refl h.grew.ok) rfl h.point trivial
        (hnone _) (fun hmove => hmove.elim)
  | ok reached =>
      dsimp only
      split
      · exact h.turn point (Or.inr hholds) (hnone _)
      · exact h.turn point h.point (hnone _)

theorem step {first : Store} {t t' : Threads} (h : t.Ok first)
    (hstep : t.Step t') : t.store.Grew t'.store ∧ t'.Ok first := by
  have hok := h.grew.ok
  have hsame := Store.Grew.refl hok
  cases hstep with
  | @command i durableBy os command args hstage hgranted =>
      have hgrew := Writes.grew hok
        (writes_dispatch hgranted t.store durableBy command args)
      exact ⟨hgrew, h.enter hgrew trivial (fun hmove => hmove.elim)⟩
  | refused bytes reach refusal hstage hwrites =>
      have hwrote := hwrites.grew hok
      have hgrew := hwrote.trans
        (Store.grew_refuse hwrote.ok bytes reach refusal)
      exact ⟨hgrew, h.enter hgrew trivial (fun hmove => hmove.elim)⟩
  | send hstage =>
      exact ⟨hsame, h.enter hsame trivial (fun hmove => hmove.elim)⟩
  | lock hstage =>
      refine ⟨hsame, h.turn _ h.point ?_⟩
      exact fun j _ hj => h.flagged j hj
  | @handle i point hstage =>
      have hgrew := Store.grew_syncHandle hok
      refine ⟨hgrew, h.enter hgrew ?_ ?_⟩
      · exact Stage.holds_syncHandle h.grew point
      · rw [hstage]
        exact id
  | @handleRefused i point flushed why hstage =>
      have hgrew : t.store.Grew
          (if flushed then t.store.syncHandle.2 else t.store) := by
        split
        · exact Store.grew_syncHandle hok
        · exact hsame
      refine ⟨hgrew, h.enter hgrew trivial ?_⟩
      rw [hstage]
      exact id
  | @enterFsync i point handle hstage =>
      have hholds := h.stages i
      rw [hstage] at hholds
      rcases hholds with ⟨hpoint, hfirst, hnow, hkernel⟩
      refine ⟨hsame, h.enter hsame
        ⟨hpoint, hfirst, hnow, hkernel, Nat.le_refl _⟩ ?_⟩
      rw [hstage]
      exact id
  | @leaveFsync i point handle extent hstage =>
      have hholds := h.stages i
      rw [hstage] at hholds
      rcases hholds with ⟨hpoint, hfirst, hnow, hextent, hkernel⟩
      have hgrew := Store.grew_syncUpTo hok handle.file extent
      refine ⟨hgrew, h.enter hgrew ?_ ?_⟩
      · refine ⟨hpoint ▸ hfirst, hpoint ▸ hnow, ?_⟩
        rw [hpoint]
        exact Nat.le_trans hextent (Store.synced_syncUpTo hkernel)
      · rw [hstage]
        exact id
  | @fsyncRefused i point handle extent why hstage =>
      refine ⟨hsame, h.enter hsame trivial ?_⟩
      rw [hstage]
      exact id
  | @note i point reached hstage =>
      have hholds := h.stages i
      rw [hstage] at hholds
      have hgrew := Store.grew_noteSynced hok reached
      refine ⟨hgrew, h.enter hgrew (Covered.grew hholds hgrew) ?_⟩
      rw [hstage]
      exact id
  | @skip i point e hstage =>
      refine ⟨hsame, h.enter hsame trivial ?_⟩
      rw [hstage]
      exact id
  | settle hstage => exact ⟨hsame, h.settle hstage⟩
  | reply hstage =>
      exact ⟨hsame, h.enter hsame trivial (fun hmove => hmove.elim)⟩

end Threads.Ok

theorem Threads.ok_bind {s : Store} (hok : s.writer.Ok s.dir) :
    (bind s).Ok s where
  grew := Store.Grew.refl hok
  point := Or.inl rfl
  stages _ := trivial
  flagged _ hmove := hmove.elim
  alone _ _ hmove := hmove.elim

/-- Any number of connections, in any order of their sections. -/
theorem Run.ok {s : Store} (hok : s.writer.Ok s.dir) {past : List Threads}
    {now : Threads} (hrun : Run s past now) :
    now.Ok s ∧ forall earlier, earlier ∈ now :: past ->
      earlier.store.Grew now.store := by
  induction hrun with
  | bind =>
      refine ⟨Threads.ok_bind hok, ?_⟩
      intro earlier hearlier
      rw [List.mem_singleton.mp hearlier]
      exact Store.Grew.refl hok
  | step _ hstep ih =>
      rcases ih with ⟨hnow, hpast⟩
      rcases hnow.step hstep with ⟨hgrew, hnext⟩
      refine ⟨hnext, ?_⟩
      intro earlier hearlier
      rcases List.mem_cons.mp hearlier with heq | hmem
      · rw [heq]
        exact Store.Grew.refl hnext.grew.ok
      · exact (hpast earlier hmem).trans hgrew

/-- All of the log up to a point that is covered is on the disk, but for what the
store opened with. -/
theorem Covered.durable {first now : Store} {point : Point}
    (h : Covered first now point) (hgrew : first.Grew now) {id : FileId}
    {offset : Nat} (hlength : offset < (now.contents id).length)
    (hbefore : Point.Before (id, offset) point)
    (hsince : ¬Point.Before (id, offset) (appendPoint first)) :
    offset < now.dir.disk.synced id := by
  rcases hbefore with hlt | ⟨heq, hlt⟩
  · have hid : id < now.writer.fileId := Nat.lt_of_lt_of_le hlt h.within
    have hfirst : first.writer.fileId <= id :=
      Nat.le_of_not_lt (fun hbelow => hsince (Or.inl hbelow))
    rw [Store.contents_of_lt hid] at hlength
    rw [hgrew.sealed id hfirst hid]
    exact hlength
  · dsimp only at heq hlt
    rw [heq]
    exact Nat.lt_of_lt_of_le hlt h.synced

theorem getElem?_durable {s : Store} {id : FileId} {offset : Nat}
    (hsynced : offset < s.dir.disk.synced id) :
    (s.dir.disk.durable id)[offset]? = (s.contents id)[offset]? := by
  have hlength := Nat.lt_of_lt_of_le hsynced (s.dir.disk.synced_le id)
  rw [Disk.durable, List.getElem?_take_of_lt hsynced]
  unfold Store.contents
  split
  · rename_i heq
    rw [heq] at hlength ⊢
    exact (List.getElem?_append_left hlength).symm
  · rfl

def lone (store : Store) (state : Durable) (stage : Stage) : Threads where
  store := store
  state := state
  stage := Function.update (fun _ => Stage.serving none) 0 stage

theorem lone_enter (store : Store) (state : Durable) (stage next : Stage) :
    (lone store state stage).enter 0 next = lone store state next := by
  unfold lone Threads.enter
  rw [Function.update_idem]

theorem Run.lone {s store store' : Store} {state state' : Durable}
    {stage stage' : Stage} {past : List Threads} {t : Threads}
    (h : Run s past (lone store state stage))
    (hstep : (lone store state stage).Step t)
    (heq : t = lone store' state' stage') :
    Run s (Server.lone store state stage :: past)
      (Server.lone store' state' stage') :=
  heq ▸ h.step hstep

end Server
end Minicask
