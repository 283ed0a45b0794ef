import Minicask.Store.BackgroundRuns

/-!
# Writes that fail

A write to a data file can fail after some of its bytes have gone in.  The writer
keeps its idea of where the file ends, and keeps what it had buffered, so what
comes after is in place exactly when the failed write left nothing behind.
-/

namespace Minicask

open Replay

/-- A write that fails, and how many of its bytes go in first: while a file is
sealed, in an append, or in a sync. -/
inductive Fault where
  | sealing (bytes : Nat)
  | appending (bytes : Nat)
  | syncing (bytes : Nat)
deriving Repr, DecidableEq

namespace Fault

def inSeal : Option Fault -> Option Nat
  | some (sealing n) => some n
  | _ => none

def inAppend : Option Fault -> Option Nat
  | some (appending n) => some n
  | _ => none

def inSync : Option Fault -> Option Nat
  | some (syncing n) => some n
  | _ => none

end Fault

def writeFailed : Error :=
  Error.io "failed to write whole buffer"

/-!
# The code with a write that fails

Each function is the one without faults, with an error that holds what is left.
-/

/-- A write that is to fail lets a strict prefix through. -/
def Dir.tryWriteAll (dir : Dir) (id : FileId) (bytes : Bytes)
    (fault : Option Nat) : Except Dir Dir :=
  match fault with
  | some n =>
      if n < bytes.length then Except.error (dir.writeAll id (bytes.take n))
      else Except.ok (dir.writeAll id bytes)
  | none => Except.ok (dir.writeAll id bytes)

namespace LogWriter

def tryFlush (w : LogWriter) (dir : Dir) (fault : Option Nat) :
    Except (LogWriter × Dir) (LogWriter × Dir) :=
  if w.pending.isEmpty then Except.ok (w, dir)
  else
    match dir.tryWriteAll w.fileId w.pending fault with
    | Except.error dir => Except.error (w, dir)
    | Except.ok dir =>
        Except.ok ({ w with pending := [], written := w.offset }, dir)

def trySync (w : LogWriter) (dir : Dir) (fault : Option Nat) :
    Except (LogWriter × Dir) (LogWriter × Dir) :=
  match w.tryFlush dir fault with
  | Except.error left => Except.error left
  | Except.ok (w, dir) =>
      Except.ok ({ w with synced := w.offset }, dir.syncData w.fileId)

def tryAppend (w : LogWriter) (dir : Dir) (bytes : Bytes) (reach : Reach)
    (fault : Option Nat) :
    Except (LogWriter × Dir) ((Nat × UInt32) × LogWriter × Dir) :=
  let landed := (w.offset, UInt32.ofNat bytes.length)
  if reach ≠ Reach.buffer ∧ w.pending.isEmpty then
    match dir.tryWriteAll w.fileId bytes fault with
    | Except.error dir => Except.error (w, dir)
    | Except.ok dir =>
        let w := { w with
          offset := w.offset + bytes.length
          written := w.offset + bytes.length }
        if reach = Reach.disk then
          Except.ok (landed, { w with synced := w.offset },
            dir.syncData w.fileId)
        else Except.ok (landed, w, dir)
  else
    let w := { w with
      pending := w.pending ++ bytes
      offset := w.offset + bytes.length }
    match reach with
    | Reach.buffer =>
        if w.pending.length < maxPending then Except.ok (landed, w, dir)
        else (w.tryFlush dir fault).map (fun taken => (landed, taken))
    | Reach.kernel => (w.tryFlush dir fault).map (fun taken => (landed, taken))
    | Reach.disk => (w.trySync dir fault).map (fun taken => (landed, taken))

end LogWriter

namespace Store

def trySealInto (s : Store) (nextId : FileId) (fault : Option Nat) :
    Except Store Store :=
  match s.writer.trySync s.dir fault with
  | Except.error (writer, dir) =>
      Except.error { s with writer := writer, dir := dir }
  | Except.ok (writer, dir) =>
      let dir := Hint.write dir writer.fileId writer.offset s.activeHints
      let (writer, dir) := LogWriter.openFile dir nextId
      Except.ok { s with
        dir := dir
        writer := writer
        readers := s.readers.insert nextId
        activeHints := [] }

def tryRollIfNeeded (s : Store) (incoming : Nat) (fault : Option Nat) :
    Except Store Store :=
  if s.writer.offset = 0 ∨
      s.writer.offset + incoming <= s.opts.maxFileBytes then Except.ok s
  else s.trySealInto (s.writer.fileId + 1) fault

/-- A record goes to the end of the log, after a rollover if one is due. -/
def tryLog (s : Store) (bytes : Bytes) (reach : Reach)
    (fault : Option Fault) : Except Store ((Nat × UInt32) × Store) :=
  match s.tryRollIfNeeded bytes.length (Fault.inSeal fault) with
  | Except.error left => Except.error left
  | Except.ok s =>
      match s.writer.tryAppend s.dir bytes reach (Fault.inAppend fault) with
      | Except.error (writer, dir) =>
          Except.error { s with writer := writer, dir := dir }
      | Except.ok (landed, writer, dir) =>
          Except.ok (landed, { s with writer := writer, dir := dir })

def tryPutWith (s : Store) (key value : Bytes) (reach : Reach)
    (now later : UInt64) (fault : Option Fault) : Store × Except Error Unit :=
  if s.restoring then (s, Except.error restoreInProgress)
  else
    match encode key (some value) now with
    | Except.error e => (s, Except.error e)
    | Except.ok bytes =>
        match s.tryLog bytes reach fault with
        | Except.error left => (left, Except.error writeFailed)
        | Except.ok ((offset, len), s) =>
            ({ s with
                activeHints := s.activeHints ++
                  [{ key := key
                     offset := offset
                     len := len
                     tstamp := later
                     tombstone := false }]
                diskBytes := s.diskBytes + len.toNat
                liveBytes := s.liveBytes - s.liveLen key + len.toNat
                keydir := s.keydir.insert key
                  { fileId := s.writer.fileId
                    offset := offset
                    len := len
                    tstamp := later } }, Except.ok ())

def tryDeleteWith (s : Store) (key : Bytes) (reach : Reach)
    (now later : UInt64) (fault : Option Fault) : Store × Except Error Bool :=
  if s.restoring then (s, Except.error restoreInProgress)
  else if !s.containsKey key then (s, Except.ok false)
  else
    match encode key none now with
    | Except.error e => (s, Except.error e)
    | Except.ok bytes =>
        match s.tryLog bytes reach fault with
        | Except.error left => (left, Except.error writeFailed)
        | Except.ok ((offset, len), s) =>
            ({ s with
                activeHints := s.activeHints ++
                  [{ key := key
                     offset := offset
                     len := len
                     tstamp := later
                     tombstone := true }]
                diskBytes := s.diskBytes + len.toNat
                liveBytes := s.liveBytes - s.liveLen key
                keydir := s.keydir.erase key }, Except.ok true)

def trySync (s : Store) (fault : Option Fault) : Store × Except Error Unit :=
  match s.writer.trySync s.dir (Fault.inSync fault) with
  | Except.error (writer, dir) =>
      ({ s with writer := writer, dir := dir }, Except.error writeFailed)
  | Except.ok (writer, dir) =>
      ({ s with writer := writer, dir := dir }, Except.ok ())

/-- A call in which a write may fail. -/
def tryCall (s : Store) (c : Call) (fault : Option Fault) :
    Store × Except Error (Option Bool) :=
  match c with
  | Call.put key value now later =>
      let (s, result) := s.tryPutWith key value s.reach now later fault
      (s, result.map (fun _ => none))
  | Call.putDeferred key value now later =>
      let (s, result) := s.tryPutWith key value Reach.buffer now later fault
      (s, result.map (fun _ => none))
  | Call.delete key now later =>
      let (s, result) := s.tryDeleteWith key s.reach now later fault
      (s, result.map some)
  | Call.deleteDeferred key now later =>
      let (s, result) := s.tryDeleteWith key Reach.buffer now later fault
      (s, result.map some)
  | Call.sync =>
      let (s, result) := s.trySync fault
      (s, result.map (fun _ => none))
  | c => s.call c

end Store

/-!
# A call that succeeds

Nothing failed in it, so it did what it always does.
-/

theorem Dir.tryWriteAll_ok {dir dir' : Dir} {id : FileId} {bytes : Bytes}
    {fault : Option Nat}
    (h : dir.tryWriteAll id bytes fault = Except.ok dir') :
    dir' = dir.writeAll id bytes := by
  cases fault with
  | none =>
      cases h
      rfl
  | some n =>
      rw [Dir.tryWriteAll] at h
      split at h
      · cases h
      · cases h
        rfl

theorem map_ok {α β ε : Type} {f : α -> β} {x : Except ε α} {y : β}
    (h : x.map f = Except.ok y) : exists a, x = Except.ok a ∧ f a = y := by
  cases x with
  | error e => cases h
  | ok a =>
      cases h
      exact ⟨a, rfl, rfl⟩

theorem map_error {α β ε : Type} {f : α -> β} {x : Except ε α} {e : ε}
    (h : x.map f = Except.error e) : x = Except.error e := by
  cases x with
  | error e' =>
      cases h
      rfl
  | ok a => cases h

namespace LogWriter

theorem tryFlush_ok {w : LogWriter} {dir : Dir} {fault : Option Nat}
    {result : LogWriter × Dir} (h : w.tryFlush dir fault = Except.ok result) :
    result = w.flush dir := by
  unfold tryFlush at h
  unfold flush
  split at h
  · next hempty =>
      cases h
      rw [if_pos hempty]
  · next hempty =>
      rw [if_neg hempty]
      cases hwrite : dir.tryWriteAll w.fileId w.pending fault with
      | error left =>
          rw [hwrite] at h
          cases h
      | ok written =>
          rw [hwrite] at h
          cases h
          rw [Dir.tryWriteAll_ok hwrite]

theorem trySync_ok {w : LogWriter} {dir : Dir} {fault : Option Nat}
    {result : LogWriter × Dir} (h : w.trySync dir fault = Except.ok result) :
    result = w.sync dir := by
  unfold trySync at h
  cases hflush : w.tryFlush dir fault with
  | error left =>
      rw [hflush] at h
      cases h
  | ok flushed =>
      rw [hflush] at h
      cases h
      rw [sync, ← tryFlush_ok hflush]

theorem tryAppend_ok {w : LogWriter} {dir : Dir} {bytes : Bytes}
    {reach : Reach} {fault : Option Nat}
    {result : (Nat × UInt32) × LogWriter × Dir}
    (h : w.tryAppend dir bytes reach fault = Except.ok result) :
    result = w.append dir bytes reach := by
  unfold tryAppend at h
  unfold append
  dsimp only at h ⊢
  split at h
  · next hdirect =>
      rw [if_pos hdirect]
      cases hwrite : dir.tryWriteAll w.fileId bytes fault with
      | error left =>
          rw [hwrite] at h
          cases h
      | ok written =>
          rw [hwrite, Dir.tryWriteAll_ok hwrite] at h
          dsimp only at h
          split at h
          · next hdisk =>
              cases h
              rw [if_pos hdisk]
          · next hdisk =>
              cases h
              rw [if_neg hdisk]
  · next hbuffered =>
      rw [if_neg hbuffered]
      cases reach with
      | buffer =>
          dsimp only at h ⊢
          split at h
          · next hroom =>
              cases h
              rw [if_pos hroom]
          · next hroom =>
              rw [if_neg hroom]
              rcases map_ok h with ⟨taken, htaken, hresult⟩
              rw [← hresult, tryFlush_ok htaken]
      | kernel =>
          rcases map_ok h with ⟨taken, htaken, hresult⟩
          rw [← hresult, tryFlush_ok htaken]
      | disk =>
          rcases map_ok h with ⟨taken, htaken, hresult⟩
          rw [← hresult, trySync_ok htaken]

end LogWriter

namespace Store

theorem trySealInto_ok {s s' : Store} {nextId : FileId} {fault : Option Nat}
    (h : s.trySealInto nextId fault = Except.ok s') :
    s' = s.sealInto nextId := by
  unfold trySealInto at h
  cases hsync : s.writer.trySync s.dir fault with
  | error left =>
      rw [hsync] at h
      cases h
  | ok synced =>
      rw [hsync, LogWriter.trySync_ok hsync] at h
      cases h
      rfl

theorem tryRollIfNeeded_ok {s s' : Store} {incoming : Nat}
    {fault : Option Nat}
    (h : s.tryRollIfNeeded incoming fault = Except.ok s') :
    s' = s.rollIfNeeded incoming := by
  unfold tryRollIfNeeded at h
  unfold rollIfNeeded
  split at h
  · next hroom =>
      cases h
      rw [if_pos hroom]
  · next hroom =>
      rw [if_neg hroom]
      exact trySealInto_ok h

theorem tryLog_ok {s : Store} {bytes : Bytes} {reach : Reach}
    {fault : Option Fault} {result : (Nat × UInt32) × Store}
    (h : s.tryLog bytes reach fault = Except.ok result) :
    result =
      (((s.rollIfNeeded bytes.length).writer.append
          (s.rollIfNeeded bytes.length).dir bytes reach).1,
        { s.rollIfNeeded bytes.length with
          writer := ((s.rollIfNeeded bytes.length).writer.append
            (s.rollIfNeeded bytes.length).dir bytes reach).2.1
          dir := ((s.rollIfNeeded bytes.length).writer.append
            (s.rollIfNeeded bytes.length).dir bytes reach).2.2 }) := by
  unfold tryLog at h
  cases hroll : s.tryRollIfNeeded bytes.length (Fault.inSeal fault) with
  | error left =>
      rw [hroll] at h
      cases h
  | ok rolled =>
      rw [hroll] at h
      have hrolled := tryRollIfNeeded_ok hroll
      subst hrolled
      dsimp only at h
      cases happend : (s.rollIfNeeded bytes.length).writer.tryAppend
        (s.rollIfNeeded bytes.length).dir bytes reach
        (Fault.inAppend fault) with
      | error left =>
          rw [happend] at h
          cases h
      | ok appended =>
          rw [happend] at h
          rw [← LogWriter.tryAppend_ok happend]
          cases h
          rfl

theorem tryPutWith_ok {s : Store} {key value : Bytes} {reach : Reach}
    {now later : UInt64} {fault : Option Fault} {u : Unit}
    (h : (s.tryPutWith key value reach now later fault).2 = Except.ok u) :
    s.putWith key value reach now later =
      Except.ok (s.tryPutWith key value reach now later fault).1 := by
  unfold tryPutWith at h ⊢
  unfold putWith
  split at h
  · cases h
  · next hwritable =>
      rw [if_neg hwritable, if_neg hwritable]
      cases hencode : encode key (some value) now with
      | error e =>
          rw [hencode] at h
          cases h
      | ok bytes =>
          rw [hencode] at h
          dsimp only at h ⊢
          cases hlog : s.tryLog bytes reach fault with
          | error left =>
              rw [hlog] at h
              cases h
          | ok result =>
              rw [tryLog_ok hlog]
              rfl

theorem tryDeleteWith_ok {s : Store} {key : Bytes} {reach : Reach}
    {now later : UInt64} {fault : Option Fault} {was : Bool}
    (h : (s.tryDeleteWith key reach now later fault).2 = Except.ok was) :
    s.deleteWith key reach now later =
      Except.ok ((s.tryDeleteWith key reach now later fault).1, was) := by
  unfold tryDeleteWith at h ⊢
  unfold deleteWith
  split at h
  · cases h
  · next hwritable =>
      rw [if_neg hwritable, if_neg hwritable]
      split at h
      · next habsent =>
          cases h
          rw [if_pos habsent, if_pos habsent]
      · next habsent =>
          rw [if_neg habsent, if_neg habsent]
          cases hencode : encode key none now with
          | error e =>
              rw [hencode] at h
              cases h
          | ok bytes =>
              rw [hencode] at h
              dsimp only at h ⊢
              cases hlog : s.tryLog bytes reach fault with
              | error left =>
                  rw [hlog] at h
                  cases h
              | ok result =>
                  rw [hlog] at h
                  cases h
                  rw [tryLog_ok hlog]
                  rfl

theorem trySync_ok {s : Store} {fault : Option Fault} {u : Unit}
    (h : (s.trySync fault).2 = Except.ok u) : (s.trySync fault).1 = s.sync := by
  unfold trySync at h ⊢
  cases hsync : s.writer.trySync s.dir (Fault.inSync fault) with
  | error left =>
      rw [hsync] at h
      cases h
  | ok synced =>
      rw [LogWriter.trySync_ok hsync]
      rfl

theorem tryCall_ok {s : Store} {c : Call} {fault : Option Fault}
    {answer : Option Bool}
    (h : (s.tryCall c fault).2 = Except.ok answer) :
    s.tryCall c fault = s.call c := by
  cases c with
  | put key value now later =>
      have hmap : (s.tryPutWith key value s.reach now later fault).2.map
          (fun _ => none) = Except.ok answer := h
      rcases map_ok hmap with ⟨u, hok, _⟩
      have hput : s.put key value now later = _ := tryPutWith_ok hok
      rw [tryCall, call, hput]
      dsimp only
      rw [hok]
      rfl
  | putDeferred key value now later =>
      have hmap : (s.tryPutWith key value Reach.buffer now later fault).2.map
          (fun _ => none) = Except.ok answer := h
      rcases map_ok hmap with ⟨u, hok, _⟩
      have hput : s.putDeferred key value now later = _ := tryPutWith_ok hok
      rw [tryCall, call, hput]
      dsimp only
      rw [hok]
      rfl
  | delete key now later =>
      have hmap : (s.tryDeleteWith key s.reach now later fault).2.map some =
          Except.ok answer := h
      rcases map_ok hmap with ⟨was, hok, _⟩
      have hdelete : s.delete key now later = _ := tryDeleteWith_ok hok
      rw [tryCall, call, hdelete]
      dsimp only
      rw [hok]
      rfl
  | deleteDeferred key now later =>
      have hmap : (s.tryDeleteWith key Reach.buffer now later fault).2.map some =
          Except.ok answer := h
      rcases map_ok hmap with ⟨was, hok, _⟩
      have hdelete : s.deleteDeferred key now later = _ := tryDeleteWith_ok hok
      rw [tryCall, call, hdelete]
      dsimp only
      rw [hok]
      rfl
  | sync =>
      have hmap : (s.trySync fault).2.map (fun _ => none) =
          Except.ok answer := h
      rcases map_ok hmap with ⟨u, hok, _⟩
      rw [tryCall, call]
      dsimp only
      rw [hok, trySync_ok hok]
      rfl
  | compact => rfl
  | reopen opts => rfl

end Store

/-!
# A write that fails and leaves nothing
-/

/-- An append that puts its record in the buffer and flushes it from there. -/
def LogWriter.FlushesOwn (w : LogWriter) (incoming : Nat) (reach : Reach) :
    Prop :=
  (reach = Reach.buffer ∨ w.pending ≠ []) ∧
    (reach = Reach.buffer -> maxPending <= w.pending.length + incoming)

namespace Call

def reach (s : Store) : Call -> Reach
  | put _ _ _ _ => s.reach
  | delete _ _ _ => s.reach
  | _ => Reach.buffer

def recordLen : Call -> Nat
  | put key value _ _ => headerLen + key.length + value.length
  | putDeferred key value _ _ => headerLen + key.length + value.length
  | delete key _ _ => headerLen + key.length
  | deleteDeferred key _ _ => headerLen + key.length
  | _ => 0

end Call

/-- None of the bytes goes in, and it is not the flush of a record that the append
has just put in the buffer. -/
def Fault.Clean (s : Store) (c : Call) : Fault -> Prop
  | sealing n => n = 0
  | syncing n => n = 0
  | appending n =>
      n = 0 ∧ ¬(s.rollIfNeeded c.recordLen).writer.FlushesOwn c.recordLen
        (c.reach s)

theorem Dir.tryWriteAll_error {dir left : Dir} {id : FileId} {bytes : Bytes}
    {fault : Option Nat}
    (h : dir.tryWriteAll id bytes fault = Except.error left)
    (hclean : forall n, fault = some n -> n = 0) :
    left = dir.writeAll id [] := by
  cases fault with
  | none => cases h
  | some n =>
      rw [Dir.tryWriteAll] at h
      split at h
      · cases h
        rw [hclean n rfl]
        rfl
      · cases h

namespace LogWriter

theorem appended_nothing {w : LogWriter} {dir : Dir} (h : w.Ok dir) :
    Appended w dir [] w (dir.writeAll w.fileId []) := by
  have hcontents := Dir.contents_writeAll [] h.linked
  rw [List.append_nil] at hcontents
  have hframe := Dir.writeAll_sameBut dir w.fileId []
  refine ⟨⟨hframe.linked h.linked, ?_, h.offset⟩, rfl, ?_, Or.inl rfl,
    Or.inl (Dir.synced_writeAll dir w.fileId []), hframe⟩
  · rw [hcontents]
    exact h.written
  · rw [LogWriter.contents, hcontents, List.append_nil]
    rfl

theorem tryFlush_error {w : LogWriter} {dir : Dir} {fault : Option Nat}
    {left : LogWriter × Dir} (h : w.tryFlush dir fault = Except.error left)
    (hclean : forall n, fault = some n -> n = 0) :
    left = (w, dir.writeAll w.fileId []) := by
  unfold tryFlush at h
  split at h
  · cases h
  · cases hwrite : dir.tryWriteAll w.fileId w.pending fault with
    | error failed =>
        rw [hwrite] at h
        cases h
        rw [Dir.tryWriteAll_error hwrite hclean]
    | ok written =>
        rw [hwrite] at h
        cases h

theorem trySync_error {w : LogWriter} {dir : Dir} {fault : Option Nat}
    {left : LogWriter × Dir} (h : w.trySync dir fault = Except.error left)
    (hclean : forall n, fault = some n -> n = 0) :
    left = (w, dir.writeAll w.fileId []) := by
  unfold trySync at h
  cases hflush : w.tryFlush dir fault with
  | error failed =>
      rw [hflush] at h
      cases h
      exact tryFlush_error hflush hclean
  | ok flushed =>
      rw [hflush] at h
      cases h

theorem tryFlush_none (w : LogWriter) (dir : Dir) :
    exists result, w.tryFlush dir none = Except.ok result := by
  unfold tryFlush
  split
  · exact ⟨_, rfl⟩
  · exact ⟨_, rfl⟩

theorem trySync_none (w : LogWriter) (dir : Dir) :
    exists result, w.trySync dir none = Except.ok result := by
  rcases w.tryFlush_none dir with ⟨result, hflush⟩
  unfold trySync
  rw [hflush]
  exact ⟨_, rfl⟩

theorem tryAppend_none (w : LogWriter) (dir : Dir) (bytes : Bytes)
    (reach : Reach) :
    exists result, w.tryAppend dir bytes reach none = Except.ok result := by
  unfold tryAppend
  dsimp only [Dir.tryWriteAll]
  split
  · split
    · exact ⟨_, rfl⟩
    · exact ⟨_, rfl⟩
  · cases reach with
    | buffer =>
        dsimp only
        split
        · exact ⟨_, rfl⟩
        · rcases tryFlush_none _ dir with ⟨result, hflush⟩
          rw [hflush]
          exact ⟨_, rfl⟩
    | kernel =>
        rcases tryFlush_none _ dir with ⟨result, hflush⟩
        dsimp only
        rw [hflush]
        exact ⟨_, rfl⟩
    | disk =>
        rcases trySync_none _ dir with ⟨result, hsync⟩
        dsimp only
        rw [hsync]
        exact ⟨_, rfl⟩

/-- Only an append straight to the file is left to fail. -/
theorem tryAppend_error {w : LogWriter} {dir : Dir} {bytes : Bytes}
    {reach : Reach} {fault : Option Nat} {left : LogWriter × Dir}
    (h : w.tryAppend dir bytes reach fault = Except.error left)
    (hclean : forall n, fault = some n ->
      n = 0 ∧ ¬w.FlushesOwn bytes.length reach) :
    left = (w, dir.writeAll w.fileId []) := by
  have hzero : forall n, fault = some n -> n = 0 :=
    fun n hn => (hclean n hn).1
  have hfault : exists n, fault = some n := by
    cases fault with
    | some n => exact ⟨n, rfl⟩
    | none =>
        rcases tryAppend_none w dir bytes reach with ⟨result, hresult⟩
        rw [hresult] at h
        cases h
  rcases hfault with ⟨n, hn⟩
  have hown := (hclean n hn).2
  unfold tryAppend at h
  dsimp only at h
  split at h
  · cases hwrite : dir.tryWriteAll w.fileId bytes fault with
    | error failed =>
        rw [hwrite] at h
        cases h
        rw [Dir.tryWriteAll_error hwrite hzero]
    | ok written =>
        rw [hwrite] at h
        dsimp only at h
        split at h
        · cases h
        · cases h
  · next hbuffered =>
      have hpending : reach = Reach.buffer ∨ w.pending ≠ [] := by
        rw [List.isEmpty_iff, not_and_or, not_not] at hbuffered
        exact hbuffered
      cases reach with
      | buffer =>
          dsimp only at h
          split at h
          · cases h
          · next hroom =>
              refine absurd ⟨hpending, fun _ => ?_⟩ hown
              rw [List.length_append] at hroom
              exact Nat.le_of_not_lt hroom
      | kernel => exact absurd ⟨hpending, nofun⟩ hown
      | disk => exact absurd ⟨hpending, nofun⟩ hown

end LogWriter

namespace Store

theorem Serves.idle {s s' : Store} {m : Contents} (h : s.Serves m)
    (hadvanced : s.Advanced [] s') (hkeydir : s'.keydir = s.keydir)
    (hhints : s'.activeHints = s.activeHints)
    (hcompacting : s'.compacting = s.compacting)
    (hrestoring : s'.restoring = s.restoring) : s'.Serves m := by
  rcases h with ⟨hok, hindexes, hcompact, hrestore, chart, hcharted, hrecorded⟩
  have hadvanced' : s.Advanced (Rec.join []) s' := hadvanced
  have hcharted' := hcharted.advanced hok hadvanced'
    (by rw [hhints, List.append_nil]) (Hint.Describes.nil _)
  rw [Chart.extend_nil] at hcharted'
  refine ⟨hadvanced.ok hok, hindexes.carried (hadvanced.carries hok) hkeydir,
    hcompacting.trans hcompact, hrestoring.trans hrestore, chart, hcharted', ?_⟩
  rw [hadvanced.appended.fileId]
  exact hrecorded

theorem Serves.rolled {s : Store} {m : Contents} (h : s.Serves m)
    (incoming : Nat) : (s.rollIfNeeded incoming).Serves m := by
  rcases h with ⟨hok, hindexes, hcompact, hrestore, chart, hcharted, hrecorded⟩
  rcases Store.rolled hok incoming with
    ⟨hok', hcarries, hkeydir, hrestoring, hcompacting⟩
  rcases hcharted.rolled hok incoming with ⟨hcharted', hrecorded'⟩
  exact ⟨hok', hindexes.carried hcarries hkeydir, hcompacting.trans hcompact,
    hrestoring.trans hrestore, chart, hcharted', hrecorded'.trans hrecorded⟩

theorem Serves.nothing {s : Store} {m : Contents} (h : s.Serves m) :
    Serves { s with dir := s.dir.writeAll s.writer.fileId [] } m :=
  h.idle ⟨LogWriter.appended_nothing h.1.writer, rfl⟩ rfl rfl rfl rfl

theorem Serves.tryLog_error {s left : Store} {m : Contents}
    (h : s.Serves m) {bytes : Bytes} {reach : Reach} {fault : Option Fault}
    (hlog : s.tryLog bytes reach fault = Except.error left)
    (hseal : forall n, Fault.inSeal fault = some n -> n = 0)
    (happend : forall n, Fault.inAppend fault = some n -> n = 0 ∧
      ¬(s.rollIfNeeded bytes.length).writer.FlushesOwn bytes.length reach) :
    left.Serves m := by
  unfold tryLog at hlog
  cases hroll : s.tryRollIfNeeded bytes.length (Fault.inSeal fault) with
  | error failed =>
      rw [hroll] at hlog
      cases hlog
      unfold tryRollIfNeeded trySealInto at hroll
      split at hroll
      · cases hroll
      · cases hsync : s.writer.trySync s.dir (Fault.inSeal fault) with
        | error failed =>
            rw [hsync, LogWriter.trySync_error hsync hseal] at hroll
            cases hroll
            exact h.nothing
        | ok synced =>
            rw [hsync] at hroll
            cases hroll
  | ok rolled =>
      rw [hroll] at hlog
      have hrolled := tryRollIfNeeded_ok hroll
      subst hrolled
      dsimp only at hlog
      cases happended : (s.rollIfNeeded bytes.length).writer.tryAppend
        (s.rollIfNeeded bytes.length).dir bytes reach
        (Fault.inAppend fault) with
      | error failed =>
          rw [happended, LogWriter.tryAppend_error happended happend] at hlog
          cases hlog
          exact (h.rolled bytes.length).nothing
      | ok appended =>
          rw [happended] at hlog
          cases hlog

theorem Serves.tryPutWith_error {s : Store} {m : Contents} (h : s.Serves m)
    {key value : Bytes} {reach : Reach} {now later : UInt64}
    {fault : Option Fault} {e : Error}
    (herror : (s.tryPutWith key value reach now later fault).2 =
      Except.error e)
    (hseal : forall n, Fault.inSeal fault = some n -> n = 0)
    (happend : forall n len, Fault.inAppend fault = some n ->
      len = headerLen + key.length + value.length -> n = 0 ∧
      ¬(s.rollIfNeeded len).writer.FlushesOwn len reach) :
    (s.tryPutWith key value reach now later fault).1.Serves m := by
  unfold tryPutWith at herror ⊢
  split at herror
  · next hrestoring =>
      rw [if_pos hrestoring]
      exact h
  · next hrestoring =>
      rw [if_neg hrestoring]
      cases hencode : encode key (some value) now with
      | error e => exact h
      | ok bytes =>
          rw [hencode] at herror
          dsimp only at herror ⊢
          have hlength : bytes.length =
              headerLen + key.length + value.length := by
            rcases encode_parts hencode with ⟨header, hbytes, _⟩
            rw [hbytes, List.length_append, List.length_append,
              Header.length_encode, Option.getD_some, Nat.add_assoc]
          cases hlog : s.tryLog bytes reach fault with
          | error left =>
              exact h.tryLog_error hlog hseal
                (fun n hn => happend n _ hn hlength)
          | ok result =>
              rw [hlog] at herror
              cases herror

theorem Serves.tryDeleteWith_error {s : Store} {m : Contents}
    (h : s.Serves m) {key : Bytes} {reach : Reach} {now later : UInt64}
    {fault : Option Fault} {e : Error}
    (herror : (s.tryDeleteWith key reach now later fault).2 =
      Except.error e)
    (hseal : forall n, Fault.inSeal fault = some n -> n = 0)
    (happend : forall n len, Fault.inAppend fault = some n ->
      len = headerLen + key.length -> n = 0 ∧
      ¬(s.rollIfNeeded len).writer.FlushesOwn len reach) :
    (s.tryDeleteWith key reach now later fault).1.Serves m := by
  unfold tryDeleteWith at herror ⊢
  split at herror
  · next hrestoring =>
      rw [if_pos hrestoring]
      exact h
  · next hrestoring =>
      rw [if_neg hrestoring]
      split at herror
      · cases herror
      · next hthere =>
          rw [if_neg hthere]
          cases hencode : encode key none now with
          | error e => exact h
          | ok bytes =>
              rw [hencode] at herror
              dsimp only at herror ⊢
              have hlength : bytes.length = headerLen + key.length := by
                rcases encode_parts hencode with ⟨header, hbytes, _⟩
                rw [hbytes, List.length_append, List.length_append,
                  Header.length_encode, Option.getD_none, List.length_nil,
                  Nat.add_zero]
              cases hlog : s.tryLog bytes reach fault with
              | error left =>
                  exact h.tryLog_error hlog hseal
                    (fun n hn => happend n _ hn hlength)
              | ok result =>
                  rw [hlog] at herror
                  cases herror

theorem Serves.trySync_error {s : Store} {m : Contents} (h : s.Serves m)
    {fault : Option Fault} {e : Error}
    (herror : (s.trySync fault).2 = Except.error e)
    (hsync : forall n, Fault.inSync fault = some n -> n = 0) :
    (s.trySync fault).1.Serves m := by
  unfold trySync at herror ⊢
  cases hsynced : s.writer.trySync s.dir (Fault.inSync fault) with
  | error left =>
      rw [LogWriter.trySync_error hsynced hsync]
      exact h.nothing
  | ok synced =>
      rw [hsynced] at herror
      cases herror

/-- A call that failed, and left nothing where it failed, changed nothing. -/
theorem Serves.tryCall_error {s : Store} {m : Contents} (h : s.Serves m)
    {c : Call} (hplain : c.Plain) {fault : Option Fault} {e : Error}
    (herror : (s.tryCall c fault).2 = Except.error e)
    (hclean : forall f, fault = some f -> f.Clean s c) :
    (s.tryCall c fault).1.Serves m := by
  have hseal : forall n, Fault.inSeal fault = some n -> n = 0 := by
    intro n hn
    cases fault with
    | none => cases hn
    | some f =>
        cases f with
        | sealing k =>
            cases hn
            exact hclean _ rfl
        | appending k => cases hn
        | syncing k => cases hn
  have happend : forall n len, Fault.inAppend fault = some n ->
      len = c.recordLen -> n = 0 ∧
      ¬(s.rollIfNeeded len).writer.FlushesOwn len (c.reach s) := by
    intro n len hn hlen
    cases fault with
    | none => cases hn
    | some f =>
        cases f with
        | sealing k => cases hn
        | appending k =>
            cases hn
            rw [hlen]
            exact hclean _ rfl
        | syncing k => cases hn
  cases c with
  | put key value now later =>
      have hfailed := map_error herror
      exact h.tryPutWith_error hfailed hseal happend
  | putDeferred key value now later =>
      have hfailed := map_error herror
      exact h.tryPutWith_error hfailed hseal happend
  | delete key now later =>
      have hfailed := map_error herror
      exact h.tryDeleteWith_error hfailed hseal happend
  | deleteDeferred key now later =>
      have hfailed := map_error herror
      exact h.tryDeleteWith_error hfailed hseal happend
  | sync =>
      refine h.trySync_error (map_error herror) ?_
      intro n hn
      cases fault with
      | none => cases hn
      | some f =>
          cases f with
          | sealing k => cases hn
          | appending k => cases hn
          | syncing k =>
              cases hn
              exact hclean _ rfl
  | compact => exact False.elim hplain
  | reopen opts => exact False.elim hplain

end Store

/-!
# Whole runs
-/

/-- Calls in which writes may fail, each fault one that is allowed, and restarts,
in any order.  The list has the calls that succeeded. -/
inductive FaultyRun (allowed : Store -> Call -> Fault -> Prop)
    (opts : Options) : Store -> List Call -> Prop where
  | start {s : Store} (hopen : Store.openWith {} opts = Except.ok s) :
      FaultyRun allowed opts s []
  | succeed {s : Store} {calls : List Call}
      (hrun : FaultyRun allowed opts s calls) {c : Call} (hplain : c.Plain)
      (hshort : c.Short) {fault : Option Fault}
      (hfault : forall f, fault = some f -> allowed s c f)
      {answer : Option Bool}
      (hok : (s.tryCall c fault).2 = Except.ok answer) :
      FaultyRun allowed opts (s.tryCall c fault).1 (calls ++ [c])
  | fail {s : Store} {calls : List Call}
      (hrun : FaultyRun allowed opts s calls) {c : Call} (hplain : c.Plain)
      {fault : Option Fault}
      (hfault : forall f, fault = some f -> allowed s c f) {e : Error}
      (herror : (s.tryCall c fault).2 = Except.error e) :
      FaultyRun allowed opts (s.tryCall c fault).1 calls
  | reopen {s s' : Store} {calls : List Call}
      (hrun : FaultyRun allowed opts s calls) {opts' : Options}
      (hopen : Store.openWith s.close opts' = Except.ok s') :
      FaultyRun allowed opts s' calls

theorem FaultyRun.serves {opts : Options} {s : Store} {calls : List Call}
    (h : FaultyRun (fun s c f => f.Clean s c) opts s calls) :
    s.Serves (written calls) := by
  induction h with
  | start hopen =>
      rcases Store.serves_open opts with ⟨s', hopen', hserves⟩
      rw [hopen, Except.ok.injEq] at hopen'
      subst hopen'
      exact hserves
  | succeed _ _ hshort _ hok ih =>
      rw [Store.tryCall_ok hok, written_snoc]
      exact (ih.call hshort).1
  | fail _ hplain hfault herror ih =>
      exact ih.tryCall_error hplain herror hfault
  | reopen _ hopen ih =>
      rcases ih.reopen _ with ⟨s', hopen', hserves⟩
      rw [hopen, Except.ok.injEq] at hopen'
      subst hopen'
      exact hserves

/-- While failed writes leave nothing behind, the store is the map of the calls
that succeeded, and so is what opens on its files. -/
theorem clean_faults_harmless {opts : Options} {s : Store}
    {calls : List Call}
    (h : FaultyRun (fun s c f => f.Clean s c) opts s calls) :
    (forall k, s.get k = Except.ok (written calls k)) ∧
      forall opts', exists s', Store.openWith s.close opts' = Except.ok s' ∧
        forall k, s'.get k = Except.ok (written calls k) := by
  have hserves := h.serves
  refine ⟨Store.get_eq hserves.1 hserves.2.1, ?_⟩
  intro opts'
  rcases hserves.reopen opts' with ⟨s', hopen, hserves'⟩
  exact ⟨s', hopen, Store.get_eq hserves'.1 hserves'.2.1⟩

def stumbled (bytes : Nat) : Store :=
  ((newStore {}).tryCall (Call.put [97] [1] 5 6)
    (some (Fault.appending bytes))).1

/-- A put that fails with nothing written, and one that succeeds. -/
theorem clean_faults_harmless_put :
    FaultyRun (fun s c f => f.Clean s c) {}
        ((stumbled 0).tryCall (Call.put [98] [2] 7 8) none).1
        [Call.put [98] [2] 7 8] ∧
      ((stumbled 0).tryCall (Call.put [98] [2] 7 8) none).1.get [98] =
        Except.ok (some [2]) := by
  have hfailed : FaultyRun (fun s c f => f.Clean s c) {} (stumbled 0) [] := by
    have herror : ((newStore {}).tryCall (Call.put [97] [1] 5 6)
        (some (Fault.appending 0))).2 = Except.error writeFailed := rfl
    refine (FaultyRun.start (openWith_nothing {})).fail
      (c := Call.put [97] [1] 5 6) trivial ?_ herror
    intro f hf
    cases hf
    refine ⟨rfl, ?_⟩
    rintro ⟨hbuffered, _⟩
    rcases hbuffered with hreach | hpending
    · cases hreach
    · exact hpending rfl
  have hok : ((stumbled 0).tryCall (Call.put [98] [2] 7 8) none).2 =
      Except.ok none := rfl
  have hnone : forall f : Fault, none = some f ->
      f.Clean (stumbled 0) (Call.put [98] [2] 7 8) :=
    nofun
  have hrun := hfailed.succeed (c := Call.put [98] [2] 7 8) trivial (by decide)
    hnone hok
  exact ⟨hrun, (clean_faults_harmless hrun).1 [98]⟩

/-- One byte of a put that failed, and the next put cannot be read back. -/
theorem failed_put_poisons :
    exists s s', FaultyRun (fun _ _ _ => True) {} s [] ∧
      (s.tryCall (Call.put [98] [2] 7 8) none).1 = s' ∧
      (s.tryCall (Call.put [98] [2] 7 8) none).2 = Except.ok none ∧
      FaultyRun (fun _ _ _ => True) {} s' [Call.put [98] [2] 7 8] ∧
      s'.get [98] ≠ Except.ok (some [2]) := by
  have herror : ((newStore {}).tryCall (Call.put [97] [1] 5 6)
      (some (Fault.appending 1))).2 = Except.error writeFailed := rfl
  have hfailed : FaultyRun (fun _ _ _ => True) {} (stumbled 1) [] :=
    (FaultyRun.start (openWith_nothing {})).fail
      (c := Call.put [97] [1] 5 6) trivial (fun _ _ => trivial) herror
  have hok : ((stumbled 1).tryCall (Call.put [98] [2] 7 8) none).2 =
      Except.ok none := rfl
  have hrun := hfailed.succeed (c := Call.put [98] [2] 7 8) trivial (by decide)
    (fun _ _ => trivial) hok
  exact ⟨_, _, hfailed, rfl, rfl, hrun, by decide +kernel⟩

end Minicask
