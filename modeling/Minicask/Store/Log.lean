import Minicask.Store.Directory

/-!
# Data files

`log.rs`: the append end of the active file, with the buffer in front of it, and
the scanner that walks a file's records at startup.
-/

namespace Minicask

inductive SyncPolicy where
  | everyWrite
  | osCache
deriving Repr, DecidableEq

/-- How far an append has to get before it returns. -/
inductive Reach where
  | buffer
  | kernel
  | disk
deriving Repr, DecidableEq

/-- Buffered appends are handed to the kernel once they reach this much. -/
def maxPending : Nat := 1024 * 1024

/-- The append end of the active data file. -/
structure LogWriter where
  fileId : FileId
  /-- Everything appended, including what is still buffered. -/
  offset : Nat
  /-- How much has been handed to the kernel. -/
  written : Nat
  synced : Nat
  pending : Bytes
deriving Repr, DecidableEq

namespace LogWriter

def openFile (dir : Dir) (id : FileId) : LogWriter × Dir :=
  let dir := dir.create id
  let offset := (dir.disk.contents id).length
  ({ fileId := id
     offset := offset
     written := offset
     synced := offset
     pending := [] }, dir)

def flush (w : LogWriter) (dir : Dir) : LogWriter × Dir :=
  if w.pending.isEmpty then (w, dir)
  else
    ({ w with pending := [], written := w.offset },
      dir.writeAll w.fileId w.pending)

def sync (w : LogWriter) (dir : Dir) : LogWriter × Dir :=
  let (w, dir) := w.flush dir
  ({ w with synced := w.offset }, dir.syncData w.fileId)

/-- Append one encoded record and take it as far as `reach` says.  The first
component is where it landed. -/
def append (w : LogWriter) (dir : Dir) (bytes : Bytes) (reach : Reach) :
    (Nat × UInt32) × LogWriter × Dir :=
  let landed := (w.offset, UInt32.ofNat bytes.length)
  if reach ≠ Reach.buffer ∧ w.pending.isEmpty then
    let dir := dir.writeAll w.fileId bytes
    let w := { w with
      offset := w.offset + bytes.length
      written := w.offset + bytes.length }
    if reach = Reach.disk then
      (landed, { w with synced := w.offset }, dir.syncData w.fileId)
    else (landed, w, dir)
  else
    let w := { w with
      pending := w.pending ++ bytes
      offset := w.offset + bytes.length }
    match reach with
    | Reach.buffer =>
        if w.pending.length < maxPending then (landed, w, dir)
        else (landed, w.flush dir)
    | Reach.kernel => (landed, w.flush dir)
    | Reach.disk => (landed, w.sync dir)

/-- The bytes of a record that is still buffered, if this one is. -/
def buffered (w : LogWriter) (offset : Nat) (len : UInt32) : Option Bytes :=
  if offset < w.written then none
  else
    let start := offset - w.written
    if start + len.toNat <= w.pending.length then
      some (slice w.pending start (start + len.toNat))
    else none

/-!
# What an append does
-/

/-- The writer agrees with its file about how much is there. -/
structure Ok (w : LogWriter) (dir : Dir) : Prop where
  linked : w.fileId ∈ dir.disk.data
  written : (dir.disk.contents w.fileId).length = w.written
  offset : w.offset = w.written + w.pending.length

def contents (w : LogWriter) (dir : Dir) : Bytes :=
  dir.disk.contents w.fileId ++ w.pending

theorem Ok.length_contents {w : LogWriter} {dir : Dir} (h : w.Ok dir) :
    (w.contents dir).length = w.offset := by
  rw [contents, List.length_append, h.written, h.offset]

end LogWriter

/-- Two directories that differ at most in what one data file holds.  What was
sure to survive still is. -/
structure Dir.SameBut (id : FileId) (dir dir' : Dir) : Prop where
  lookup : forall other, other ≠ id ->
    dir'.disk.data.lookup other = dir.disk.data.lookup other
  linked : id ∈ dir.disk.data -> id ∈ dir'.disk.data
  synced : dir.disk.synced id <= dir'.disk.synced id
  hints : dir'.disk.hints = dir.disk.hints
  parts : dir'.disk.parts = dir.disk.parts
  appliedIndex : dir'.disk.appliedIndex = dir.disk.appliedIndex
  unlinked : dir'.disk.unlinked = dir.disk.unlinked

namespace Dir

theorem SameBut.refl (id : FileId) (dir : Dir) : SameBut id dir dir :=
  ⟨fun _ _ => rfl, fun h => h, Nat.le_refl _, rfl, rfl, rfl, rfl⟩

theorem SameBut.trans {id : FileId} {a b c : Dir} (hab : SameBut id a b)
    (hbc : SameBut id b c) : SameBut id a c where
  lookup other h := (hbc.lookup other h).trans (hab.lookup other h)
  linked h := hbc.linked (hab.linked h)
  synced := Nat.le_trans hab.synced hbc.synced
  hints := hbc.hints.trans hab.hints
  parts := hbc.parts.trans hab.parts
  appliedIndex := hbc.appliedIndex.trans hab.appliedIndex
  unlinked := hbc.unlinked.trans hab.unlinked

theorem SameBut.contents {id : FileId} {dir dir' : Dir}
    (h : SameBut id dir dir') {other : FileId} (hne : other ≠ id) :
    dir'.disk.contents other = dir.disk.contents other := by
  rw [Disk.contents, Disk.contents, h.lookup other hne]

theorem SameBut.mem_iff {id : FileId} {dir dir' : Dir}
    (h : SameBut id dir dir') (hid : id ∈ dir.disk.data) (other : FileId) :
    other ∈ dir'.disk.data ↔ other ∈ dir.disk.data := by
  by_cases heq : other = id
  · rw [heq]
    exact ⟨fun _ => hid, h.linked⟩
  · rw [← AList.lookup_isSome, h.lookup other heq, AList.lookup_isSome]

theorem modify_sameBut (dir : Dir) (id : FileId) {change : File -> File}
    (hchange : forall file, file.synced <= (change file).synced) :
    SameBut id dir (dir.modify id change) where
  lookup other h := by rw [lookup_modify, if_neg h]
  linked hmem := by
    rw [← AList.lookup_isSome] at hmem ⊢
    rw [lookup_modify, if_pos rfl, Option.isSome_map]
    exact hmem
  synced := by
    rw [Disk.synced, Disk.synced, lookup_modify, if_pos rfl]
    cases dir.disk.data.lookup id with
    | none => exact Nat.le_refl _
    | some file => exact hchange file
  hints := hints_modify dir id change
  parts := by unfold modify; split <;> rfl
  appliedIndex := by unfold modify; split <;> rfl
  unlinked := by unfold modify; split <;> rfl

theorem writeAll_sameBut (dir : Dir) (id : FileId) (bytes : Bytes) :
    SameBut id dir (dir.writeAll id bytes) :=
  modify_sameBut dir id (fun _ => Nat.le_refl _)

theorem syncData_sameBut (dir : Dir) (id : FileId) :
    SameBut id dir (dir.syncData id) :=
  modify_sameBut dir id (fun file => file.synced_le)

theorem contents_modify {dir : Dir} {id : FileId} (change : File -> File)
    (hmem : id ∈ dir.disk.data) :
    exists file, dir.disk.data.lookup id = some file ∧
      (dir.modify id change).disk.contents id = (change file).bytes := by
  rcases Option.isSome_iff_exists.mp (AList.lookup_isSome.mpr hmem) with
    ⟨file, hfile⟩
  refine ⟨file, hfile, ?_⟩
  rw [Disk.contents, lookup_modify, if_pos rfl, hfile]
  rfl

theorem contents_writeAll {dir : Dir} {id : FileId} (bytes : Bytes)
    (hmem : id ∈ dir.disk.data) :
    (dir.writeAll id bytes).disk.contents id =
      dir.disk.contents id ++ bytes := by
  rcases contents_modify (fun file => file.writeAll bytes) hmem with
    ⟨file, hfile, heq⟩
  rw [writeAll, heq, Disk.contents, hfile]
  rfl

theorem synced_modify (dir : Dir) (id : FileId) {change : File -> File}
    (hchange : forall file, (change file).synced = file.synced) :
    (dir.modify id change).disk.synced id = dir.disk.synced id := by
  rw [Disk.synced, Disk.synced, lookup_modify, if_pos rfl]
  cases dir.disk.data.lookup id with
  | none => rfl
  | some file => exact hchange file

theorem synced_writeAll (dir : Dir) (id : FileId) (bytes : Bytes) :
    (dir.writeAll id bytes).disk.synced id = dir.disk.synced id :=
  synced_modify dir id (fun _ => rfl)

theorem synced_syncData (dir : Dir) (id : FileId) :
    (dir.syncData id).disk.synced id = (dir.disk.contents id).length := by
  rw [Disk.synced, Disk.contents, syncData, lookup_modify, if_pos rfl]
  cases dir.disk.data.lookup id with
  | none => rfl
  | some file => rfl

theorem contents_syncData {dir : Dir} {id : FileId}
    (hmem : id ∈ dir.disk.data) :
    (dir.syncData id).disk.contents id = dir.disk.contents id := by
  rcases contents_modify File.syncData hmem with ⟨file, hfile, heq⟩
  rw [syncData, heq, Disk.contents, hfile]
  rfl

end Dir

namespace LogWriter

/-- A writer has moved on: its file is longer by some bytes.  Either nothing
reached the kernel or everything did, and what did was all synced or nothing
was. -/
structure Appended (w : LogWriter) (dir : Dir) (bytes : Bytes)
    (w' : LogWriter) (dir' : Dir) : Prop where
  ok : w'.Ok dir'
  fileId : w'.fileId = w.fileId
  contents : w'.contents dir' = w.contents dir ++ bytes
  boundary : w'.written = w.written ∨ w'.written = w'.offset
  synced : dir'.disk.synced w.fileId = dir.disk.synced w.fileId ∨
    dir'.disk.synced w.fileId = w'.written
  frame : Dir.SameBut w.fileId dir dir'

theorem Appended.offset {w w' : LogWriter} {dir dir' : Dir} {bytes : Bytes}
    (hok : w.Ok dir) (h : Appended w dir bytes w' dir') :
    w'.offset = w.offset + bytes.length := by
  rw [← h.ok.length_contents, h.contents, List.length_append,
    hok.length_contents]

theorem Appended.kept {w w' : LogWriter} {dir dir' : Dir} {bytes : Bytes}
    (hok : w.Ok dir) (h : Appended w dir bytes w' dir') :
    dir.disk.contents w.fileId <+: dir'.disk.contents w.fileId := by
  have hold : dir.disk.contents w.fileId <+: w'.contents dir' := by
    rw [h.contents, LogWriter.contents, List.append_assoc]
    exact List.prefix_append _ _
  have hnew : dir'.disk.contents w.fileId <+: w'.contents dir' := by
    rw [← h.fileId]
    exact List.prefix_append _ _
  refine List.prefix_of_prefix_length_le hold hnew ?_
  have hwritten := h.ok.written
  rw [h.fileId] at hwritten
  rw [hok.written, hwritten]
  have hoffset := h.offset hok
  have hbefore := hok.offset
  rcases h.boundary with hsame | hall
  · exact Nat.le_of_eq hsame.symm
  · omega

theorem appended_writeAll {w : LogWriter} {dir : Dir} (h : w.Ok dir)
    (bytes : Bytes) (synced : Nat) (hpending : w.pending = []) :
    Appended w dir bytes
      { w with
        offset := w.offset + bytes.length
        written := w.offset + bytes.length
        synced := synced }
      (dir.writeAll w.fileId bytes) := by
  have hoffset : w.offset = w.written := by
    rw [h.offset, hpending]
    rfl
  have hcontents := Dir.contents_writeAll bytes h.linked
  have hframe := Dir.writeAll_sameBut dir w.fileId bytes
  refine ⟨⟨hframe.linked h.linked, ?_, ?_⟩, rfl, ?_, Or.inr rfl,
    Or.inl (Dir.synced_writeAll dir w.fileId bytes), hframe⟩
  · show ((dir.writeAll w.fileId bytes).disk.contents w.fileId).length = _
    rw [hcontents, List.length_append, h.written, hoffset]
  · simp [hpending]
  · simp [contents, hpending, hcontents]

theorem Appended.trans {w w' w'' : LogWriter} {dir dir' dir'' : Dir}
    {bytes more : Bytes} (h : Appended w dir bytes w' dir')
    (h' : Appended w' dir' more w'' dir'')
    (hwritten : w'.written = w.written)
    (hsynced : dir'.disk.synced w.fileId = dir.disk.synced w.fileId) :
    Appended w dir (bytes ++ more) w'' dir'' where
  ok := h'.ok
  fileId := h'.fileId.trans h.fileId
  contents := by rw [h'.contents, h.contents, List.append_assoc]
  boundary := by
    rw [← hwritten]
    exact h'.boundary
  synced := by
    rw [← hsynced, ← h.fileId]
    exact h'.synced
  frame := h.frame.trans (h.fileId ▸ h'.frame)

theorem appended_flush {w : LogWriter} {dir : Dir} (h : w.Ok dir) :
    Appended w dir [] (w.flush dir).1 (w.flush dir).2 ∧
      (w.flush dir).1.pending = [] := by
  unfold flush
  by_cases hempty : w.pending.isEmpty
  · rw [if_pos hempty]
    exact ⟨⟨h, rfl, by simp, Or.inl rfl, Or.inl rfl, Dir.SameBut.refl _ _⟩,
      List.isEmpty_iff.mp hempty⟩
  · rw [if_neg hempty]
    have hcontents := Dir.contents_writeAll w.pending h.linked
    have hframe := Dir.writeAll_sameBut dir w.fileId w.pending
    refine ⟨⟨⟨hframe.linked h.linked, ?_, by simp⟩, rfl, ?_, Or.inr rfl,
      Or.inl (Dir.synced_writeAll dir w.fileId w.pending), hframe⟩, rfl⟩
    · show ((dir.writeAll w.fileId w.pending).disk.contents w.fileId).length = _
      rw [hcontents, List.length_append, h.written, h.offset]
    · simp [contents, hcontents]

/-- Syncing changes nothing a reader can see. -/
theorem Appended.syncData {w w' : LogWriter} {dir dir' : Dir} {bytes : Bytes}
    (h : Appended w dir bytes w' dir') (synced : Nat) :
    Appended w dir bytes { w' with synced := synced }
      (dir'.syncData w'.fileId) := by
  have hcontents := Dir.contents_syncData h.ok.linked
  have hframe := Dir.syncData_sameBut dir' w'.fileId
  refine ⟨⟨hframe.linked h.ok.linked, ?_, h.ok.offset⟩, h.fileId, ?_,
    h.boundary, Or.inr ?_, h.frame.trans (h.fileId ▸ hframe)⟩
  · show ((dir'.syncData w'.fileId).disk.contents w'.fileId).length = _
    rw [hcontents, h.ok.written]
  · rw [← h.contents]
    show (dir'.syncData w'.fileId).disk.contents w'.fileId ++ _ = _
    rw [hcontents]
    rfl
  · rw [← h.fileId, Dir.synced_syncData]
    exact h.ok.written

theorem appended_sync {w : LogWriter} {dir : Dir} (h : w.Ok dir) :
    Appended w dir [] (w.sync dir).1 (w.sync dir).2 ∧
      (w.sync dir).1.pending = [] := by
  rcases appended_flush h with ⟨hflush, hpending⟩
  exact ⟨hflush.syncData _, hpending⟩

theorem synced_sync {w : LogWriter} {dir : Dir} (h : w.Ok dir) :
    (w.sync dir).2.disk.synced w.fileId = w.offset := by
  rcases appended_flush h with ⟨hflush, hpending⟩
  have hoffset := hflush.offset h
  have hsynced := Dir.synced_syncData (w.flush dir).2 (w.flush dir).1.fileId
  rw [hflush.ok.written] at hsynced
  rw [hflush.fileId] at hsynced
  have hwritten : (w.flush dir).1.written = w.offset := by
    have := hflush.ok.offset
    rw [hpending] at this
    simpa [hoffset] using this.symm
  rw [← hwritten, ← hsynced]
  show ((w.flush dir).2.syncData (w.flush dir).1.fileId).disk.synced _ = _
  rw [hflush.fileId]

theorem appended_pending {w : LogWriter} {dir : Dir} (h : w.Ok dir)
    (bytes : Bytes) :
    Appended w dir bytes
      { w with
        pending := w.pending ++ bytes
        offset := w.offset + bytes.length } dir := by
  refine ⟨⟨h.linked, h.written, ?_⟩, rfl, ?_, Or.inl rfl, Or.inl rfl,
    Dir.SameBut.refl _ _⟩
  · simp [h.offset, Nat.add_assoc]
  · simp [contents]

theorem Appended.flush {w w' : LogWriter} {dir dir' : Dir} {bytes : Bytes}
    (h : Appended w dir bytes w' dir') (hwritten : w'.written = w.written)
    (hsynced : dir'.disk.synced w.fileId = dir.disk.synced w.fileId) :
    Appended w dir bytes (w'.flush dir').1 (w'.flush dir').2 := by
  have := h.trans (appended_flush h.ok).1 hwritten hsynced
  rwa [List.append_nil] at this

theorem Appended.sync {w w' : LogWriter} {dir dir' : Dir} {bytes : Bytes}
    (h : Appended w dir bytes w' dir') (hwritten : w'.written = w.written)
    (hsynced : dir'.disk.synced w.fileId = dir.disk.synced w.fileId) :
    Appended w dir bytes (w'.sync dir').1 (w'.sync dir').2 := by
  exact (h.flush hwritten hsynced).syncData _

theorem appended_append {w : LogWriter} {dir : Dir} (h : w.Ok dir)
    (bytes : Bytes) (reach : Reach) :
    (w.append dir bytes reach).1 =
        (w.offset, UInt32.ofNat bytes.length) ∧
      Appended w dir bytes (w.append dir bytes reach).2.1
        (w.append dir bytes reach).2.2 := by
  unfold append
  by_cases hdirect : reach ≠ Reach.buffer ∧ w.pending.isEmpty
  · rw [if_pos hdirect]
    have hwrite := fun synced =>
      appended_writeAll h bytes synced (List.isEmpty_iff.mp hdirect.2)
    by_cases hdisk : reach = Reach.disk
    · simp only [if_pos hdisk]
      exact ⟨trivial, (hwrite w.synced).syncData _⟩
    · simp only [if_neg hdisk]
      exact ⟨trivial, hwrite w.synced⟩
  · rw [if_neg hdirect]
    have hbuffer := appended_pending h bytes
    cases reach with
    | buffer =>
        dsimp only
        split
        · exact ⟨rfl, hbuffer⟩
        · exact ⟨rfl, hbuffer.flush rfl rfl⟩
    | kernel => exact ⟨rfl, hbuffer.flush rfl rfl⟩
    | disk => exact ⟨rfl, hbuffer.sync rfl rfl⟩

theorem ok_openFile {dir : Dir} {id : FileId} :
    (openFile dir id).1.Ok (openFile dir id).2 := by
  refine ⟨?_, rfl, rfl⟩
  show id ∈ (dir.create id).disk.data
  rw [← AList.lookup_isSome, Dir.lookup_create, if_pos rfl]
  rfl

end LogWriter

/-!
# The scanner
-/

/-- One record recovered by the scanner. -/
structure Scanned where
  offset : Nat
  len : UInt32
  header : Header
  key : Bytes
deriving Repr, DecidableEq

inductive ScanOutcome where
  | record (found : Scanned)
  | eof
  | torn (offset : Nat) (detail : String)
deriving Repr, DecidableEq

/-- Walks a data file, verifying every record as it goes: what is left to read,
and where that starts. -/
structure Scanner where
  rest : Bytes
  offset : Nat
deriving Repr, DecidableEq

namespace Scanner

def openAt (dir : Dir) (id : FileId) (offset : Nat) : Scanner where
  rest := (dir.disk.contents id).drop offset
  offset := offset

def nextRecord (s : Scanner) : ScanOutcome × Scanner :=
  let start := s.offset
  let headerBuf := s.rest.take headerLen
  let rest := s.rest.drop headerLen
  if headerBuf.length = 0 then (ScanOutcome.eof, s)
  else if headerBuf.length < headerLen then
    (ScanOutcome.torn start "file ends inside a record header", s)
  else
    let header := Header.decode headerBuf
    let key := rest.take header.keyLen.toNat
    let rest := rest.drop header.keyLen.toNat
    let value := rest.take header.valueLen.toNat
    let rest := rest.drop header.valueLen.toNat
    if key.length < header.keyLen.toNat ∨
        value.length < header.valueLen.toNat then
      (ScanOutcome.torn start "file ends inside a record payload", s)
    else if !header.verify key value then
      (ScanOutcome.torn start "checksum mismatch", s)
    else
      let len := header.recordLen
      (ScanOutcome.record
        { offset := start
          len := UInt32.ofNat len
          header := header
          key := key },
        { rest := rest, offset := start + len })

/-- A whole record is read back as it was written. -/
theorem nextRecord_bytes (r : Rec) (rest : Bytes) (offset : Nat) :
    nextRecord { rest := r.bytes ++ rest, offset := offset } =
      (ScanOutcome.record
        { offset := offset
          len := UInt32.ofNat r.bytes.length
          header := r.header
          key := r.key },
        { rest := rest, offset := offset + r.bytes.length }) := by
  unfold nextRecord
  simp only [Rec.take_bytes, Rec.drop_bytes, Header.length_encode,
    Header.decode_encode, Rec.keyLen_toNat, Rec.valueLen_toNat,
    List.take_left, List.drop_left, Rec.verify_header, Rec.recordLen_header]
  simp [headerLen]

@[simp] theorem nextRecord_nil (offset : Nat) :
    nextRecord { rest := [], offset := offset } =
      (ScanOutcome.eof, { rest := [], offset := offset }) := by
  rfl

/-- What is left of a record cut short is a tear, wherever it was cut. -/
theorem nextRecord_torn (r : Rec) {cut : Bytes} (hcut : cut <+: r.bytes)
    (hne : cut ≠ []) (hshort : cut.length < r.bytes.length) (offset : Nat) :
    exists detail, nextRecord { rest := cut, offset := offset } =
      (ScanOutcome.torn offset detail, { rest := cut, offset := offset }) := by
  have hpos : cut.length ≠ 0 := by
    intro hzero
    exact hne (List.length_eq_zero_iff.mp hzero)
  unfold nextRecord
  by_cases hheader : cut.length < headerLen
  · refine ⟨"file ends inside a record header", ?_⟩
    simp only [List.length_take]
    rw [if_neg (by omega), if_pos (by omega)]
  · have htake : cut.take headerLen = r.header.encode := by
      rcases hcut with ⟨more, hmore⟩
      rw [← r.take_bytes [], List.append_nil, ← hmore,
        List.take_append_of_le_length (by omega)]
    have hlength : headerLen + r.key.length + r.payload.length > cut.length := by
      rw [← r.length_bytes]
      exact hshort
    refine ⟨"file ends inside a record payload", ?_⟩
    simp only [htake, Header.length_encode, Header.decode_encode,
      Rec.keyLen_toNat, Rec.valueLen_toNat, List.length_take, List.length_drop]
    rw [if_neg (by decide), if_neg (by decide), if_pos (by omega)]

end Scanner

end Minicask
