import Minicask.Raft.StorageRefinement

/-!
# Appends that fail

An append that fails leaves the log in memory as it was, and its bytes, or some of
them, in the file past the end of the log.  The next append writes over them from
the same place, which covers them up to a point.  What a reopening makes of the
rest depends on whether some record can end where a record begins in it.
-/

namespace Minicask
namespace Raft

def DiskClient.left (c : DiskClient) : Bytes :=
  c.storage.dir.disk.entries.bytes.drop c.storage.endAt

def DiskClient.refusedAppend (c : DiskClient) (stamp : Entry -> UInt64)
    (entries : List Entry) (reached : Nat) : Except Error DiskClient :=
  (c.storage.refusedAppend stamp entries reached).map (fun storage =>
    { c with storage := storage })

/-- No record is read from these bytes, neither now nor after records were written
over the start of them.  The shortest record is a header and a key. -/
def Harmless (bytes : Bytes) : Prop :=
  forall n, n = 0 ∨ headerLen + 16 <= n -> Unfinished (bytes.drop n)

/-- The bytes of a batch that reach the file do no harm there. -/
def DiskClient.RefusesCleanly (c : DiskClient) (stamp : Entry -> UInt64)
    (entries : List Entry) (reached : Nat) : Prop :=
  forall offsets buf,
    encodeEntries stamp c.storage.endAt entries = Except.ok (offsets, buf) ->
    Harmless (buf.take reached ++ c.left.drop (buf.take reached).length)

/-- Calls and failed appends, from an empty directory on, and what the calls alone
make of a storage in memory. -/
inductive RefusalRun : DiskClient -> MemClient -> Prop where
  | start {stamp : Entry -> UInt64} {s : DiskStorage}
      (hopen : DiskStorage.openDir {} stamp = Except.ok s) :
      RefusalRun { storage := s } {}
  | call {c c' : DiskClient} {m : MemClient} {call : StorageCall}
      (hrun : RefusalRun c m) (hallows : m.Allows call)
      (hcall : c.call call = Except.ok c') :
      RefusalRun c' (m.call call)
  | refused {c c' : DiskClient} {m : MemClient} {stamp : Entry -> UInt64}
      {entries : List Entry} {reached : Nat} (hrun : RefusalRun c m)
      (hrefused : c.refusedAppend stamp entries reached = Except.ok c')
      (hcleanly : c.RefusesCleanly stamp entries reached) :
      RefusalRun c' m

namespace ClientStores

variable {c : DiskClient} {m : MemClient} {junk : Bytes}

theorem left (h : ClientStores c m junk) : c.left = junk := by
  rcases h.storage.encoded with ⟨whole, hbytes, _, hend⟩
  unfold DiskClient.left
  rw [hbytes, hend, List.drop_left]

/-- A failed append puts its bytes over what lay past the log. -/
theorem refusedAppend (h : ClientStores c m junk) {stamp : Entry -> UInt64}
    {entries : List Entry} {reached : Nat} {c' : DiskClient}
    (hrefused : c.refusedAppend stamp entries reached = Except.ok c') :
    exists offsets buf,
      encodeEntries stamp c.storage.endAt entries = Except.ok (offsets, buf) ∧
      ClientStores c' m
        (buf.take reached ++ junk.drop (buf.take reached).length) ∧
      c'.storage.endAt = c.storage.endAt := by
  unfold DiskClient.refusedAppend DiskStorage.refusedAppend at hrefused
  cases hencode : encodeEntries stamp c.storage.endAt entries with
  | error e =>
      rw [hencode] at hrefused
      cases hrefused
  | ok batch =>
      rcases batch with ⟨offsets, buf⟩
      rw [hencode] at hrefused
      cases hrefused
      refine ⟨offsets, buf, rfl, h.keep ?_ rfl rfl, rfl⟩
      rcases h.storage.encoded with ⟨whole, hbytes, hwhole, hend⟩
      refine { h.storage with encoded := ⟨whole, ?_, hwhole, hend⟩ }
      show overwrite c.storage.dir.disk.entries.bytes c.storage.endAt _ = _
      rw [hbytes, hend, DiskStorage.overwrite_end, List.append_assoc]

end ClientStores

theorem Harmless.leftOver {junk junk' : Bytes} (h : Harmless junk)
    (hleft : ClientStores.LeftOver junk junk') : Harmless junk' := by
  rcases hleft with ⟨n, heq, hn⟩
  subst heq
  intro k hk
  rw [List.drop_drop]
  apply h
  omega

theorem RefusalRun.stores {c : DiskClient} {m : MemClient}
    (hrun : RefusalRun c m) :
    exists junk, ClientStores c m junk ∧ Harmless junk := by
  induction hrun with
  | @start stamp s hopen =>
      rcases DiskStorage.openDir_spec
        (show ({} : RaftDir).disk.Holds {} from holds_empty) stamp with
        ⟨s', hopen', hstores, _⟩
      rw [hopen] at hopen'
      cases hopen'
      refine ⟨[], ClientStores.opened hstores, ?_⟩
      intro n _
      rw [List.drop_nil]
      exact unfinished_nil
  | call _ hallows hcall ih =>
      rcases ih with ⟨junk, hstores, hharmless⟩
      rcases hstores.call hallows (fun _ _ => hharmless 0 (Or.inl rfl)) with
        ⟨c', junk', hcall', hleft, hstores'⟩
      rw [hcall] at hcall'
      cases hcall'
      exact ⟨junk', hstores', hharmless.leftOver hleft⟩
  | refused _ hrefused hcleanly ih =>
      rcases ih with ⟨junk, hstores, hharmless⟩
      rcases hstores.refusedAppend hrefused with
        ⟨offsets, buf, hencode, hstores', _⟩
      have hclean := hcleanly offsets buf hencode
      rw [hstores.left] at hclean
      exact ⟨_, hstores', hclean⟩

/-- In every run whose failed appends leave nothing that a record can end at, a
reopening gives the log that is held in memory, which is the one that the calls
that succeeded made. -/
theorem refused_stays_refused {c : DiskClient} {m : MemClient}
    (hrun : RefusalRun c m) (stamp : Entry -> UInt64) :
    c.storage.log = m.storage.log ∧
      exists s, DiskStorage.openDir c.storage.dir stamp = Except.ok s ∧
        s.log = c.storage.log := by
  rcases hrun.stores with ⟨junk, hstores, hharmless⟩
  have hholds := hstores.storage.holds (hharmless 0 (Or.inl rfl))
  rcases DiskStorage.openDir_spec hholds stamp with ⟨s, hopen, hs, _⟩
  refine ⟨hstores.storage.log, s, hopen, ?_⟩
  rw [hs.log, hstores.storage.log]

theorem harmless_of_short {bytes : Bytes} (h : bytes.length < headerLen) :
    Harmless bytes := by
  intro n _
  apply Or.inl
  rw [List.length_drop]
  omega

theorem refused_stays_refused_short :
    exists c m, RefusalRun c m ∧ m.storage.log.entries.length = 1 ∧
      c.storage.log = m.storage.log ∧
      exists s, DiskStorage.openDir c.storage.dir (fun _ => 0) = Except.ok s ∧
        s.log = c.storage.log := by
  rcases DiskStorage.openDir_spec
    (show ({} : RaftDir).disk.Holds {} from holds_empty) (fun _ => 0) with
    ⟨s, hopen, hs, _⟩
  have hstart := ClientStores.opened hs
  -- Five bytes of a batch reach the file, and another one is appended after it.
  rcases encodeEntries_ok (fun _ => 0) s.endAt
    (show forall entry, entry ∈
      [({ term := 1, index := 1, command := Command.data [9] } : Entry)] ->
        entry.Fits by decide) with ⟨offsets, buf, hencode⟩
  have hrefused : DiskClient.refusedAppend { storage := s } (fun _ => 0)
      [{ term := 1, index := 1, command := Command.data [9] }] 5 = Except.ok
      { storage :=
          { s with dir := s.dir.writeAt s.endAt (buf.take 5) } } := by
    unfold DiskClient.refusedAppend DiskStorage.refusedAppend
    rw [hencode]
    rfl
  have hcleanly : DiskClient.RefusesCleanly { storage := s } (fun _ => 0)
      [{ term := 1, index := 1, command := Command.data [9] }] 5 := by
    intro offsets' buf' _
    apply harmless_of_short
    rw [hstart.left, List.drop_nil, List.append_nil, List.length_take]
    unfold headerLen
    omega
  have hrun := RefusalRun.refused (RefusalRun.start hopen) hrefused hcleanly
  rcases hrun.stores with ⟨junk, hstores, hharmless⟩
  have hallows : MemClient.Allows {} (StorageCall.append (fun _ => 0)
      [{ term := 1, index := 1, command := Command.noop }]) :=
    ⟨⟨rfl, trivial⟩, by decide⟩
  rcases hstores.call hallows (fun _ _ => hharmless 0 (Or.inl rfl)) with
    ⟨c, _, hcall, _⟩
  have hlast := RefusalRun.call hrun hallows hcall
  exact ⟨c, _, hlast, rfl, refused_stays_refused hlast (fun _ => 0)⟩

/-!
# A batch that is there again
-/

/-- An append that failed after its last byte had reached the file is undone by
nothing, and a reopening takes it for one that succeeded. -/
theorem refused_whole_batch {c c' : DiskClient} {m : MemClient}
    (h : ClientStores c m []) {stamp : Entry -> UInt64} {entries : List Entry}
    (hfollows : Follows m.storage.lastIndex entries)
    (hfits : forall entry, entry ∈ entries -> entry.Fits) {reached : Nat}
    (hrefused : c.refusedAppend stamp entries reached = Except.ok c')
    (hreached : forall offsets buf,
      encodeEntries stamp c.storage.endAt entries = Except.ok (offsets, buf) ->
      buf.length <= reached) (stamp' : Entry -> UInt64) :
    c'.storage.log = m.storage.log ∧
      exists s, DiskStorage.openDir c'.storage.dir stamp' = Except.ok s ∧
        s.log = (m.storage.append entries).log := by
  rcases h.refusedAppend hrefused with ⟨offsets, buf, hencode, hstores, hend⟩
  rw [List.take_of_length_le (hreached offsets buf hencode), List.drop_nil,
    List.append_nil] at hstores
  have hencoded := encodeEntries_encoded hencode
  rw [← hend] at hencoded
  have hholds := hstores.storage.holds_append (List.append_nil buf).symm hencoded
    unfinished_nil hfollows hfits
  rcases DiskStorage.openDir_spec hholds stamp' with ⟨s, hopen, hs, _⟩
  exact ⟨hstores.storage.log, s, hopen, hs.log⟩

/-- The first append to an empty storage fails in the sync, and is there after a
reopening. -/
theorem refused_append_comes_back :
    exists s s' t, DiskStorage.openDir {} (fun _ => 0) = Except.ok s ∧
      s.refusedAppend (fun _ => 0)
        [{ term := 1, index := 1, command := Command.data [9] }] 38 =
        Except.ok s' ∧
      s'.log.entries = [] ∧
      DiskStorage.openDir s'.dir (fun _ => 0) = Except.ok t ∧
      t.log.entries =
        [{ term := 1, index := 1, command := Command.data [9] }] := by
  rcases DiskStorage.openDir_spec
    (show ({} : RaftDir).disk.Holds {} from holds_empty) (fun _ => 0) with
    ⟨s, hopen, hs, _⟩
  have hstart := ClientStores.opened hs
  rcases encodeEntries_ok (fun _ => 0) s.endAt
    (show forall entry, entry ∈
      [({ term := 1, index := 1, command := Command.data [9] } : Entry)] ->
        entry.Fits by decide) with ⟨offsets, buf, hencode⟩
  have hstorage : s.refusedAppend (fun _ => 0)
      [{ term := 1, index := 1, command := Command.data [9] }] 38 = Except.ok
      { s with dir := s.dir.writeAt s.endAt (buf.take 38) } := by
    unfold DiskStorage.refusedAppend
    rw [hencode]
    rfl
  have hrefused : DiskClient.refusedAppend { storage := s } (fun _ => 0)
      [{ term := 1, index := 1, command := Command.data [9] }] 38 = Except.ok
      { storage :=
          { s with dir := s.dir.writeAt s.endAt (buf.take 38) } } := by
    unfold DiskClient.refusedAppend
    rw [hstorage]
    rfl
  have hfollows : Follows ({} : MemClient).storage.lastIndex
      [{ term := 1, index := 1, command := Command.data [9] }] :=
    ⟨rfl, trivial⟩
  have hreached : forall offsets buf, encodeEntries (fun _ => 0) s.endAt
      [{ term := 1, index := 1, command := Command.data [9] }] =
      Except.ok (offsets, buf) -> buf.length <= 38 := by
    intro offsets buf hbatch
    cases encodeEntries_encoded hbatch with
    | cons stamp hentry hrest =>
        cases hrest
        rw [encodeEntry_eq] at hentry
        rcases encode_parts hentry with ⟨header, rfl, _⟩
        simp [Entry.recordKey, Entry.recordValue, entryKey, headerLen]
  rcases refused_whole_batch hstart hfollows (by decide) hrefused hreached
    (fun _ => 0) with ⟨hlog, t, hreopen, ht⟩
  refine ⟨s, _, t, hopen, hstorage, ?_, hreopen, ?_⟩
  · rw [hlog]
  · rw [ht]
    rfl

end Raft
end Minicask
