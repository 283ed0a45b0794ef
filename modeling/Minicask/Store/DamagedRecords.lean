import Minicask.Store.CutCompactions

/-!
# Damage in the middle of the newest file

The scanner stops at the first bytes that are not a record, and opening takes the
newest file to end there, whatever it was that stopped the scan.  The records
behind damaged bytes are kept only if these happen to be records themselves.
-/

namespace Minicask

/-!
# What the scanner takes for a record
-/

/-- A header and the key and value it was made for, whether or not a store would
have written it. -/
structure Framed where
  header : Header
  key : Bytes
  value : Bytes
  keyLen : header.keyLen.toNat = key.length
  valueLen : header.valueLen.toNat = value.length
  verified : header.verify key value = true

namespace Framed

def bytes (f : Framed) : Bytes :=
  f.header.encode ++ f.key ++ f.value

def join (fs : List Framed) : Bytes :=
  fs.flatMap bytes

def entry (f : Framed) (offset : Nat) : HintEntry where
  key := f.key
  offset := offset
  len := UInt32.ofNat f.header.recordLen
  tstamp := f.header.tstamp
  tombstone := f.header.isTombstone

def entries : Nat -> List Framed -> List HintEntry
  | _, [] => []
  | offset, f :: fs => f.entry offset :: entries (offset + f.bytes.length) fs

@[simp] theorem join_nil : join [] = [] := rfl

@[simp] theorem join_cons (f : Framed) (fs : List Framed) :
    join (f :: fs) = f.bytes ++ join fs := by
  simp [join]

@[simp] theorem join_append (fs more : List Framed) :
    join (fs ++ more) = join fs ++ join more := by
  simp [join]

theorem length_bytes (f : Framed) : f.bytes.length = f.header.recordLen := by
  rw [Header.recordLen, f.keyLen, f.valueLen]
  simp [bytes, Nat.add_assoc]

theorem length_bytes_pos (f : Framed) : 0 < f.bytes.length := by
  rw [length_bytes, Header.recordLen, headerLen]
  omega

theorem length_le_join (fs : List Framed) : fs.length <= (join fs).length := by
  induction fs with
  | nil => exact Nat.le_refl 0
  | cons f fs ih =>
      have hpos := f.length_bytes_pos
      rw [join_cons, List.length_append, List.length_cons]
      omega

theorem entries_append (start : Nat) (fs more : List Framed) :
    entries start (fs ++ more) =
      entries start fs ++ entries (start + (join fs).length) more := by
  induction fs generalizing start with
  | nil => rfl
  | cons f fs ih =>
      rw [List.cons_append, entries, ih, join_cons, List.length_append,
        Nat.add_assoc]
      rfl

theorem split_of_entries {start : Nat} {fs : List Framed}
    {before after : List HintEntry} {e : HintEntry}
    (h : entries start fs = before ++ e :: after) :
    exists fs₁ fs₂, fs = fs₁ ++ fs₂ ∧ e.offset = start + (join fs₁).length := by
  induction fs generalizing start before with
  | nil =>
      rw [entries] at h
      exact absurd h.symm (by simp)
  | cons f fs ih =>
      cases before with
      | nil =>
          rw [entries, List.nil_append, List.cons.injEq] at h
          refine ⟨[], f :: fs, rfl, ?_⟩
          rw [← h.1]
          rfl
      | cons e' before =>
          rw [entries, List.cons_append, List.cons.injEq] at h
          rcases ih h.2 with ⟨fs₁, fs₂, hfs, hoffset⟩
          refine ⟨f :: fs₁, fs₂, by rw [hfs, List.cons_append], ?_⟩
          rw [hoffset, join_cons, List.length_append, Nat.add_assoc]

theorem bytes_append_inj {f g : Framed} {rest more : Bytes}
    (h : f.bytes ++ rest = g.bytes ++ more) : f = g ∧ rest = more := by
  have htake : forall (f : Framed) (rest : Bytes),
      (f.bytes ++ rest).take headerLen = f.header.encode := by
    intro f rest
    simp [bytes]
  have hheader : f.header = g.header := by
    have := htake f rest
    rw [h, htake g more] at this
    rw [← Header.decode_encode f.header, ← this, Header.decode_encode]
  have hlength : f.bytes.length = g.bytes.length := by
    rw [length_bytes, length_bytes, hheader]
  rcases List.append_inj h hlength with ⟨hbytes, hrest⟩
  unfold bytes at hbytes
  rw [List.append_assoc, List.append_assoc, hheader] at hbytes
  have hbody := List.append_cancel_left hbytes
  have hkeys : f.key.length = g.key.length := by
    rw [← f.keyLen, ← g.keyLen, hheader]
  rcases List.append_inj hbody hkeys with ⟨hkey, hvalue⟩
  refine ⟨?_, hrest⟩
  cases f
  cases g
  simp_all

/-- Bytes that go on from some records, and are records on the whole, are records
themselves. -/
theorem join_cancel {fs before : List Framed} {rest : Bytes}
    (h : join fs = join before ++ rest) :
    exists more, fs = before ++ more ∧ rest = join more := by
  induction before generalizing fs with
  | nil => exact ⟨fs, rfl, h.symm⟩
  | cons f before ih =>
      cases fs with
      | nil =>
          have hlength := congrArg List.length h
          have hpos := f.length_bytes_pos
          simp only [join_nil, join_cons, List.length_append,
            List.length_nil] at hlength
          omega
      | cons g fs =>
          rw [join_cons, join_cons, List.append_assoc] at h
          rcases bytes_append_inj h with ⟨heq, hrest⟩
          rcases ih hrest with ⟨more, hfs, hmore⟩
          exact ⟨more, by rw [heq, hfs, List.cons_append], hmore⟩

end Framed

/-- No record starts here. -/
def Unframed (rest : Bytes) : Prop :=
  forall (f : Framed) (more : Bytes), rest ≠ f.bytes ++ more

/-- Records and nothing else. -/
def Whole (bytes : Bytes) : Prop :=
  exists fs, bytes = Framed.join fs

namespace Scanner

theorem nextRecord_framed (f : Framed) (rest : Bytes) (offset : Nat) :
    nextRecord { rest := f.bytes ++ rest, offset := offset } =
      (ScanOutcome.record
        { offset := offset
          len := UInt32.ofNat f.header.recordLen
          header := f.header
          key := f.key },
        { rest := rest, offset := offset + f.bytes.length }) := by
  have htake : (f.bytes ++ rest).take headerLen = f.header.encode := by
    simp [Framed.bytes]
  have hdrop : (f.bytes ++ rest).drop headerLen =
      f.key ++ (f.value ++ rest) := by
    simp [Framed.bytes]
  unfold nextRecord
  simp only [htake, hdrop, Header.length_encode, Header.decode_encode,
    f.keyLen, f.valueLen, List.take_left, List.drop_left, f.verified,
    f.length_bytes]
  simp [headerLen]

/-- Anything else is a tear, wherever it is. -/
theorem nextRecord_unframed {rest : Bytes} (h : Unframed rest)
    (hne : rest ≠ []) (offset : Nat) :
    exists detail, nextRecord { rest := rest, offset := offset } =
      (ScanOutcome.torn offset detail, { rest := rest, offset := offset }) := by
  have hpos : 0 < rest.length := List.length_pos_iff.mpr hne
  unfold nextRecord
  dsimp only
  split
  · next hzero =>
      rw [List.length_take, headerLen] at hzero
      omega
  · split
    · exact ⟨_, rfl⟩
    · next hheader =>
        split
        · exact ⟨_, rfl⟩
        · next hpayload =>
            split
            · exact ⟨_, rfl⟩
            · next hverify =>
                have hlength : (rest.take headerLen).length = headerLen :=
                  Nat.le_antisymm (List.length_take_le _ _)
                    (Nat.le_of_not_lt hheader)
                generalize hdecoded :
                  Header.decode (rest.take headerLen) = header at *
                have hencode : header.encode = rest.take headerLen := by
                  rw [← hdecoded, Header.encode_decode hlength]
                rw [not_or] at hpayload
                have hkey : header.keyLen.toNat = ((rest.drop headerLen).take
                    header.keyLen.toNat).length :=
                  Nat.le_antisymm (Nat.le_of_not_lt hpayload.1)
                    (List.length_take_le _ _)
                have hvalue : header.valueLen.toNat =
                    (((rest.drop headerLen).drop header.keyLen.toNat).take
                      header.valueLen.toNat).length :=
                  Nat.le_antisymm (Nat.le_of_not_lt hpayload.2)
                    (List.length_take_le _ _)
                refine absurd ?_ (h ⟨header, _, _, hkey, hvalue,
                  by simpa using hverify⟩ (((rest.drop headerLen).drop
                    header.keyLen.toNat).drop header.valueLen.toNat))
                rw [Framed.bytes, hencode]
                simp only [List.append_assoc, List.take_append_drop]

end Scanner

/-!
# A whole scan
-/

theorem exists_framed (bytes : Bytes) :
    exists fs rest, bytes = Framed.join fs ++ rest ∧ Unframed rest := by
  induction hn : bytes.length using Nat.strongRecOn generalizing bytes with
  | ind n ih =>
      by_cases hframed : Unframed bytes
      · exact ⟨[], bytes, rfl, hframed⟩
      · unfold Unframed at hframed
        simp only [not_forall, Decidable.not_not] at hframed
        rcases hframed with ⟨f, more, hbytes⟩
        have hpos := f.length_bytes_pos
        have hlength := congrArg List.length hbytes
        rw [List.length_append] at hlength
        rcases ih more.length (by omega) more rfl with
          ⟨fs, rest, hmore, hrest⟩
        refine ⟨f :: fs, rest, ?_, hrest⟩
        rw [hbytes, hmore, Framed.join_cons, List.append_assoc]

/-- Only in one way. -/
theorem framed_unique {fs fs' : List Framed} {rest : Bytes}
    (hrest : Unframed rest) (h : Framed.join fs ++ rest = Framed.join fs') :
    fs = fs' ∧ rest = [] := by
  rcases Framed.join_cancel h.symm with ⟨more, hfs, hmore⟩
  cases more with
  | nil => exact ⟨by rw [hfs, List.append_nil], hmore⟩
  | cons f more =>
      rw [Framed.join_cons] at hmore
      exact absurd hmore (hrest f _)

theorem scanLoop_framed {rest : Bytes} (hrest : Unframed rest)
    (fs : List Framed) (start : Nat) {turns : Nat} (hturns : fs.length < turns) :
    exists torn,
      scanLoop turns { rest := Framed.join fs ++ rest, offset := start } =
        (Framed.entries start fs, torn) ∧
      (rest = [] -> torn = none) ∧
      (rest ≠ [] -> exists detail,
        torn = some (start + (Framed.join fs).length, detail)) := by
  induction fs generalizing start turns with
  | nil =>
      cases turns with
      | zero => cases hturns
      | succ turns =>
          by_cases hnil : rest = []
          · refine ⟨none, ?_, fun _ => rfl, fun hne => absurd hnil hne⟩
            simp [scanLoop, hnil, Framed.entries]
          · rcases Scanner.nextRecord_unframed hrest hnil start with
              ⟨detail, hnext⟩
            refine ⟨some (start, detail), ?_, fun h => absurd h hnil,
              fun _ => ⟨detail, rfl⟩⟩
            simp [scanLoop, hnext, Framed.entries]
  | cons f fs ih =>
      cases turns with
      | zero => cases hturns
      | succ turns =>
          rcases ih (start + f.bytes.length) (by simpa using hturns) with
            ⟨torn, hscan, hclean, htorn⟩
          refine ⟨torn, ?_, hclean, ?_⟩
          · rw [Framed.join_cons, List.append_assoc, scanLoop,
              Scanner.nextRecord_framed]
            simp only [hscan]
            rfl
          · intro hne
            rcases htorn hne with ⟨detail, heq⟩
            refine ⟨detail, ?_⟩
            rw [heq, Framed.join_cons, List.length_append, Nat.add_assoc]

/-!
# Reading files without their hints
-/

/-- Hints are not looked at, or there are none. -/
def Unhinted (opts : Options) (disk : Disk) (id : FileId) : Prop :=
  opts.verifyOnOpen = true ∨ disk.hints.lookup id = none

/-- The scan of one file, and what becomes of what it stops at: nothing if there
is nothing, a cut if the file is the newest, and an error otherwise. -/
theorem readEntries_framed {dir : Dir} {opts : Options} {id : FileId}
    (hunhinted : Unhinted opts dir.disk id) {fs : List Framed} {rest : Bytes}
    (hcontents : dir.disk.contents id = Framed.join fs ++ rest)
    (hrest : Unframed rest) (isNewest : Bool) :
    (rest ≠ [] ∧ isNewest = false ∧ exists offset detail,
      readEntries dir opts id isNewest =
        Except.error (Error.corrupt id offset detail)) ∨
    ((rest = [] ∨ isNewest = true) ∧ exists dir',
      readEntries dir opts id isNewest =
        Except.ok (Framed.entries 0 fs, dir') ∧
      (rest = [] -> dir'.disk.contents id = dir.disk.contents id)) := by
  have hload : (if opts.verifyOnOpen then ([], 0)
      else (Hint.load dir.disk id (dir.disk.contents id).length).getD
        ([], 0)) = (([], 0) : List HintEntry × Nat) := by
    rcases hunhinted with hverify | hnone
    · rw [if_pos hverify]
    · rw [Hint.load, hnone]
      split <;> rfl
  have hturns : fs.length < (dir.disk.contents id).length + 1 := by
    have hle := Framed.length_le_join fs
    rw [hcontents, List.length_append]
    omega
  rcases scanLoop_framed hrest fs 0 hturns with ⟨torn, hscan, hclean, htorn⟩
  have hopen : scanLoop ((dir.disk.contents id).length + 1)
      (Scanner.openAt dir id 0) = (Framed.entries 0 fs, torn) := by
    rw [Scanner.openAt, List.drop_zero, hcontents]
    rw [hcontents] at hscan
    exact hscan
  unfold readEntries
  dsimp only
  rw [hload]
  dsimp only
  rw [hopen]
  by_cases hnil : rest = []
  · right
    refine ⟨Or.inl hnil, ?_⟩
    rw [hclean hnil]
    split
    · cases isNewest with
      | true => exact ⟨dir, rfl, fun _ => rfl⟩
      | false =>
          refine ⟨_, rfl, fun _ => ?_⟩
          by_cases hid : id ∈ dir.disk.data
          · exact Dir.contents_syncData hid
          · rw [Disk.contents, Disk.contents, Hint.write, Dir.data_writeHint,
              Dir.syncData, Dir.lookup_modify, if_pos rfl,
              AList.lookup_eq_none.mpr hid]
            rfl
    · next hempty =>
        have hzero : (dir.disk.contents id).length = 0 :=
          Nat.eq_zero_of_not_pos hempty
        have hfs : fs = [] := by
          have hle := Framed.length_le_join fs
          rw [hcontents, List.length_append] at hzero
          exact List.length_eq_zero_iff.mp (by omega)
        refine ⟨dir, ?_, fun _ => rfl⟩
        rw [hfs]
        rfl
  · rcases htorn hnil with ⟨detail, hsome⟩
    have hpos : 0 < (dir.disk.contents id).length := by
      have := List.length_pos_iff.mpr hnil
      rw [hcontents, List.length_append]
      omega
    rw [if_pos hpos, hsome]
    cases isNewest with
    | true => exact Or.inr ⟨Or.inr rfl, _, rfl, fun h => absurd h hnil⟩
    | false => exact Or.inl ⟨hnil, rfl, _, _, rfl⟩

/-- An error that names the damage. -/
def Error.Corrupt (e : Error) : Prop :=
  exists id offset detail, e = Error.corrupt id offset detail

theorem Unhinted.congr {opts : Options} {disk disk' : Disk} {id : FileId}
    (h : Unhinted opts disk id)
    (hhints : disk'.hints.lookup id = disk.hints.lookup id) :
    Unhinted opts disk' id := by
  unfold Unhinted
  rw [hhints]
  exact h

theorem openLoop_append (opts : Options) (newest : Option FileId)
    (ids more : List FileId) (o : Opening) :
    openLoop opts newest (ids ++ more) o =
      (openLoop opts newest ids o).bind (openLoop opts newest more) := by
  induction ids generalizing o with
  | nil => rfl
  | cons id ids ih =>
      rw [List.cons_append, openLoop, openLoop]
      dsimp only
      cases readEntries o.dir opts id (newest == some id) with
      | error e => rfl
      | ok read => exact ih _

/-- The files that are not the newest are all whole, and left as they are, or the
damage is reported. -/
theorem openLoop_older {opts : Options} {newest : Option FileId}
    {ids : List FileId} (hnewest : forall id, id ∈ ids -> newest ≠ some id)
    (hnodup : ids.Nodup) {o : Opening}
    (hunhinted : forall id, id ∈ ids -> Unhinted opts o.dir.disk id) :
    (exists e, openLoop opts newest ids o = Except.error e ∧ e.Corrupt ∧
      exists id, id ∈ ids ∧ ¬Whole (o.dir.disk.contents id)) ∨
    (exists o', openLoop opts newest ids o = Except.ok o' ∧
      (forall id, id ∈ ids -> Whole (o.dir.disk.contents id)) ∧
      forall id, id ∉ ids ->
        o'.dir.disk.contents id = o.dir.disk.contents id ∧
        o'.dir.disk.hints.lookup id = o.dir.disk.hints.lookup id) := by
  induction ids generalizing o with
  | nil => exact Or.inr ⟨o, rfl, fun _ h => absurd h List.not_mem_nil,
      fun _ _ => ⟨rfl, rfl⟩⟩
  | cons id ids ih =>
      have hnot : (newest == some id) = false :=
        beq_eq_false_iff_ne.mpr (hnewest id List.mem_cons_self)
      rcases exists_framed (o.dir.disk.contents id) with
        ⟨fs, rest, hcontents, hrest⟩
      rw [openLoop]
      dsimp only
      rw [hnot]
      rcases readEntries_framed (hunhinted id List.mem_cons_self) hcontents
        hrest false with
        ⟨hne, _, offset, detail, hread⟩ | ⟨hwhole, dir', hread, _⟩
      · rw [hread]
        refine Or.inl ⟨_, rfl, ⟨id, offset, detail, rfl⟩, id,
          List.mem_cons_self, ?_⟩
        rintro ⟨fs', hfs'⟩
        rw [hcontents] at hfs'
        exact hne (framed_unique hrest hfs').2
      · have hnil : rest = [] := by simpa using hwhole
        rw [hnil, List.append_nil] at hcontents
        have hframe : forall other, other ≠ id ->
            dir'.disk.data.lookup other = o.dir.disk.data.lookup other ∧
              dir'.disk.hints.lookup other = o.dir.disk.hints.lookup other :=
          fun other hne => readEntries_frame hread hne
        have hother : forall other, other ∈ ids -> other ≠ id := by
          intro other hin heq
          rw [heq] at hin
          exact (List.nodup_cons.mp hnodup).1 hin
        have hkept : forall other, other ≠ id ->
            dir'.disk.contents other = o.dir.disk.contents other := by
          intro other hne
          rw [Disk.contents, Disk.contents, (hframe other hne).1]
        rw [hread]
        dsimp only
        rw [index_withDir]
        rcases ih (fun other hin =>
            hnewest other (List.mem_cons_of_mem id hin))
          (List.nodup_cons.mp hnodup).2 (o := { (Framed.entries 0 fs).foldl
            (indexEntry id) o with dir := dir' }) (fun other hin =>
              (hunhinted other (List.mem_cons_of_mem id hin)).congr
                (hframe other (hother other hin)).2) with
          ⟨e, hloop, hcorrupt, other, hin, hdamaged⟩ |
          ⟨o', hloop, hall, hsame⟩
        · refine Or.inl ⟨e, hloop, hcorrupt, other,
            List.mem_cons_of_mem id hin, ?_⟩
          rw [← hkept other (hother other hin)]
          exact hdamaged
        · refine Or.inr ⟨o', hloop, ?_, ?_⟩
          · intro other hin
            rcases List.mem_cons.mp hin with heq | hin'
            · rw [heq]
              exact ⟨fs, hcontents⟩
            · rw [← hkept other (hother other hin')]
              exact hall other hin'
          · intro other hout
            rw [List.mem_cons, not_or] at hout
            rw [(hsame other hout.2).1, (hsame other hout.2).2]
            exact ⟨hkept other hout.1, (hframe other hout.1).2⟩

/-!
# The last record of a key
-/

/-- Where the index says a record is. -/
def Framed.location (f : Framed) (id : FileId) (offset : Nat) : Location where
  fileId := id
  offset := offset
  len := UInt32.ofNat f.header.recordLen
  tstamp := f.header.tstamp

theorem lookup_index_of_ne (id : FileId) (es : List HintEntry) (o : Opening)
    {k : Bytes} (h : forall e, e ∈ es -> e.key ≠ k) :
    (es.foldl (indexEntry id) o).keydir.lookup k = o.keydir.lookup k := by
  induction es generalizing o with
  | nil => rfl
  | cons e es ih =>
      have hne : k ≠ e.key := (h e List.mem_cons_self).symm
      rw [List.foldl_cons, ih _ (fun e' he' =>
        h e' (List.mem_cons_of_mem e he'))]
      rw [keydir_indexEntry]
      split
      · exact AList.lookup_erase_ne hne
      · exact AList.lookup_insert_ne hne

theorem key_mem_of_entries {start : Nat} {fs : List Framed} {e : HintEntry}
    (h : e ∈ Framed.entries start fs) : exists f, f ∈ fs ∧ f.key = e.key := by
  induction fs generalizing start with
  | nil => cases h
  | cons f fs ih =>
      rw [Framed.entries] at h
      rcases List.mem_cons.mp h with heq | hin
      · exact ⟨f, List.mem_cons_self, by rw [heq]; rfl⟩
      · rcases ih hin with ⟨g, hg, hkey⟩
        exact ⟨g, List.mem_cons_of_mem f hg, hkey⟩

theorem lookup_index_last (id : FileId) (start : Nat) (earlier : List HintEntry)
    (fs done : List Framed) (f : Framed) (rest : List Framed) (o : Opening)
    (hfs : fs = done ++ f :: rest)
    (hlast : forall g, g ∈ rest -> g.key ≠ f.key) :
    ((earlier ++ Framed.entries start fs).foldl (indexEntry id)
      o).keydir.lookup f.key =
      if f.header.isTombstone then none
      else some (f.location id (start + (Framed.join done).length)) := by
  rw [hfs, Framed.entries_append, Framed.entries, List.foldl_append,
    List.foldl_append, List.foldl_cons, lookup_index_of_ne]
  · exact lookup_indexEntry id _ (f.entry (start + (Framed.join done).length))
  · intro e he heq
    rcases key_mem_of_entries he with ⟨g, hg, hkey⟩
    exact hlast g hg (hkey.trans heq)

/-!
# Damage to one record
-/

/-- A file of complete records, with the bytes of one that is not the last
replaced by others. -/
structure Disk.DamagedAt (disk : Disk) (id : FileId) (before : List Framed)
    (f : Framed) (damaged : Bytes) (after : List Framed) : Prop where
  contents : disk.contents id =
    Framed.join before ++ damaged ++ Framed.join after
  confined : damaged.length = f.bytes.length
  notLast : after ≠ []

/-- An opened store has some records: they are still in the newest file, they were
replayed, and the index has the last of each key. -/
structure Store.Keeps (s : Store) (id : FileId) (start : Nat)
    (fs : List Framed) : Prop where
  bytes : (s.dir.disk.contents id).drop start = Framed.join fs
  replayed : exists earlier, s.activeHints = earlier ++ Framed.entries start fs
  indexed : forall done f rest, fs = done ++ f :: rest ->
    (forall g, g ∈ rest -> g.key ≠ f.key) ->
    s.keydir.lookup f.key =
      if f.header.isTombstone then none
      else some (f.location id (start + (Framed.join done).length))

/-- The damage is reported, or the records behind it are kept. -/
def Store.NotSilent (opened : Except Error Store) (id : FileId) (start : Nat)
    (after : List Framed) : Prop :=
  (exists e, opened = Except.error e ∧ e.Corrupt) ∨
    exists s, opened = Except.ok s ∧ s.Keeps id start after

/-- Opening reads the older files and then the newest, and stops at damage in any
of the older ones. -/
theorem openWith_framed {dir : Dir} {opts : Options} {newest : FileId}
    (hlast : dir.disk.listDataFiles.getLast? = some newest)
    (hunhinted : forall id, Unhinted opts dir.disk id) {fs : List Framed}
    {rest : Bytes}
    (hcontents : dir.disk.contents newest = Framed.join fs ++ rest)
    (hrest : Unframed rest) :
    (exists e, Store.openWith dir opts = Except.error e ∧ e.Corrupt ∧
      exists id, id ∈ dir.disk.data ∧ id ≠ newest ∧
        ¬Whole (dir.disk.contents id)) ∨
    (exists s o, Store.openWith dir opts = Except.ok s ∧
      (forall id, id ∈ dir.disk.data -> id ≠ newest ->
        Whole (dir.disk.contents id)) ∧
      s.activeHints = Framed.entries 0 fs ∧
      s.keydir = ((Framed.entries 0 fs).foldl (indexEntry newest) o).keydir ∧
      (rest = [] ->
        s.dir.disk.contents newest = dir.disk.contents newest)) := by
  rcases removeLeftovers_spec dir with ⟨hdata, _, hkept, _⟩
  rcases List.getLast?_eq_some_iff.mp hlast with ⟨older, holder⟩
  have hnodup : dir.disk.listDataFiles.Nodup :=
    (List.perm_insertionSort _ _).nodup_iff.mpr dir.disk.data.keys_nodup
  have hmem : forall id, id ∈ dir.disk.data ↔ id ∈ older ∨ id = newest := by
    intro id
    rw [← mem_listDataFiles, holder, List.mem_append, List.mem_singleton]
  have hnewest : newest ∉ older := by
    intro hin
    rw [holder, List.nodup_append] at hnodup
    exact hnodup.2.2 newest hin newest List.mem_cons_self rfl
  have hcleared : forall id,
      (removeLeftovers dir dir.disk.listDataFiles).disk.contents id =
        dir.disk.contents id := by
    intro id
    rw [Disk.contents, Disk.contents, hdata]
  unfold Store.openWith
  dsimp only
  rw [hlast]
  generalize removeLeftovers dir dir.disk.listDataFiles = cleared at *
  have hunhinted' : forall id, id ∈ dir.disk.data ->
      Unhinted opts cleared.disk id :=
    fun id hid => (hunhinted id).congr (hkept id hid)
  rw [holder, openLoop_append]
  rcases @openLoop_older opts (some newest) older
    (fun id hin heq => hnewest (Option.some.inj heq ▸ hin))
    (holder ▸ hnodup).of_append_left { dir := cleared } (fun id hin =>
      hunhinted' id ((hmem id).mpr (Or.inl hin))) with
    ⟨e, hloop, hcorrupt, id, hin, hdamaged⟩ | ⟨o, hloop, hwhole, hsame⟩
  · rw [hloop]
    refine Or.inl ⟨e, rfl, hcorrupt, id, (hmem id).mpr (Or.inl hin), ?_, ?_⟩
    · intro heq
      rw [heq] at hin
      exact hnewest hin
    · rw [← hcleared]
      exact hdamaged
  · have hnewestAt := hsame newest hnewest
    have hcontents' : o.dir.disk.contents newest =
        Framed.join fs ++ rest := by
      rw [hnewestAt.1, ← hcontents]
      exact hcleared newest
    rw [hloop]
    rcases readEntries_framed (((hunhinted' newest
        ((hmem newest).mpr (Or.inr rfl)))).congr hnewestAt.2) hcontents' hrest
      true with ⟨_, hfalse, _⟩ | ⟨_, dir', hread, hkept'⟩
    · cases hfalse
    · right
      simp only [Except.bind, openLoop, beq_self_eq_true, hread, if_true]
      refine ⟨_, { o with dir := dir' }, rfl, ?_, rfl, rfl, ?_⟩
      · intro id hid hne
        rw [← hcleared]
        exact hwhole id (((hmem id).mp hid).resolve_right hne)
      · intro hnil
        rw [← hcleared, ← hnewestAt.1, ← hkept' hnil]
        show (((Framed.entries 0 fs).foldl (indexEntry newest)
          { o with dir := dir' }).dir.create newest).disk.contents newest = _
        rw [(dir_index newest _ _).1, Disk.contents, Dir.lookup_create, if_pos rfl, Disk.contents]
        cases dir'.disk.data.lookup newest <;> rfl

/-- Opening is not silent about damage to a record of the newest file that is not
its last, if the damaged bytes are records themselves or there is damage in
another file too, and only then. -/
theorem damaged_newest_iff {dir : Dir} {opts : Options} {newest : FileId}
    (hlast : dir.disk.listDataFiles.getLast? = some newest)
    (hunhinted : forall id, Unhinted opts dir.disk id)
    {before : List Framed} {f : Framed} {damaged : Bytes}
    {after : List Framed}
    (h : dir.disk.DamagedAt newest before f damaged after) :
    Store.NotSilent (Store.openWith dir opts) newest
        ((Framed.join before).length + f.bytes.length) after ↔
      Whole damaged ∨ exists id, id ∈ dir.disk.data ∧ id ≠ newest ∧
        ¬Whole (dir.disk.contents id) := by
  rcases exists_framed (dir.disk.contents newest) with
    ⟨fs, rest, hcontents, hrest⟩
  have hstart : (Framed.join before).length + f.bytes.length =
      (Framed.join before ++ damaged).length := by
    rw [List.length_append, h.confined]
  rw [hstart]
  rcases openWith_framed hlast hunhinted hcontents hrest with
    ⟨e, herror, hcorrupt, hdamaged⟩ |
    ⟨s, o, hok, hwhole, hactive, hkeydir, hsame⟩
  · constructor
    · intro _
      exact Or.inr hdamaged
    · intro _
      exact Or.inl ⟨e, herror, hcorrupt⟩
  · constructor
    · rintro (⟨e, herror, _⟩ | ⟨s', hok', hkeeps⟩)
      · rw [hok] at herror
        cases herror
      · left
        rw [hok, Except.ok.injEq] at hok'
        rw [← hok'] at hkeeps
        rcases hkeeps.replayed with ⟨earlier, hreplayed⟩
        rw [hactive] at hreplayed
        cases hafter : after with
        | nil => exact absurd hafter h.notLast
        | cons g more =>
            rw [hafter, Framed.entries] at hreplayed
            rcases Framed.split_of_entries hreplayed with
              ⟨fs₁, fs₂, hfs, hoffset⟩
            have hboth : Framed.join fs₁ ++ (Framed.join fs₂ ++ rest) =
                (Framed.join before ++ damaged) ++ Framed.join after := by
              rw [← h.contents, hcontents, hfs, Framed.join_append,
                List.append_assoc]
            have hlength : (Framed.join fs₁).length =
                (Framed.join before ++ damaged).length := by
              rw [Nat.zero_add] at hoffset
              exact hoffset.symm
            rcases Framed.join_cancel (List.append_inj hboth hlength).1 with
              ⟨ds, _, hds⟩
            exact ⟨ds, hds⟩
    · rintro (⟨ds, hds⟩ | ⟨id, hid, hne, hdamaged⟩)
      · right
        have hjoin : Framed.join fs ++ rest =
            Framed.join (before ++ ds ++ after) := by
          rw [← hcontents, h.contents, hds]
          simp
        rcases framed_unique hrest hjoin with ⟨hfs, hnil⟩
        have hentries : Framed.entries 0 fs =
            Framed.entries 0 (before ++ ds) ++
              Framed.entries (Framed.join before ++ damaged).length after := by
          rw [hfs, Framed.entries_append, Nat.zero_add, Framed.join_append,
            hds]
        refine ⟨s, hok, ⟨?_, ⟨_, hactive.trans hentries⟩, ?_⟩⟩
        · rw [hsame hnil, h.contents, List.drop_left]
        · intro done g more hmore hunique
          rw [hkeydir, hentries]
          exact lookup_index_last newest _ _ after done g more o hmore hunique
      · exact absurd (hwhole id hid hne) hdamaged

def Rec.framed (r : Rec) : Framed where
  header := r.header
  key := r.key
  value := r.payload
  keyLen := r.keyLen_toNat
  valueLen := r.valueLen_toNat
  verified := r.verify_header

theorem Rec.whole_bytes (r : Rec) : r.bytes = Framed.join [r.framed] := by
  rw [Framed.join_cons, Framed.join_nil, List.append_nil]
  rfl

def putOf (key value : UInt8) : Rec where
  key := [key]
  value := some [value]
  tstamp := 5
  nonempty := by simp
  short := by simp [headerLen]

def oneFile (bytes : Bytes) : Dir :=
  ((({} : Dir).create 1).writeAll 1 bytes).syncData 1

/-- Bytes that turn a record into another one: it is the other one that is read,
and the record behind it is kept. -/
theorem damaged_newest_iff_replaced :
    (oneFile ((putOf 97 2).bytes ++ (putOf 98 3).bytes)).disk.DamagedAt 1 []
        (putOf 97 1).framed (putOf 97 2).bytes [(putOf 98 3).framed] ∧
      Store.NotSilent
        (Store.openWith (oneFile ((putOf 97 2).bytes ++ (putOf 98 3).bytes)) {})
        1 (putOf 97 1).bytes.length [(putOf 98 3).framed] := by
  have hdamaged :
      (oneFile ((putOf 97 2).bytes ++ (putOf 98 3).bytes)).disk.DamagedAt 1 []
        (putOf 97 1).framed (putOf 97 2).bytes [(putOf 98 3).framed] :=
    ⟨by decide +kernel, by decide +kernel, by simp⟩
  refine ⟨hdamaged, ?_⟩
  have hkept := (@damaged_newest_iff _ {} 1 (by decide +kernel)
    (fun _ => Or.inr rfl) [] _ _ _ hdamaged).mpr
    (Or.inl ⟨[(putOf 97 2).framed], (putOf 97 2).whole_bytes⟩)
  rw [Framed.join_nil, List.length_nil, Nat.zero_add] at hkept
  exact hkept

def flippedBytes : Bytes :=
  (putOf 97 1).bytes.dropLast ++ [0]

/-- The first of two records with a bit of its value flipped: the file opens
without an error and without the second record, and is cut down to nothing. -/
theorem damaged_newest_silent :
    (oneFile (flippedBytes ++ (putOf 98 3).bytes)).disk.DamagedAt 1 []
        (putOf 97 1).framed flippedBytes [(putOf 98 3).framed] ∧
      (oneFile (flippedBytes ++ (putOf 98 3).bytes)).disk.hints = ∅ ∧
      (exists s, Store.openWith
          (oneFile (flippedBytes ++ (putOf 98 3).bytes)) {} = Except.ok s ∧
        s.containsKey [98] = false ∧ s.dir.disk.contents 1 = []) ∧
      ¬Store.NotSilent
        (Store.openWith (oneFile (flippedBytes ++ (putOf 98 3).bytes)) {}) 1
        ((Framed.join []).length + (putOf 97 1).framed.bytes.length)
        [(putOf 98 3).framed] := by
  have hopen : (Store.openWith
      (oneFile (flippedBytes ++ (putOf 98 3).bytes)) {}).toOption.any
        (fun s => decide (s.containsKey [98] = false ∧
          s.dir.disk.contents 1 = [] ∧ s.activeHints = [])) = true := by
    decide +kernel
  refine ⟨⟨by decide +kernel, by decide +kernel, by simp⟩, rfl, ?_⟩
  cases hopened : Store.openWith
      (oneFile (flippedBytes ++ (putOf 98 3).bytes)) {} with
  | error e =>
      rw [hopened] at hopen
      cases hopen
  | ok s =>
      rw [hopened] at hopen
      rcases of_decide_eq_true hopen with ⟨hget, hcontents, hactive⟩
      refine ⟨⟨s, rfl, hget, hcontents⟩, ?_⟩
      rintro (⟨e, herror, _⟩ | ⟨s', hok, hkeeps⟩)
      · cases herror
      · cases hok
        rcases hkeeps.replayed with ⟨earlier, hreplayed⟩
        rw [hactive] at hreplayed
        simp [Framed.entries] at hreplayed

end Minicask
