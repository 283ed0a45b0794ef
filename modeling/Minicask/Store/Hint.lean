import Minicask.Store.Log

/-!
# Hint files

`hint.rs`: what the index needs from each record of a prefix of a data file,
under a checksum.  Anything wrong with a hint is a reason to ignore it.
-/

namespace Minicask

/-- What the index needs from one record. -/
structure HintEntry where
  key : Bytes
  offset : Nat
  len : UInt32
  tstamp : UInt64
  tombstone : Bool
deriving Repr, DecidableEq

namespace Hint

/-- The checksum and the covered length. -/
def fixedLen : Nat := 4 + 8

def entryFixed : Nat := 8 + 4 + 8 + 1 + 4

def encodeEntry (e : HintEntry) : Bytes :=
  leBytes 8 e.offset ++ leBytes 4 e.len.toNat ++ leBytes 8 e.tstamp.toNat ++
    [if e.tombstone then flagTombstone else 0] ++ leBytes 4 e.key.length ++
    e.key

def encode (dataLen : Nat) (entries : List HintEntry) : Bytes :=
  let body := leBytes 8 dataLen ++ entries.flatMap encodeEntry
  leBytes 4 (Crc.crc32Parts [body]).toNat ++ body

def write (dir : Dir) (id : FileId) (dataLen : Nat)
    (entries : List HintEntry) : Dir :=
  dir.writeHint id (encode dataLen entries)

/-- The loop of `load`: the entries in what is left of the file, which have to
tile the data file from `covered` on.  Each turn takes at least one byte, so the
length of the file is turns enough. -/
def loadLoop : Nat -> Bytes -> Nat -> Option (List HintEntry × Nat)
  | 0, _, _ => none
  | turns + 1, rest, covered =>
      if rest.isEmpty then some ([], covered)
      else if rest.length < entryFixed then none
      else
        let offset := fromLe (slice rest 0 8)
        let len := UInt32.ofNat (fromLe (slice rest 8 12))
        let tstamp := UInt64.ofNat (fromLe (slice rest 12 20))
        let flags := rest.getD 20 0
        let keyLen := fromLe (slice rest 21 25)
        let rest := rest.drop entryFixed
        if rest.length < keyLen then none
        else if offset ≠ covered then none
        else if offset + len.toNat >= 2 ^ 64 then none
        else
          (loadLoop turns (rest.drop keyLen) (offset + len.toNat)).map
            (fun (entries, covered) =>
              ({ key := rest.take keyLen
                 offset := offset
                 len := len
                 tstamp := tstamp
                 tombstone := flags &&& flagTombstone != 0 } :: entries,
                covered))

/-- Read a data file's hint, if it has one worth believing, given how long the
data file is now: the entries and how much of the file they cover. -/
def load (disk : Disk) (id : FileId) (fileLen : Nat) :
    Option (List HintEntry × Nat) :=
  match disk.hints.lookup id with
  | none => none
  | some bytes =>
      if bytes.length < fixedLen then none
      else if Crc.crc32Parts [bytes.drop 4] ≠
          UInt32.ofNat (fromLe (slice bytes 0 4)) then none
      else
        let dataLen := fromLe (slice bytes 4 12)
        if dataLen > fileLen then none
        else
          match loadLoop bytes.length (bytes.drop fixedLen) 0 with
          | none => none
          | some (entries, covered) =>
              if covered = dataLen then some (entries, dataLen) else none

/-!
# Hints that tell the truth
-/

/-- Entries that describe some records laid out from an offset on.  Whatever the
clock said is left open. -/
inductive Describes : Nat -> List HintEntry -> List Rec -> Prop where
  | nil (start : Nat) : Describes start [] []
  | cons {start : Nat} {e : HintEntry} {r : Rec} {es : List HintEntry}
      {rs : List Rec} :
      e.key = r.key ->
      e.offset = start ->
      e.len = UInt32.ofNat r.bytes.length ->
      e.tombstone = r.value.isNone ->
      Describes (start + r.bytes.length) es rs ->
      Describes start (e :: es) (r :: rs)

theorem Describes.append {start : Nat} {es more : List HintEntry}
    {rs added : List Rec} (h : Describes start es rs)
    (hmore : Describes (start + (Rec.join rs).length) more added) :
    Describes start (es ++ more) (rs ++ added) := by
  induction h with
  | nil start => simpa using hmore
  | cons hkey hoffset hlen htombstone _ ih =>
      refine Describes.cons hkey hoffset hlen htombstone (ih ?_)
      simpa [Nat.add_assoc] using hmore

theorem length_encodeEntry (e : HintEntry) :
    (encodeEntry e).length = entryFixed + e.key.length := by
  simp [encodeEntry, entryFixed]
  omega

theorem drop_encodeEntry (e : HintEntry) (rest : Bytes) :
    (encodeEntry e ++ rest).drop entryFixed = e.key ++ rest := by
  simp [encodeEntry, entryFixed, List.drop_append]

theorem loadLoop_cons {turns covered : Nat} {e : HintEntry} {rest : Bytes}
    (hkey : e.key.length < 2 ^ 32) (hoffset : e.offset = covered)
    (hcovered : covered < 2 ^ 64) :
    loadLoop (turns + 1) (encodeEntry e ++ rest) covered =
      if covered + e.len.toNat >= 2 ^ 64 then none
      else (loadLoop turns rest (covered + e.len.toNat)).map
        (fun found => (e :: found.1, found.2)) := by
  have h0 : slice (encodeEntry e ++ rest) 0 8 = leBytes 8 e.offset := by
    simp [slice, encodeEntry]
  have h1 : slice (encodeEntry e ++ rest) 8 12 = leBytes 4 e.len.toNat := by
    simp [slice, encodeEntry]
  have h2 : slice (encodeEntry e ++ rest) 12 20 =
      leBytes 8 e.tstamp.toNat := by
    simp [slice, encodeEntry, List.drop_append]
  have h3 : (encodeEntry e ++ rest).getD 20 0 =
      if e.tombstone then flagTombstone else 0 := by
    have hsplit : encodeEntry e ++ rest = (leBytes 8 e.offset ++
        leBytes 4 e.len.toNat ++ leBytes 8 e.tstamp.toNat) ++
        ((if e.tombstone then flagTombstone else 0) ::
          (leBytes 4 e.key.length ++ e.key ++ rest)) := by
      simp [encodeEntry]
    rw [hsplit, List.getD, List.getElem?_append_right (by simp)]
    simp
  have h4 : slice (encodeEntry e ++ rest) 21 25 = leBytes 4 e.key.length := by
    simp [slice, encodeEntry, List.drop_append]
  have hkeyLen : fromLe (leBytes 4 e.key.length) = e.key.length :=
    fromLe_leBytes_of_lt (by simpa using hkey)
  have hoff : fromLe (leBytes 8 e.offset) = covered := by
    rw [hoffset]
    exact fromLe_leBytes_of_lt (by simpa using hcovered)
  have hlen : UInt32.ofNat (fromLe (leBytes 4 e.len.toNat)) = e.len := by
    simp [fromLe_leBytes]
  have htstamp : UInt64.ofNat (fromLe (leBytes 8 e.tstamp.toNat)) =
      e.tstamp := by
    simp [fromLe_leBytes]
  have htombstone : ((if e.tombstone then flagTombstone else 0) &&&
      flagTombstone != 0) = e.tombstone := by
    cases e.tombstone <;> decide
  have hentry :
      { key := e.key
        offset := covered
        len := e.len
        tstamp := e.tstamp
        tombstone := e.tombstone : HintEntry } = e := by
    rw [← hoffset]
  have hlength : (encodeEntry e ++ rest).length =
      entryFixed + e.key.length + rest.length := by
    rw [List.length_append, length_encodeEntry]
  rw [loadLoop, if_neg, if_neg]
  · simp only [h0, h1, h2, h3, h4, hkeyLen, hoff, hlen, htstamp, htombstone,
      drop_encodeEntry, List.take_left, List.drop_left, hentry]
    rw [if_neg, if_neg (by simp)]
    simp
  · rw [hlength]
    omega
  · intro hempty
    rw [List.isEmpty_iff] at hempty
    rw [hempty] at hlength
    simp [entryFixed] at hlength
    omega

/-- What was written is what is read, as far as the offsets fit their field. -/
theorem loadLoop_encode {covered : Nat} {es : List HintEntry} {rs : List Rec}
    (h : Describes covered es rs) (hcovered : covered < 2 ^ 64) {turns : Nat}
    (hturns : es.length < turns) :
    loadLoop turns (es.flatMap encodeEntry) covered =
      if covered + (Rec.join rs).length < 2 ^ 64 then
        some (es, covered + (Rec.join rs).length)
      else none := by
  induction h generalizing turns with
  | nil start =>
      cases turns with
      | zero => simp at hturns
      | succ turns =>
          have hfits : start + (Rec.join []).length < 2 ^ 64 := hcovered
          rw [if_pos hfits]
          rfl
  | @cons start e r es rs hkey hoffset hlen htombstone hrest ih =>
      cases turns with
      | zero => simp at hturns
      | succ turns =>
          have hshort : e.key.length < 2 ^ 32 := by
            have := r.short
            rw [hkey]
            omega
          have hlenNat : e.len.toNat = r.bytes.length := by
            rw [hlen]
            exact r.toNat_length_bytes
          rw [List.flatMap_cons, loadLoop_cons hshort hoffset hcovered, hlenNat,
            Rec.join_cons, List.length_append, ← Nat.add_assoc]
          by_cases hover : start + r.bytes.length >= 2 ^ 64
          · rw [if_pos hover, if_neg (by omega)]
          · rw [if_neg hover, ih (by omega) (by simpa using hturns)]
            split <;> rfl

theorem length_flatMap_encodeEntry (es : List HintEntry) :
    es.length <= (es.flatMap encodeEntry).length := by
  induction es with
  | nil => simp
  | cons e es ih =>
      rw [List.flatMap_cons, List.length_append, length_encodeEntry,
        List.length_cons, entryFixed]
      omega

/-- Loading a hint gives back what was written, unless the file is too long for
its offsets, when it is ignored. -/
theorem load_encode {disk : Disk} {id : FileId} {fileLen : Nat}
    {es : List HintEntry} {rs : List Rec}
    (hhint : disk.hints.lookup id =
      some (encode (Rec.join rs).length es))
    (h : Describes 0 es rs) (hle : (Rec.join rs).length <= fileLen) :
    load disk id fileLen =
      if (Rec.join rs).length < 2 ^ 64 then some (es, (Rec.join rs).length)
      else none := by
  have hlength : (encode (Rec.join rs).length es).length =
      fixedLen + (es.flatMap encodeEntry).length := by
    simp [encode, fixedLen]
    omega
  have hcrc : slice (encode (Rec.join rs).length es) 0 4 =
      leBytes 4 (Crc.crc32Parts
        [leBytes 8 (Rec.join rs).length ++ es.flatMap encodeEntry]).toNat := by
    simp [slice, encode]
  have hbody : (encode (Rec.join rs).length es).drop 4 =
      leBytes 8 (Rec.join rs).length ++ es.flatMap encodeEntry := by
    simp [encode]
  have hdataLen : slice (encode (Rec.join rs).length es) 4 12 =
      leBytes 8 (Rec.join rs).length := by
    simp [slice, hbody]
  have hentries : (encode (Rec.join rs).length es).drop fixedLen =
      es.flatMap encodeEntry := by
    simp [encode, fixedLen, List.drop_append]
  have hturns : es.length < (encode (Rec.join rs).length es).length := by
    have := length_flatMap_encodeEntry es
    rw [hlength, fixedLen]
    omega
  have hmod : (Rec.join rs).length % 256 ^ 8 <= (Rec.join rs).length :=
    Nat.mod_le _ _
  unfold load
  rw [hhint]
  simp only [hcrc, hbody, hdataLen, hentries, fromLe_leBytes,
    loadLoop_encode h (by decide) hturns, Nat.zero_add]
  rw [if_neg (by omega), if_neg (by simp), if_neg (by omega)]
  by_cases hfits : (Rec.join rs).length < 2 ^ 64
  · simp only [if_pos hfits]
    rw [Nat.mod_eq_of_lt (by simpa using hfits), if_pos rfl]
  · simp only [if_neg hfits]

end Hint

end Minicask
