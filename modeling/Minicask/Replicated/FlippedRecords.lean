import Minicask.Raft.FlippedBits
import Minicask.Replicated.Basic
import Minicask.Store.Map

/-!
# A flipped bit in a record

A record lies in a data file or, until it is handed to the kernel, in the writer's
buffer; a replicated command is a record too.  One flipped bit leaves it no longer
than it was, so a reader is given as many bytes as before.  Whatever it makes of
them, the checksum is wrong.
-/

namespace Minicask

open Raft (flipBit)

@[simp] theorem length_flipBit (bytes : Bytes) (pos : Nat) (bit : Fin 8) :
    (flipBit bytes pos bit).length = bytes.length := by
  simp [flipBit]

theorem flipBit_append_left {before after : Bytes} {pos : Nat}
    (h : pos < before.length) (bit : Fin 8) :
    flipBit (before ++ after) pos bit = flipBit before pos bit ++ after := by
  unfold flipBit
  rw [List.modify_eq_set, List.modify_eq_set, List.set_append_left _ _ h,
    List.getElem?_append_left h]

theorem flipBit_append_right (before after : Bytes) (pos : Nat) (bit : Fin 8) :
    flipBit (before ++ after) (before.length + pos) bit =
      before ++ flipBit after pos bit := by
  unfold flipBit
  rw [List.modify_eq_set, List.modify_eq_set,
    List.set_append_right _ _ (Nat.le_add_right _ _),
    List.getElem?_append_right (Nat.le_add_right _ _), Nat.add_sub_cancel_left]

theorem flipBit_changed {bytes : Bytes} {pos : Nat} (h : pos < bytes.length)
    (bit : Fin 8) :
    exists before after a b, b ≠ a ∧ bytes = before ++ a :: after ∧
      flipBit bytes pos bit = before ++ b :: after := by
  have hsplit : bytes = bytes.take pos ++ bytes[pos] :: bytes.drop (pos + 1) := by
    simp
  have hlength : (bytes.take pos).length = pos := by
    rw [List.length_take]
    omega
  exists bytes.take pos, bytes.drop (pos + 1), bytes[pos],
    bytes[pos] ^^^ (1 <<< UInt8.ofNat bit)
  constructor
  · exact Raft.flip_ne _ bit
  · constructor
    · exact hsplit
    · have hflip := Raft.flipBit_append (bytes.take pos)
        (bytes.drop (pos + 1)) bytes[pos] bit
      rw [hlength, ← hsplit] at hflip
      exact hflip

/-!
# What a reader makes of it
-/

/-- No key and value that a reader takes from a flipped record pass the check of
the header it takes from it. -/
theorem flipped_verify {key : Bytes} {value : Option Bytes} {tstamp : UInt64}
    {bytes : Bytes} (h : encode key value tstamp = Except.ok bytes) {pos : Nat}
    (hpos : pos < bytes.length) (bit : Fin 8) (n : Nat) :
    (Header.decode ((flipBit bytes pos bit).take headerLen)).verify
      (((flipBit bytes pos bit).drop headerLen).take n)
      (((flipBit bytes pos bit).drop headerLen).drop n) = false := by
  rcases encode_checked h with ⟨hlen, hchecked⟩
  have hlong : headerLen <= bytes.length := by
    rw [← hlen]
    unfold Header.recordLen
    omega
  rcases flipBit_changed hpos bit with ⟨before, after, a, b, hne, hbytes, hflip⟩
  have hunchecked : ¬ Checked (flipBit bytes pos bit) := by
    rw [hflip]
    rw [hbytes] at hchecked hlong
    unfold headerLen at hlong
    exact changed_unchecked hne (by omega) hchecked
  apply eq_false_of_ne_true
  intro hverify
  exact hunchecked ((verify_eq_true_iff (by simpa using hlong)
    (List.take_append_drop n _)).mp hverify)

theorem decodeValue_flipped {key : Bytes} {value : Option Bytes}
    {tstamp : UInt64} {bytes : Bytes}
    (h : encode key value tstamp = Except.ok bytes) {pos : Nat}
    (hpos : pos < bytes.length) (bit : Fin 8) (loc : Location) :
    exists detail, decodeValue (flipBit bytes pos bit) loc =
      Except.error (Error.corrupt loc.fileId loc.offset detail) := by
  unfold decodeValue
  dsimp only
  rw [flipped_verify h hpos bit]
  split
  · exact ⟨_, rfl⟩
  · split <;> exact ⟨_, rfl⟩

/-!
# A flipped bit in the store
-/

def File.flip (file : File) (pos : Nat) (bit : Fin 8) : File where
  bytes := flipBit file.bytes pos bit
  synced := file.synced
  synced_le := by
    rw [length_flipBit]
    exact file.synced_le

namespace Store

def flip (s : Store) (loc : Location) (pos : Nat) (bit : Fin 8) : Store :=
  if loc.fileId = s.writer.fileId ∧ s.writer.written <= loc.offset then
    { s with
      writer := { s.writer with
        pending := flipBit s.writer.pending
          (loc.offset - s.writer.written + pos) bit } }
  else
    { s with
      dir := s.dir.modify loc.fileId
        (fun file => file.flip (loc.offset + pos) bit) }

/-- What is flipped is that bit, and nothing else of the store. -/
structure Flipped (s : Store) (loc : Location) (pos : Nat) (bit : Fin 8)
    (s' : Store) : Prop where
  contents : s'.contents loc.fileId =
    flipBit (s.contents loc.fileId) (loc.offset + pos) bit
  fileId : s'.writer.fileId = s.writer.fileId
  written : s'.writer.written = s.writer.written
  keydir : s'.keydir = s.keydir
  readers : s'.readers = s.readers
  ok : s'.Ok

theorem flip_flipped {s : Store} (hok : s.Ok) {loc : Location} {r : Rec}
    (hholds : s.Holds loc r) {pos : Nat} (hpos : pos < r.bytes.length)
    (bit : Fin 8) : s.Flipped loc pos bit (s.flip loc pos bit) := by
  unfold flip
  by_cases hbuffer : loc.fileId = s.writer.fileId ∧
      s.writer.written <= loc.offset
  · rw [if_pos hbuffer]
    rcases hbuffer with ⟨hactive, hbehind⟩
    have hcontents : s.contents loc.fileId =
        s.dir.disk.contents s.writer.fileId ++ s.writer.pending := by
      rw [hactive, contents_active]
      rfl
    constructor
    · have hoffset : loc.offset + pos =
          (s.dir.disk.contents s.writer.fileId).length +
            (loc.offset - s.writer.written + pos) := by
        rw [hok.writer.written]
        omega
      rw [hcontents, hoffset, flipBit_append_right, hactive, contents_active]
      rfl
    · rfl
    · rfl
    · rfl
    · rfl
    · constructor
      · constructor
        · exact hok.writer.linked
        · exact hok.writer.written
        · rw [length_flipBit]
          exact hok.writer.offset
      · exact hok.active
      · exact hok.linked
      · exact hok.newest
  · rw [if_neg hbuffer]
    have hlinked := hok.linked loc.fileId hholds.readable
    have hframe : Dir.SameBut loc.fileId s.dir (s.dir.modify loc.fileId
        (fun file => file.flip (loc.offset + pos) bit)) :=
      Dir.modify_sameBut s.dir loc.fileId (fun _ => Nat.le_refl _)
    have hfile : (s.dir.modify loc.fileId
        (fun file => file.flip (loc.offset + pos) bit)).disk.contents
          loc.fileId =
        flipBit (s.dir.disk.contents loc.fileId) (loc.offset + pos) bit := by
      rcases Dir.contents_modify
        (fun file => file.flip (loc.offset + pos) bit) hlinked with
        ⟨file, hlookup, heq⟩
      rw [heq, Disk.contents, hlookup]
      rfl
    constructor
    · by_cases hactive : loc.fileId = s.writer.fileId
      · have hbefore : loc.offset + r.bytes.length <= s.writer.written := by
          rcases hholds.whole hactive with hwhole | hbehind
          · exact hwhole
          · exact absurd ⟨hactive, hbehind⟩ hbuffer
        have hcontents : s.contents loc.fileId =
            s.dir.disk.contents loc.fileId ++ s.writer.pending := by
          rw [hactive, contents_active]
          rfl
        rw [hcontents, flipBit_append_left, ← hfile]
        · unfold contents LogWriter.contents
          rw [if_pos hactive, hactive]
        · rw [hactive, hok.writer.written]
          omega
      · rw [contents_of_ne s hactive, ← hfile]
        exact contents_of_ne _ hactive
    · rfl
    · rfl
    · rfl
    · rfl
    · constructor
      · constructor
        · exact (hframe.mem_iff hlinked _).mpr hok.writer.linked
        · show ((s.dir.modify loc.fileId _).disk.contents
            s.writer.fileId).length = s.writer.written
          rw [← hok.writer.written]
          by_cases hactive : s.writer.fileId = loc.fileId
          · rw [hactive, hfile, length_flipBit]
          · rw [hframe.contents hactive]
        · exact hok.writer.offset
      · exact hok.active
      · intro id hid
        exact (hframe.mem_iff hlinked id).mpr (hok.linked id hid)
      · intro id hid
        exact hok.newest id ((hframe.mem_iff hlinked id).mp hid)

theorem get_flip {s : Store} (hok : s.Ok) {key : Bytes} {loc : Location}
    {r : Rec} (hlookup : s.keydir.lookup key = some loc)
    (hholds : s.Holds loc r) {pos : Nat} (hpos : pos < r.bytes.length)
    (bit : Fin 8) :
    (s.flip loc pos bit).get key =
      (decodeValue (flipBit r.bytes pos bit) loc).map some := by
  have hflipped := flip_flipped hok hholds hpos bit
  rcases hholds.located with ⟨before, after, hsplit, hoffset⟩
  have hlen : loc.len.toNat = r.bytes.length := by
    rw [hholds.len, r.toNat_length_bytes]
  have hcontents : (s.flip loc pos bit).contents loc.fileId =
      before ++ flipBit r.bytes pos bit ++ after := by
    rw [hflipped.contents, hsplit, List.append_assoc, ← hoffset,
      flipBit_append_right, flipBit_append_left hpos, List.append_assoc]
  have hslice : slice (before ++ flipBit r.bytes pos bit ++ after) loc.offset
      (loc.offset + loc.len.toNat) = flipBit r.bytes pos bit :=
    slice_append before _ after hoffset (by
      rw [hlen, length_flipBit])
  rw [get_eq_decode hflipped.ok (by rw [hflipped.keydir]; exact hlookup)
    (by rw [hflipped.readers]; exact hholds.readable), hcontents, hslice]
  · rw [hcontents, List.length_append, List.length_append, length_flipBit, hlen,
      hoffset]
    exact Nat.le_add_right _ _
  · rw [hflipped.fileId, hflipped.written, hlen]
    exact hholds.whole

end Store

namespace Replicated

theorem Op.decode_flipped {op : Op} {now : UInt64} {bytes : Bytes}
    (h : op.encode now = Except.ok bytes) {pos : Nat}
    (hpos : pos < bytes.length) (bit : Fin 8) :
    exists detail, Op.decode (flipBit bytes pos bit) =
      Except.error (Error.corrupt 0 0 detail) := by
  have hverify : forall n,
      (Header.decode ((flipBit bytes pos bit).take headerLen)).verify
        (((flipBit bytes pos bit).drop headerLen).take n)
        (((flipBit bytes pos bit).drop headerLen).drop n) = false := by
    cases op with
    | put key value => exact flipped_verify h hpos bit
    | delete key => exact flipped_verify h hpos bit
  unfold Op.decode
  dsimp only
  rw [hverify]
  split
  · exact ⟨_, rfl⟩
  · split <;> exact ⟨_, rfl⟩

/-- A flipped bit of a record, at its place in the store or in a replicated
command, is reported. -/
theorem flipped_record_corrupt {s : Store} (hok : s.Ok) {key : Bytes}
    {loc : Location} (hlookup : s.keydir.lookup key = some loc) {r : Rec}
    (hholds : s.Holds loc r) {op : Op} {now : UInt64} {command : Bytes}
    (hencode : op.encode now = Except.ok command) (bit : Fin 8) :
    (forall pos, pos < r.bytes.length ->
      exists detail, (s.flip loc pos bit).get key =
        Except.error (Error.corrupt loc.fileId loc.offset detail)) ∧
    (forall pos, pos < command.length ->
      exists detail, Op.decode (flipBit command pos bit) =
        Except.error (Error.corrupt 0 0 detail)) := by
  constructor
  · intro pos hpos
    rcases decodeValue_flipped (encode_rec r) hpos bit loc with
      ⟨detail, hdecode⟩
    exists detail
    rw [Store.get_flip hok hlookup hholds hpos, hdecode]
    rfl
  · intro pos hpos
    exact Op.decode_flipped hencode hpos bit

/-- A bit of the key's first byte, in the buffer and in a command. -/
theorem flipped_record_corrupt_key :
    exists (opened s : Store) (loc : Location) (command : Bytes),
      Store.openWith {} {} = Except.ok opened ∧
      opened.putWith [7] [1, 2] Reach.buffer 5 6 = Except.ok s ∧
      s.get [7] = Except.ok (some [1, 2]) ∧
      s.keydir.lookup [7] = some loc ∧
      (exists detail, (s.flip loc 21 3).get [7] =
        Except.error (Error.corrupt loc.fileId loc.offset detail)) ∧
      (Op.put [7] [1, 2]).encode 5 = Except.ok command ∧
      (exists detail, Op.decode (flipBit command 21 3) =
        Except.error (Error.corrupt 0 0 detail)) := by
  rcases Store.serves_open {} with
    ⟨opened, hopen, hopened, hempty, _, hrestoring, _⟩
  rcases Store.putWith_rec hopened hrestoring
    ⟨[7], some [1, 2], 5, by decide, by decide⟩ rfl Reach.buffer 6 with
    ⟨s, hput, hwrote, hindexes⟩
  have hok := hwrote.ok hopened
  have hmap := hindexes _ hempty
  have hget := Store.get_eq hok hmap [7]
  cases hlookup : s.keydir.lookup [7] with
  | none => cases (hmap.live [7]).mp hlookup
  | some loc =>
      rcases hmap.held [7] loc hlookup with ⟨r, _, hvalue, hholds⟩
      have hpos : 21 < r.bytes.length := by
        have hpayload := r.value_eq_some hvalue
        rw [r.length_bytes, hpayload]
        show 21 < 21 + r.key.length + 2
        omega
      have hencode : exists command,
          (Op.put [7] [1, 2]).encode 5 = Except.ok command ∧
          21 < command.length := ⟨_, rfl, by decide⟩
      rcases hencode with ⟨command, hencode, hlong⟩
      rcases flipped_record_corrupt hok hlookup hholds hencode 3 with
        ⟨hrecord, hcommand⟩
      exact ⟨opened, s, loc, command, hopen, hput, hget, hlookup,
        hrecord 21 hpos, hencode, hcommand 21 hlong⟩

end Replicated
end Minicask
