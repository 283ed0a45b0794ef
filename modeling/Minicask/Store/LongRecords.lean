import Minicask.Store.BackgroundRuns
import Minicask.Store.RecordLengths

/-!
# A record that is too long stays unread

What the index has of a record of 2^32 bytes or more is a part of it, and no writes
to other keys make it more.
-/

namespace Minicask
namespace Store

theorem decode_of_get {s : Store} (hok : s.Ok) {key value : Bytes}
    (h : s.get key = Except.ok (some value)) :
    exists loc, s.keydir.lookup key = some loc ∧
      loc.offset + loc.len.toNat <= (s.contents loc.fileId).length ∧
      decodeValue (slice (s.contents loc.fileId) loc.offset
        (loc.offset + loc.len.toNat)) loc = Except.ok value := by
  unfold Store.get at h
  cases hlookup : s.keydir.lookup key with
  | none =>
      rw [hlookup] at h
      cases h
  | some loc =>
      rw [hlookup] at h
      dsimp only at h
      have hsome : forall {e : Except Error Bytes},
          e.map some = Except.ok (some value) -> e = Except.ok value := by
        intro e he
        rcases Fallible.map_eq_ok he with ⟨_, hok, heq⟩
        cases heq
        exact hok
      exists loc
      constructor
      · rfl
      · split at h
        · next bytes hbuffered =>
            split at hbuffered
            · next hactive =>
                unfold LogWriter.buffered at hbuffered
                split at hbuffered
                · cases hbuffered
                · next hbehind =>
                    dsimp only at hbuffered
                    split at hbuffered
                    · next hfits =>
                        cases hbuffered
                        have hcontents : s.contents loc.fileId =
                            s.dir.disk.contents s.writer.fileId ++
                              s.writer.pending := by
                          rw [hactive, contents_active]
                          rfl
                        constructor
                        · rw [hcontents, List.length_append, hok.writer.written]
                          omega
                        · rw [hcontents, slice_append_of_ge _ (by
                            rw [hok.writer.written]
                            exact Nat.le_of_not_lt hbehind), hok.writer.written]
                          have hstop : loc.offset + loc.len.toNat -
                              s.writer.written =
                              loc.offset - s.writer.written + loc.len.toNat := by
                            omega
                          rw [hstop]
                          exact hsome h
                    · cases hbuffered
            · cases hbuffered
        · unfold readValue readRecord Dir.readAt at h
          split at h
          · next hread =>
              rw [handle_of_mem (hok.linked loc.fileId hread)] at h
              dsimp only at h
              split at h
              · next hfits =>
                  have hprefix : s.dir.disk.contents loc.fileId <+:
                      s.contents loc.fileId := by
                    unfold Store.contents LogWriter.contents
                    split
                    · next hactive =>
                        rw [hactive]
                        exact List.prefix_append _ _
                    · exact List.prefix_refl _
                  rcases hprefix with ⟨rest, hrest⟩
                  constructor
                  · rw [← hrest, List.length_append]
                    omega
                  · rw [← hrest, slice_append_of_le _ hfits]
                    exact hsome h
              · cases h
          · cases h

/-!
# What a write does, whatever its length
-/

theorem putWith_cases {s s' : Store} (hok : s.Ok) {key value : Bytes}
    {reach : Reach} {now later : UInt64}
    (h : s.putWith key value reach now later = Except.ok s') :
    exists bytes loc, encode key (some value) now = Except.ok bytes ∧
      (s.rollIfNeeded bytes.length).Advanced bytes s' ∧
      s'.keydir = s.keydir.insert key loc ∧
      loc.fileId = s'.writer.fileId ∧
      loc.offset = (s.rollIfNeeded bytes.length).writer.offset ∧
      loc.len = UInt32.ofNat bytes.length := by
  rcases putWith_eq_ok h with
    ⟨_, bytes, _, landed, writer, dir, hencode, rfl, happend, rfl⟩
  rcases rolled hok bytes.length with ⟨hrolled, _, hkeydir, _⟩
  have hlanded := (LogWriter.appended_append hrolled.writer bytes reach).1
  rw [← happend] at hlanded
  exists bytes, ⟨writer.fileId, landed.1, landed.2, later⟩
  constructor
  · exact hencode
  · constructor
    · exact advanced_append hrolled bytes reach (by rw [← happend])
        (by rw [← happend]) rfl
    · constructor
      · rw [← hkeydir]
      · exact ⟨rfl, congrArg Prod.fst hlanded, congrArg Prod.snd hlanded⟩

theorem deleteWith_cases {s s' : Store} (hok : s.Ok) {key : Bytes}
    {reach : Reach} {now later : UInt64} {was : Bool}
    (h : s.deleteWith key reach now later = Except.ok (s', was)) :
    s' = s ∨ exists bytes, (s.rollIfNeeded bytes.length).Advanced bytes s' ∧
      s'.keydir = s.keydir.erase key := by
  rcases deleteWith_eq_ok h with
    ⟨_, _, ⟨_, hsame⟩ | ⟨_, bytes, _, _, _, _, _, rfl, happend, rfl⟩⟩
  · exact Or.inl hsame
  · rcases rolled hok bytes.length with ⟨hrolled, _, hkeydir, _⟩
    right
    exists bytes
    constructor
    · exact advanced_append hrolled bytes reach (by rw [← happend])
        (by rw [← happend]) rfl
    · rw [← hkeydir]

theorem contents_rolled {s : Store} (hok : s.Ok) (incoming : Nat) {id : FileId}
    (hid : id <= s.writer.fileId) :
    (s.rollIfNeeded incoming).contents id = s.contents id := by
  rcases s.rollIfNeeded_cases incoming with hsame | hsealed
  · rw [hsame]
  · have hnext : s.writer.fileId < s.writer.fileId + 1 := Nat.lt_succ_self _
    have hne : id ≠ s.writer.fileId + 1 :=
      Nat.ne_of_lt (Nat.lt_succ_of_le hid)
    rw [hsealed, contents_of_ne _ (by rw [writer_sealInto]; exact hne),
      contents_sealInto hok hnext, if_neg hne]

/-- What the index has of a key is the length, kept in 32 bits, of a record that is
there. -/
structure Cut (s : Store) (key bytes : Bytes) : Prop where
  ok : s.Ok
  held : forall loc, s.keydir.lookup key = some loc ->
    loc.len = UInt32.ofNat bytes.length ∧ loc.fileId <= s.writer.fileId ∧
      exists before after, s.contents loc.fileId = before ++ bytes ++ after ∧
        before.length = loc.offset

namespace Cut

variable {s s' : Store} {key bytes : Bytes}

/-- A key whose record was cut, and that is not written again. -/
theorem advanced (h : s.Cut key bytes) {more : Bytes}
    (hadvanced : (s.rollIfNeeded more.length).Advanced more s')
    (hkeydir : forall loc, s'.keydir.lookup key = some loc ->
      s.keydir.lookup key = some loc) : s'.Cut key bytes := by
  have hnewer : s.writer.fileId <= s'.writer.fileId := by
    rw [hadvanced.appended.fileId]
    exact (later_rollIfNeeded h.ok more.length).newer
  constructor
  · exact hadvanced.ok (rolled h.ok more.length).1
  · intro loc hlookup
    rcases h.held loc (hkeydir loc hlookup) with
      ⟨hlen, hold, before, after, hsplit, hbefore⟩
    constructor
    · exact hlen
    · constructor
      · exact Nat.le_trans hold hnewer
      · rw [hadvanced.contents, contents_rolled h.ok _ hold, hsplit]
        exact ⟨before, _, List.append_assoc _ _ _, hbefore⟩

theorem putWith (h : s.Cut key bytes) {other value : Bytes} (hne : key ≠ other)
    {reach : Reach} {now later : UInt64}
    (hput : s.putWith other value reach now later = Except.ok s') :
    s'.Cut key bytes := by
  rcases putWith_cases h.ok hput with ⟨more, loc, _, hadvanced, hkeydir, _⟩
  apply h.advanced hadvanced
  intro loc' hlookup
  rw [hkeydir, AList.lookup_insert_ne hne] at hlookup
  exact hlookup

theorem deleteWith (h : s.Cut key bytes) {other : Bytes} {reach : Reach}
    {now later : UInt64} {was : Bool}
    (hdelete : s.deleteWith other reach now later = Except.ok (s', was)) :
    s'.Cut key bytes := by
  rcases deleteWith_cases h.ok hdelete with rfl | ⟨more, hadvanced, hkeydir⟩
  · exact h
  · apply h.advanced hadvanced
    intro loc hlookup
    rw [hkeydir] at hlookup
    exact lookup_of_erase hlookup

theorem sync (h : s.Cut key bytes) : s.sync.Cut key bytes := by
  have hadvanced := advanced_sync h.ok
  constructor
  · exact hadvanced.ok h.ok
  · intro loc hlookup
    have hfileId : s.sync.writer.fileId = s.writer.fileId :=
      hadvanced.appended.fileId
    rw [hadvanced.contents, ite_self, List.append_nil, hfileId]
    exact h.held loc hlookup

theorem get_ne (h : s.Cut key bytes) {value : Option Bytes} {now : UInt64}
    (hencode : encode key value now = Except.ok bytes)
    (hlong : ¬ bytes.length < 2 ^ 32) (found : Bytes) :
    s.get key ≠ Except.ok (some found) := by
  intro hget
  rcases decode_of_get h.ok hget with ⟨loc, hlookup, _, hdecode⟩
  rcases h.held loc hlookup with ⟨hlen, _, before, after, hsplit, hbefore⟩
  rcases framed_of_encode hencode with ⟨f, hf, _, _⟩
  have hle : loc.len.toNat <= bytes.length := by
    rw [hlen, UInt32.toNat_ofNat']
    exact Nat.mod_le _ _
  rw [hsplit, slice_append_of_le _ (by
    rw [List.length_append, hbefore]
    omega), slice_of_append hbefore, ← hf] at hdecode
  have hwhole := decodeValue_take (by rw [hf]; exact hle) hdecode
  rw [hf, hlen] at hwhole
  exact hlong ((toNat_ofNat_iff bytes.length).mp hwhole)

end Cut

/-- A put leaves the index with what its 32 bits can say. -/
theorem cut_of_putWith {s s' : Store} (hok : s.Ok) {key value : Bytes}
    {reach : Reach} {now later : UInt64}
    (h : s.putWith key value reach now later = Except.ok s') :
    exists bytes, encode key (some value) now = Except.ok bytes ∧
      s'.Cut key bytes := by
  rcases putWith_cases hok h with
    ⟨bytes, loc, hencode, hadvanced, hkeydir, hfileId, hoffset, hlen⟩
  rcases rolled hok bytes.length with ⟨hrolled, _⟩
  exists bytes
  constructor
  · exact hencode
  · constructor
    · exact hadvanced.ok hrolled
    · intro loc' hlookup
      rw [hkeydir, AList.lookup_insert, Option.some.injEq] at hlookup
      subst hlookup
      constructor
      · exact hlen
      · constructor
        · exact Nat.le_of_eq hfileId
        · exists (s.rollIfNeeded bytes.length).writer.contents
            (s.rollIfNeeded bytes.length).dir, []
          constructor
          · rw [hfileId, contents_active, List.append_nil]
            exact hadvanced.appended.contents
          · rw [hoffset]
            exact hrolled.writer.length_contents

end Store
end Minicask
