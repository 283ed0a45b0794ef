import Minicask.Raft.FlippedBits
import Minicask.Raft.WireStreams

/-!
# A flipped bit in a frame

The checksum of a frame is that of its body, and the lengths inside of a body leave
no room for a part of it to be a body of its own.  So a bit flipped outside of the
sender is noticed, and one flipped in the sender is not.
-/

namespace Minicask
namespace Raft
namespace Wire

open Crc
open Reader

/-!
# Reading less than a body
-/

theorem bytes_local (len : Nat) : Local (bytes len) := by
  intro input slice rest h more
  obtain ⟨rfl, hlength⟩ := takeBytes_some h
  rw [List.append_assoc]
  exact takeBytes_append hlength (rest ++ more)

theorem u8_local : Local u8 :=
  (bytes_local 1).bind (fun _ => Local.pure _)

theorem bool_local : Local bool :=
  u8_local.bind (fun _ => (Local.pure false).ite ((Local.pure true).ite Local.fail))

theorem u64_local : Local u64 :=
  (bytes_local 8).bind (fun _ => Local.pure _)

theorem membersOf_local (len : Nat) : Local (membersOf len) :=
  (bytes_local len).bind (fun _ => Local.ofOption _)

theorem members_local : Local members :=
  bool_local.bind (fun _ =>
    (u64_local.bind (fun len =>
      (membersOf_local len).bind (fun _ => Local.pure _))).ite (Local.pure none))

theorem command_local (kind : UInt8) (len : Nat) : Local (command kind len) :=
  (Local.pure Command.noop).ite
    (((bytes_local len).bind (fun _ => Local.pure _)).ite
      (((membersOf_local len).bind (fun _ => Local.pure _)).ite Local.fail))

theorem entry_local : Local entry :=
  u64_local.bind (fun _ => u64_local.bind (fun _ => u8_local.bind (fun kind =>
    u64_local.bind (fun len => (command_local kind len).bind
      (fun _ => Local.pure _)))))

theorem entries_local (count : Nat) : Local (entries count) := by
  induction count with
  | zero => exact Local.pure []
  | succ count ih =>
      exact entry_local.bind (fun _ => ih.bind (fun _ => Local.pure _))

theorem appendEntries_local (room : Nat) : Local (appendEntries room) :=
  u64_local.bind (fun _ => u64_local.bind (fun _ => u64_local.bind (fun _ =>
    u64_local.bind (fun _ => u64_local.bind (fun _ => u64_local.bind (fun count =>
      Local.fail.ite ((entries_local count).bind (fun _ => Local.pure _))))))))

theorem installSnapshot_local : Local installSnapshot :=
  u64_local.bind (fun _ => u64_local.bind (fun _ => u64_local.bind (fun _ =>
    u64_local.bind (fun _ => u64_local.bind (fun _ => u64_local.bind (fun len =>
      (bytes_local len).bind (fun _ => bool_local.bind (fun _ =>
        members_local.bind (fun _ => Local.pure _)))))))))

theorem payload_local (room : Nat) (tag : UInt8) : Local (payload room tag) := by
  have hthree {f : Nat -> Nat -> Nat -> Message} : Local (do
      let a ← u64
      let b ← u64
      let c ← u64
      return f a b c) :=
    u64_local.bind (fun _ => u64_local.bind (fun _ => u64_local.bind
      (fun _ => Local.pure _)))
  have hreply {f : Nat -> Bool -> Message} : Local (do
      let term ← u64
      let flag ← bool
      return f term flag) :=
    u64_local.bind (fun _ => bool_local.bind (fun _ => Local.pure _))
  refine hthree.ite (hreply.ite (hthree.ite (hreply.ite
    ((appendEntries_local room).ite (installSnapshot_local.ite (Local.ite ?_
      (Local.ite ?_ (Local.ite ?_ (Local.ite ?_ Local.fail)))))))))
  · exact u64_local.bind (fun _ => u64_local.bind (fun _ => u64_local.bind
      (fun _ => u64_local.bind (fun _ => bool_local.bind
        (fun _ => Local.pure _)))))
  · exact u64_local.bind (fun _ => u64_local.bind (fun _ => u64_local.bind
      (fun _ => u64_local.bind (fun _ => bool_local.bind (fun _ =>
        bool_local.bind (fun _ => u64_local.bind (fun _ => Local.pure _)))))))
  · exact u64_local.bind (fun _ => u64_local.bind (fun _ => Local.pure _))
  · exact u64_local.bind (fun _ => u64_local.bind (fun _ => bool_local.bind
      (fun _ => u64_local.bind (fun _ => Local.pure _))))

theorem message_local (room : Nat) : Local (message room) :=
  u8_local.bind (payload_local room)

theorem decode_some {body : Bytes} {m : Message} (h : decode body = some m) :
    message body.length body = some (m, []) := by
  unfold decode at h
  obtain ⟨⟨read, rest⟩, hread, hlast⟩ := Option.bind_eq_some_iff.mp h
  cases rest with
  | nil =>
      obtain rfl : read = m := Option.some.inj hlast
      exact hread
  | cons byte rest => cases hlast

/-- Only the whole of a body is a body. -/
theorem decode_cut {m : Message} (hwide : MessageWide m)
    (hlength : (encode m).length < 2 ^ 64) {front back : Bytes}
    (hbody : encode m = front ++ back) (hback : back ≠ []) :
    decode front = none := by
  cases hdecode : decode front with
  | none => rfl
  | some read =>
      have hspends := message_spends hwide hlength front.length
      rw [hbody] at hspends
      exact absurd (decode_some hdecode)
        ((message_local front.length).cut hspends hback read)

/-!
# A body is as long as its message
-/

theorem bytes_measures (len : Nat) : Measures 0 (bytes len) List.length := by
  intro input slice rest h
  obtain ⟨rfl, _⟩ := takeBytes_some h
  rw [List.length_append]
  omega

theorem fixed_measures {α : Type} (len : Nat) (f : Bytes -> α) :
    Measures 0 (bytes len >>= fun slice => pure (f slice) : Reader UInt8 α)
      (fun _ => len) := by
  intro input a rest h
  rw [bind_apply] at h
  obtain ⟨⟨slice, left⟩, htake, hlast⟩ := Option.bind_eq_some_iff.mp h
  obtain ⟨rfl, hlength⟩ := takeBytes_some htake
  obtain ⟨rfl, rfl⟩ := Prod.mk.inj (Option.some.inj hlast)
  dsimp only
  rw [List.length_append]
  omega

theorem u8_measures : Measures 0 u8 (fun _ => 1) :=
  fixed_measures 1 (fun slice => slice.headD 0)

theorem u64_measures : Measures 0 u64 (fun _ => 8) :=
  fixed_measures 8 fromLe

theorem bool_measures : Measures 0 bool (fun _ => 1) :=
  u8_measures.bind (fun _ =>
    Measures.ite (Measures.pure rfl)
      (Measures.ite (Measures.pure rfl) Measures.fail))

theorem membersOf_measures (len : Nat) :
    Measures 0 (membersOf len) (fun members => (encodeMembers members).length) := by
  intro input members rest h
  unfold membersOf at h
  rw [bind_apply] at h
  obtain ⟨⟨encoded, left⟩, htake, hlast⟩ := Option.bind_eq_some_iff.mp h
  obtain ⟨rfl, _⟩ := takeBytes_some htake
  dsimp only at hlast
  cases hdecode : decodeMembers encoded with
  | none =>
      rw [hdecode] at hlast
      cases hlast
  | some read =>
      rw [hdecode] at hlast
      obtain ⟨rfl, rfl⟩ := Prod.mk.inj (Option.some.inj hlast)
      dsimp only
      rw [← (decodeMembers_some hdecode).2, List.length_append]
      omega

theorem members_measures :
    Measures 0 members (fun ms => (putMembers ms).length) := by
  refine bool_measures.bind (fun flag => Measures.ite ?_ (Measures.pure rfl))
  refine u64_measures.bind (fun len => (membersOf_measures len).bind (fun ms => ?_))
  apply Measures.pure
  simp only [putMembers, List.length_append, length_putU64, List.length_cons,
    List.length_nil]

theorem command_measures (kind : UInt8) (len : Nat) :
    Measures 9 (command kind len) (fun c => (putCommand c).length) := by
  have hnoop : (putCommand Command.noop).length = 9 + 0 := by
    simp [putCommand, length_putU64]
  have hdata (slice : Bytes) : (putCommand (Command.data slice)).length =
      9 + slice.length := by
    simp [putCommand, length_putU64]
    omega
  have hconfig (members : List Member) :
      (putCommand (Command.config members)).length =
        9 + (encodeMembers members).length := by
    simp [putCommand, length_putU64]
    omega
  refine Measures.ite ?_ (Measures.ite ?_ (Measures.ite ?_ Measures.fail))
  · exact Measures.pure hnoop
  · exact (bytes_measures len).bind (fun slice => Measures.pure (hdata slice))
  · exact (membersOf_measures len).bind (fun ms => Measures.pure (hconfig ms))

theorem nine_le_putCommand (c : Command) : 9 <= (putCommand c).length := by
  cases c <;> simp [putCommand, length_putU64]

theorem entry_measures : Measures 0 entry (fun e => (putEntry e).length) := by
  have hcommand (kind : UInt8) (len : Nat) :
      Measures 0 (command kind len) (fun c => (putCommand c).length - 9) := by
    intro input c rest h
    have htaken := command_measures kind len input c rest h
    have hnine := nine_le_putCommand c
    dsimp only at htaken ⊢
    omega
  refine u64_measures.bind (fun _ => u64_measures.bind (fun _ =>
    u8_measures.bind (fun kind => u64_measures.bind (fun len =>
      (hcommand kind len).bind (fun c => Measures.pure ?_)))))
  have hnine := nine_le_putCommand c
  rw [putEntry_eq]
  simp only [List.length_append, length_leBytes]
  omega

theorem entries_measures (count : Nat) :
    Measures 0 (entries count) (fun es => (es.flatMap putEntry).length) := by
  induction count with
  | zero => exact Measures.pure rfl
  | succ count ih =>
      refine entry_measures.bind (fun e => ih.bind (fun es => Measures.pure ?_))
      rw [List.flatMap_cons, List.length_append]
      omega

theorem appendEntries_measures (room : Nat) :
    Measures 1 (appendEntries room) (fun m => (encode m).length) := by
  refine u64_measures.bind (fun _ => u64_measures.bind (fun _ =>
    u64_measures.bind (fun _ => u64_measures.bind (fun _ => u64_measures.bind
      (fun _ => u64_measures.bind (fun count => Measures.fail.ite
        ((entries_measures count).bind (fun es => Measures.pure ?_))))))))
  simp only [encode, List.length_append, length_putU64, List.length_cons,
    List.length_nil]

theorem installSnapshot_measures :
    Measures 1 installSnapshot (fun m => (encode m).length) := by
  refine u64_measures.bind (fun _ => u64_measures.bind (fun _ =>
    u64_measures.bind (fun _ => u64_measures.bind (fun _ => u64_measures.bind
      (fun _ => u64_measures.bind (fun len => (bytes_measures len).bind
        (fun data => bool_measures.bind (fun done => members_measures.bind
          (fun ms => Measures.pure ?_)))))))))
  simp only [encode, List.length_append, length_putU64, length_putBool,
    List.length_cons, List.length_nil]

theorem payload_measures (room : Nat) (tag : UInt8) :
    Measures 1 (payload room tag) (fun m => (encode m).length) := by
  refine Measures.ite ?_ (Measures.ite ?_ (Measures.ite ?_ (Measures.ite ?_
    ((appendEntries_measures room).ite (installSnapshot_measures.ite
      (Measures.ite ?_ (Measures.ite ?_ (Measures.ite ?_ (Measures.ite ?_
        Measures.fail)))))))))
  · exact u64_measures.bind (fun _ => u64_measures.bind (fun _ =>
      u64_measures.bind (fun _ => Measures.pure (by simp [encode, length_putU64]))))
  · exact u64_measures.bind (fun _ => bool_measures.bind (fun _ =>
      Measures.pure (by simp [encode, length_putU64, length_putBool])))
  · exact u64_measures.bind (fun _ => u64_measures.bind (fun _ =>
      u64_measures.bind (fun _ => Measures.pure (by simp [encode, length_putU64]))))
  · exact u64_measures.bind (fun _ => bool_measures.bind (fun _ =>
      Measures.pure (by simp [encode, length_putU64, length_putBool])))
  · exact u64_measures.bind (fun _ => u64_measures.bind (fun _ =>
      u64_measures.bind (fun _ => u64_measures.bind (fun _ => bool_measures.bind
        (fun _ => Measures.pure (by simp [encode, length_putU64, length_putBool]))))))
  · refine u64_measures.bind (fun _ => u64_measures.bind (fun _ =>
      u64_measures.bind (fun _ => u64_measures.bind (fun _ => bool_measures.bind
        (fun _ => bool_measures.bind (fun flag => u64_measures.bind (fun _ =>
          Measures.pure ?_)))))))
    cases flag <;>
      simp [encode, putConflictTerm, length_putU64, length_putBool]
  · exact u64_measures.bind (fun _ => u64_measures.bind (fun _ =>
      Measures.pure (by simp [encode, length_putU64])))
  · exact u64_measures.bind (fun _ => u64_measures.bind (fun _ =>
      bool_measures.bind (fun _ => u64_measures.bind (fun _ => Measures.pure
        (by simp [encode, length_putU64, length_putBool])))))

theorem length_decode {body : Bytes} {m : Message} (h : decode body = some m) :
    (encode m).length = body.length := by
  have hmeasures : Measures 0 (message body.length) (fun m => (encode m).length) :=
    u8_measures.bind (payload_measures body.length)
  have htaken := hmeasures body m [] (decode_some h)
  dsimp only at htaken
  rw [List.length_nil] at htaken
  omega

/-!
# Flipping a bit
-/

@[simp] theorem length_flipBit (input : Bytes) (pos : Nat) (bit : Fin 8) :
    (flipBit input pos bit).length = input.length :=
  List.length_modify _ _ _

theorem flipBit_left {before : Bytes} (after : Bytes) {pos : Nat} (bit : Fin 8)
    (h : pos < before.length) :
    flipBit (before ++ after) pos bit = flipBit before pos bit ++ after := by
  induction before generalizing pos with
  | nil => exact absurd h (Nat.not_lt_zero pos)
  | cons byte before ih =>
      cases pos with
      | zero => rfl
      | succ pos =>
          exact congrArg (List.cons byte) (ih (Nat.lt_of_succ_lt_succ h))

theorem flipBit_right {before : Bytes} (after : Bytes) {pos : Nat} (bit : Fin 8)
    (h : before.length <= pos) :
    flipBit (before ++ after) pos bit =
      before ++ flipBit after (pos - before.length) bit := by
  induction before generalizing pos with
  | nil => rfl
  | cons byte before ih =>
      cases pos with
      | zero => exact absurd h (Nat.not_succ_le_zero _)
      | succ pos =>
          rw [List.length_cons, Nat.add_sub_add_right]
          exact congrArg (List.cons byte) (ih (Nat.le_of_succ_le_succ h))

theorem locate {input : Bytes} {pos : Nat} (h : pos < input.length) :
    exists before byte after, input = before ++ byte :: after ∧
      before.length = pos :=
  ⟨input.take pos, input[pos], input.drop (pos + 1), by simp,
    List.length_take_of_le (Nat.le_of_lt h)⟩

theorem flipBit_ne {input : Bytes} {pos : Nat} (bit : Fin 8)
    (h : pos < input.length) : flipBit input pos bit ≠ input := by
  obtain ⟨before, byte, after, rfl, rfl⟩ := locate h
  rw [flipBit_append]
  intro hsame
  have htail := List.append_cancel_left hsame
  exact flip_ne byte bit (List.cons.inj htail).1

theorem crc32Parts_flipBit {input : Bytes} {pos : Nat} (bit : Fin 8)
    (h : pos < input.length) :
    crc32Parts [flipBit input pos bit] ≠ crc32Parts [input] := by
  obtain ⟨before, byte, after, rfl, rfl⟩ := locate h
  rw [flipBit_append]
  exact crc32Parts_ne (flip_ne byte bit)

theorem fromLe_flipBit_ne {input : Bytes} {pos : Nat} (bit : Fin 8)
    (h : pos < input.length) : fromLe (flipBit input pos bit) ≠ fromLe input :=
  fun hsame => flipBit_ne bit h (fromLe_inj (length_flipBit input pos bit) hsame)

/-!
# A flipped bit of a frame
-/

theorem readFrame_whole {m : Message} (hwide : MessageWide m)
    (hlength : (encode m).length < 2 ^ 64) {first len crc : Nat} {sender : NodeId}
    {pair : NodeId × Message} {rest : Bytes}
    (h : readFrame first len crc sender (encode m) =
      Except.ok (some (pair, rest))) :
    pair = (sender, m) ∧ (encode m).length + 12 <= maxFrame := by
  have hmax : maxFrame = 67108864 := by decide
  obtain ⟨_, hlow, hhigh, hsender, body, hstream, hbody, _, hdecode⟩ :=
    readFrame_some h
  by_cases hrest : rest = []
  · subst hrest
    rw [List.append_nil] at hstream
    subst hstream
    rw [decode_encode hwide (by omega)] at hdecode
    exact ⟨Prod.ext hsender (Option.some.inj hdecode).symm, by omega⟩
  · rw [decode_cut hwide hlength hstream hrest] at hdecode
    cases hdecode

/-- A body with a flipped bit is read only where its length does not fit the field
for it. -/
theorem readFrame_flipped {body : Bytes} {pos : Nat} {bit : Fin 8}
    (hpos : pos < body.length) {first crc : Nat} {sender : NodeId}
    {pair : NodeId × Message} {rest : Bytes} (hcrc : crc = (crc32Parts [body]).toNat)
    (h : readFrame first ((body.length + 12) % 2 ^ 32) crc sender
      (flipBit body pos bit) = Except.ok (some (pair, rest))) :
    2 ^ 32 <= body.length + 12 := by
  obtain ⟨_, hlow, hhigh, _, front, hstream, hfront, hsum, _⟩ := readFrame_some h
  by_contra hshort
  have hlen : (body.length + 12) % 2 ^ 32 = body.length + 12 :=
    Nat.mod_eq_of_lt (by omega)
  have hwhole : rest = [] := by
    have hlength := congrArg List.length hstream
    rw [length_flipBit, List.length_append, hfront, hlen] at hlength
    exact List.length_eq_zero_iff.mp (by omega)
  subst hwhole
  rw [List.append_nil] at hstream
  rw [← hstream, hcrc] at hsum
  exact crc32Parts_flipBit bit hpos (UInt32.toNat_inj.mp hsum)

def InSender (pos : Nat) : Prop :=
  12 <= pos ∧ pos < 20

instance (pos : Nat) : Decidable (InSender pos) :=
  inferInstanceAs (Decidable (_ ∧ _))

/-- A body too long for the length field, of which the part that the field then covers
passes, once the bit is flipped, for a body of its own. -/
def Overlong (body : Bytes) (pos : Nat) (bit : Fin 8) : Prop :=
  let len := (body.length + 12) % 2 ^ 32
  let front := (flipBit body pos bit).take (len - 12)
  2 ^ 32 <= body.length + 12 ∧ 12 <= len ∧ len <= maxFrame ∧
    crc32Parts [front] = crc32Parts [body] ∧ (decode front).isSome

theorem frame_eq (sender : NodeId) (m : Message) :
    frame sender m =
      leBytes 4 magic ++ leBytes 4 ((encode m).length + 12) ++
        leBytes 4 (crc32Parts [encode m]).toNat ++ leBytes 8 sender ++
        encode m := rfl

/-- Before the sender, a flipped bit leaves the sender and the body as they were. -/
theorem flipBit_before_sender (sender : NodeId) (m : Message) {pos : Nat}
    (bit : Fin 8) (h : pos < 12) :
    exists a b c : Bytes, a.length = 4 ∧ b.length = 4 ∧ c.length = 4 ∧
      flipBit (frame sender m) pos bit =
        a ++ b ++ c ++ leBytes 8 sender ++ encode m := by
  let front := leBytes 4 magic ++ leBytes 4 ((encode m).length + 12) ++
    leBytes 4 (crc32Parts [encode m]).toNat
  have hfront : front.length = 12 := by
    simp only [front, List.length_append, length_leBytes]
  have hflipped : (flipBit front pos bit).length = 12 := by
    rw [length_flipBit, hfront]
  refine ⟨(flipBit front pos bit).take 4, ((flipBit front pos bit).drop 4).take 4,
    ((flipBit front pos bit).drop 4).drop 4, ?_, ?_, ?_, ?_⟩
  · rw [List.length_take]
    omega
  · rw [List.length_take, List.length_drop]
    omega
  · rw [List.length_drop, List.length_drop]
    omega
  · have hframe : frame sender m = front ++ (leBytes 8 sender ++ encode m) := by
      rw [frame_eq, List.append_assoc]
    rw [hframe, flipBit_left _ bit (by omega), List.append_assoc _ _ (encode m)]
    congr 1
    rw [List.append_assoc, List.take_append_drop, List.take_append_drop]

theorem flipBit_sender (sender : NodeId) (m : Message) {pos : Nat} (bit : Fin 8)
    (h : InSender pos) :
    flipBit (frame sender m) pos bit =
      leBytes 4 magic ++ leBytes 4 ((encode m).length + 12) ++
        leBytes 4 (crc32Parts [encode m]).toNat ++
        flipBit (leBytes 8 sender) (pos - 12) bit ++ encode m := by
  have hfront : (leBytes 4 magic ++ leBytes 4 ((encode m).length + 12) ++
      leBytes 4 (crc32Parts [encode m]).toNat).length = 12 := by
    simp only [List.length_append, length_leBytes]
  rcases h with ⟨hlow, hhigh⟩
  rw [frame_eq, List.append_assoc _ (leBytes 8 sender), flipBit_right _ bit
    (by omega), hfront, flipBit_left _ bit (by rw [length_leBytes]; omega),
    ← List.append_assoc]

theorem flipBit_body (sender : NodeId) (m : Message) {pos : Nat} (bit : Fin 8)
    (h : prefixLen <= pos) :
    flipBit (frame sender m) pos bit =
      leBytes 4 magic ++ leBytes 4 ((encode m).length + 12) ++
        leBytes 4 (crc32Parts [encode m]).toNat ++ leBytes 8 sender ++
        flipBit (encode m) (pos - prefixLen) bit := by
  have hfront : (leBytes 4 magic ++ leBytes 4 ((encode m).length + 12) ++
      leBytes 4 (crc32Parts [encode m]).toNat ++ leBytes 8 sender).length =
      prefixLen := by
    simp only [List.length_append, length_leBytes, prefixLen]
  rw [frame_eq, flipBit_right _ bit (by omega), hfront]

theorem fromLe_header {sender : NodeId} (hsender : sender < 2 ^ 64)
    (m : Message) :
    fromLe (leBytes 4 magic) = magic ∧
      fromLe (leBytes 4 ((encode m).length + 12)) =
        ((encode m).length + 12) % 2 ^ 32 ∧
      fromLe (leBytes 4 (crc32Parts [encode m]).toNat) =
        (crc32Parts [encode m]).toNat ∧
      fromLe (leBytes 8 sender) = sender :=
  ⟨by decide, fromLe_leBytes 4 _,
    fromLe_leBytes_of_lt (crc32Parts [encode m]).toNat_lt,
    fromLe_leBytes_of_lt hsender⟩

/-- A frame is written and one of its bits is flipped.  It is never read as another
message or from another sender, exactly where the bit is not one of the sender in a
frame that is not refused for its length.  The other condition is about bodies of
4 GiB, whose length the frame does not hold. -/
theorem flipped_frame_iff {sender : NodeId} {m : Message}
    (hsender : sender < 2 ^ 64) (hwide : MessageWide m)
    (hlength : (encode m).length < 2 ^ 64) {pos : Nat}
    (hpos : pos < (frame sender m).length) (bit : Fin 8) :
    (forall sender' m' rest,
      readMessage (flipBit (frame sender m) pos bit) =
          Except.ok (some ((sender', m'), rest)) ->
        sender' = sender ∧ m' = m) ↔
      ¬ (InSender pos ∧ (encode m).length + 12 <= maxFrame) ∧
        ¬ (prefixLen <= pos ∧ Overlong (encode m) (pos - prefixLen) bit) := by
  have hmax : maxFrame = 67108864 := by decide
  obtain ⟨hmagic, hlen, hcrc, hfrom⟩ := fromLe_header hsender m
  have hlong : prefixLen + (encode m).length = (frame sender m).length := by
    simp only [frame_eq, List.length_append, length_leBytes, prefixLen]
  constructor
  · intro hsame
    constructor
    · rintro ⟨hin, hfits⟩
      have hplace : pos - 12 < (leBytes 8 sender).length := by
        rw [length_leBytes]
        have hhigh := hin.2
        omega
      have hother := fromLe_flipBit_ne bit hplace
      rw [hfrom] at hother
      have hread : readMessage (flipBit (frame sender m) pos bit) =
          Except.ok (some ((fromLe (flipBit (leBytes 8 sender) (pos - 12) bit),
            m), [])) := by
        have hlenFits : ((encode m).length + 12) % 2 ^ 32 =
            (encode m).length + 12 := Nat.mod_eq_of_lt (by omega)
        have htake : takeBytes ((encode m).length + 12 - 12) (encode m) =
            some (encode m, []) := by
          have happend := takeBytes_append
            (show (encode m).length = (encode m).length + 12 - 12 by omega) []
          rwa [List.append_nil] at happend
        rw [flipBit_sender sender m bit hin,
          readMessage_fields (length_leBytes 4 _) (length_leBytes 4 _)
            (length_leBytes 4 _) (by rw [length_flipBit, length_leBytes]),
          hmagic, hlen, hcrc, hlenFits]
        unfold readFrame
        rw [if_neg (by simp), if_neg (by omega), htake]
        dsimp only
        rw [if_neg (by simp), decode_encode hwide (by omega)]
      exact hother (hsame _ m [] hread).1
    · rintro ⟨hbody, hover⟩
      obtain ⟨hhuge, hlow, hhigh, hsum, hsome⟩ := hover
      obtain ⟨m', hdecode⟩ := Option.isSome_iff_exists.mp hsome
      have hcut : ((encode m).length + 12) % 2 ^ 32 - 12 <=
          (flipBit (encode m) (pos - prefixLen) bit).length := by
        rw [length_flipBit]
        omega
      have hread : readMessage (flipBit (frame sender m) pos bit) =
          Except.ok (some ((sender, m'),
            (flipBit (encode m) (pos - prefixLen) bit).drop
              (((encode m).length + 12) % 2 ^ 32 - 12))) := by
        rw [flipBit_body sender m bit hbody,
          readMessage_fields (length_leBytes 4 _) (length_leBytes 4 _)
            (length_leBytes 4 _) (length_leBytes 8 _),
          hmagic, hlen, hcrc, hfrom]
        unfold readFrame takeBytes
        rw [if_neg (by simp), if_neg (not_not.mpr ⟨hlow, hhigh⟩), if_pos hcut]
        dsimp only
        rw [hsum, if_neg (by simp), hdecode]
      obtain rfl := (hsame _ m' _ hread).2
      have hsize := length_decode hdecode
      rw [List.length_take_of_le hcut] at hsize
      omega
  · rintro ⟨hoff, hshort⟩ sender' m' rest hread
    by_cases hbefore : pos < 12
    · obtain ⟨a, b, c, ha, hb, hc, hflip⟩ :=
        flipBit_before_sender sender m bit hbefore
      rw [hflip, readMessage_fields ha hb hc (length_leBytes 8 _), hfrom] at hread
      exact Prod.mk.inj (readFrame_whole hwide hlength hread).1
    · by_cases hin : pos < 20
      · have hplace : InSender pos := ⟨by omega, hin⟩
        rw [flipBit_sender sender m bit hplace,
          readMessage_fields (length_leBytes 4 _) (length_leBytes 4 _)
            (length_leBytes 4 _) (by rw [length_flipBit, length_leBytes])]
          at hread
        exact absurd ⟨hplace, (readFrame_whole hwide hlength hread).2⟩ hoff
      · have hbody : prefixLen <= pos := by
          unfold prefixLen
          omega
        rw [flipBit_body sender m bit hbody,
          readMessage_fields (length_leBytes 4 _) (length_leBytes 4 _)
            (length_leBytes 4 _) (length_leBytes 8 _),
          hmagic, hlen, hcrc, hfrom] at hread
        have hhuge := readFrame_flipped (by omega) rfl hread
        obtain ⟨_, hlow, hhigh, _, front, hstream, hfront, hsum, hdecode⟩ :=
          readFrame_some hread
        have htake : (flipBit (encode m) (pos - prefixLen) bit).take
            (((encode m).length + 12) % 2 ^ 32 - 12) = front := by
          rw [hstream]
          exact List.take_left' hfront
        refine absurd ⟨hbody, hhuge, hlow, hhigh, ?_, ?_⟩ hshort
        · rw [htake]
          exact UInt32.toNat_inj.mp hsum
        · rw [htake, hdecode]
          rfl

theorem flipped_frame_iff_checksum :
    8 < (frame 7 (Message.requestVoteReply 3 true)).length ∧
      forall sender' m' rest,
        readMessage (flipBit (frame 7 (Message.requestVoteReply 3 true)) 8 0) =
            Except.ok (some ((sender', m'), rest)) ->
          sender' = 7 ∧ m' = Message.requestVoteReply 3 true :=
  ⟨by decide,
    (flipped_frame_iff (by decide) (by unfold MessageWide; decide) (by decide)
      (by decide) 0).mpr
      ⟨fun h => absurd h.1 (by decide), fun h => absurd h.1 (by decide)⟩⟩

/-- A vote is granted by node 7 and counted for node 6. -/
theorem flipped_sender_believed :
    ¬ (forall (sender : NodeId) (m : Message), sender < 2 ^ 64 -> MessageWide m ->
      forall pos (bit : Fin 8), pos < (frame sender m).length ->
        forall sender' m' rest,
          readMessage (flipBit (frame sender m) pos bit) =
              Except.ok (some ((sender', m'), rest)) ->
            sender' = sender ∧ m' = m) := by
  intro h
  have hread : readMessage
      (flipBit (frame 7 (Message.requestVoteReply 3 true)) 12 0) =
      Except.ok (some ((6, Message.requestVoteReply 3 true), [])) := by
    decide +kernel
  have hsame := h 7 (Message.requestVoteReply 3 true) (by decide)
    (by unfold MessageWide; decide) 12 0 (by decide) 6 _ [] hread
  exact absurd hsame.1 (by decide)

end Wire
end Raft
end Minicask
