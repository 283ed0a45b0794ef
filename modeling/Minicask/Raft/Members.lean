import Minicask.Raft.Log

/-!
# Members read back

The other half of `encodeMembers`.  What it wrote is read back as it was, and
nothing may be left over.
-/

namespace Minicask
namespace Raft

/-- The next bytes of a string, if there are as many. -/
def takeBytes (n : Nat) (rest : Bytes) : Option (Bytes × Bytes) :=
  if n <= rest.length then some (rest.take n, rest.drop n) else none

def decodeLearner : Bytes -> Option Bool
  | [0] => some false
  | [1] => some true
  | _ => none

def decodeMember (rest : Bytes) : Option (Member × Bytes) :=
  (takeBytes 8 rest).bind (fun (id, rest) =>
    (takeBytes 1 rest).bind (fun (flags, rest) =>
      (decodeLearner flags).bind (fun learner =>
        (takeBytes 4 rest).bind (fun (len, rest) =>
          (takeBytes (fromLe len) rest).bind (fun (context, rest) =>
            some
              ({ id := fromLe id
                 context := context
                 learner := learner }, rest))))))

def decodeMemberLoop : Nat -> Bytes -> Option (List Member × Bytes)
  | 0, rest => some ([], rest)
  | count + 1, rest =>
      (decodeMember rest).bind (fun (member, rest) =>
        (decodeMemberLoop count rest).map (fun (members, rest) =>
          (member :: members, rest)))

/-- Each member is at least thirteen bytes, so a count beyond that is not
believed. -/
def decodeMembers (bytes : Bytes) : Option (List Member) :=
  (takeBytes 4 bytes).bind (fun (count, rest) =>
    if fromLe count > bytes.length / 13 then none
    else
      (decodeMemberLoop (fromLe count) rest).bind (fun (members, rest) =>
        if rest.isEmpty then some members else none))

/-!
# Round trip
-/

theorem takeBytes_append {before : Bytes} {n : Nat} (h : before.length = n)
    (rest : Bytes) : takeBytes n (before ++ rest) = some (before, rest) := by
  subst h
  simp [takeBytes]

theorem takeBytes_some {n : Nat} {input body rest : Bytes}
    (h : takeBytes n input = some (body, rest)) :
    input = body ++ rest ∧ body.length = n := by
  unfold takeBytes at h
  split at h
  case isTrue hle =>
      obtain ⟨rfl, rfl⟩ := Prod.mk.inj (Option.some.inj h)
      exact ⟨(List.take_append_drop n input).symm, List.length_take_of_le hle⟩
  case isFalse => cases h

def encodeMember (member : Member) : Bytes :=
  leBytes 8 member.id ++ [if member.learner then 1 else 0] ++
    leBytes 4 member.context.length ++ member.context

/-- An id is a `u64`, and a context has a length that fits its field. -/
def Member.Fits (member : Member) : Prop :=
  member.id < 2 ^ 64 ∧ member.context.length < 2 ^ 32

/-- Members whose count and contexts fit their fields. -/
def MembersFit (members : List Member) : Prop :=
  members.length < 2 ^ 32 ∧ forall member, member ∈ members -> member.Fits

instance (member : Member) : Decidable member.Fits :=
  inferInstanceAs (Decidable (_ ∧ _))

instance (members : List Member) : Decidable (MembersFit members) :=
  inferInstanceAs (Decidable (_ ∧ _))

theorem decodeMember_encodeMember {member : Member} (h : member.Fits)
    (rest : Bytes) :
    decodeMember (encodeMember member ++ rest) = some (member, rest) := by
  have hid : fromLe (leBytes 8 member.id) = member.id :=
    fromLe_leBytes_of_lt h.1
  have hlen : fromLe (leBytes 4 member.context.length) =
      member.context.length :=
    fromLe_leBytes_of_lt h.2
  unfold decodeMember encodeMember
  simp only [List.append_assoc]
  rw [takeBytes_append (length_leBytes 8 member.id)]
  dsimp only [Option.bind_some]
  rw [takeBytes_append (n := 1) (List.length_singleton)]
  dsimp only [Option.bind_some]
  have hflag : decodeLearner [if member.learner then 1 else 0] =
      some member.learner := by
    cases member.learner <;> rfl
  rw [hflag]
  dsimp only [Option.bind_some]
  rw [takeBytes_append (length_leBytes 4 _)]
  dsimp only [Option.bind_some]
  rw [hlen, takeBytes_append rfl, hid]
  rfl

theorem decodeMemberLoop_encode {members : List Member}
    (h : forall member, member ∈ members -> member.Fits) (rest : Bytes) :
    decodeMemberLoop members.length (members.flatMap encodeMember ++ rest) =
      some (members, rest) := by
  induction members with
  | nil => rfl
  | cons member members ih =>
      have hrest := ih (fun other hother => h other (List.mem_cons_of_mem _ hother))
      rw [List.flatMap_cons, List.append_assoc, List.length_cons,
        decodeMemberLoop,
        decodeMember_encodeMember (h member List.mem_cons_self)]
      dsimp only [Option.bind_some]
      rw [hrest]
      rfl

theorem length_encodeMember (member : Member) :
    (encodeMember member).length = 13 + member.context.length := by
  simp [encodeMember]
  omega

theorem thirteen_mul_le (members : List Member) :
    13 * members.length <= (members.flatMap encodeMember).length := by
  induction members with
  | nil => exact Nat.le_refl 0
  | cons member members ih =>
      rw [List.flatMap_cons, List.length_append, List.length_cons,
        length_encodeMember]
      omega

theorem encodeMembers_eq (members : List Member) :
    encodeMembers members =
      leBytes 4 members.length ++ members.flatMap encodeMember := rfl

theorem decodeMembers_encodeMembers {members : List Member}
    (h : MembersFit members) :
    decodeMembers (encodeMembers members) = some members := by
  have hcount : fromLe (leBytes 4 members.length) = members.length :=
    fromLe_leBytes_of_lt h.1
  have hroom : ¬ members.length > (encodeMembers members).length / 13 := by
    have hlong := thirteen_mul_le members
    rw [encodeMembers_eq, List.length_append, length_leBytes]
    omega
  have hloop := decodeMemberLoop_encode h.2 []
  rw [List.append_nil] at hloop
  unfold decodeMembers
  rw [encodeMembers_eq] at hroom ⊢
  rw [takeBytes_append (length_leBytes 4 _)]
  dsimp only [Option.bind_some]
  rw [hcount, if_neg hroom, hloop]
  rfl

/-!
# Nothing else is read
-/

theorem decodeLearner_some {flags : Bytes} {learner : Bool}
    (h : decodeLearner flags = some learner) :
    flags = [if learner then 1 else 0] := by
  unfold decodeLearner at h
  split at h
  · cases h
    rfl
  · cases h
    rfl
  · cases h

theorem leBytes_eq {width : Nat} {bytes : Bytes} (h : bytes.length = width) :
    leBytes width (fromLe bytes) = bytes := by
  rw [← h]
  exact leBytes_fromLe bytes

theorem fromLe_lt_of_length {width : Nat} {bytes : Bytes}
    (h : bytes.length = width) : fromLe bytes < 256 ^ width := by
  rw [← h]
  exact fromLe_lt bytes

theorem decodeMember_some {bytes rest : Bytes} {member : Member}
    (h : decodeMember bytes = some (member, rest)) :
    member.Fits ∧ bytes = encodeMember member ++ rest := by
  unfold decodeMember at h
  rcases Option.bind_eq_some_iff.mp h with ⟨⟨id, afterId⟩, hid, h⟩
  rcases Option.bind_eq_some_iff.mp h with ⟨⟨flags, afterFlags⟩, hflags, h⟩
  rcases Option.bind_eq_some_iff.mp h with ⟨learner, hlearner, h⟩
  rcases Option.bind_eq_some_iff.mp h with ⟨⟨len, afterLen⟩, hlen, h⟩
  rcases Option.bind_eq_some_iff.mp h with ⟨⟨context, left⟩, hcontext, h⟩
  cases h
  rcases takeBytes_some hid with ⟨rfl, hidLength⟩
  rcases takeBytes_some hflags with ⟨rfl, _⟩
  rcases takeBytes_some hlen with ⟨rfl, hlenLength⟩
  rcases takeBytes_some hcontext with ⟨rfl, hcontextLength⟩
  constructor
  · constructor
    · exact fromLe_lt_of_length hidLength
    · dsimp only
      rw [hcontextLength]
      exact fromLe_lt_of_length hlenLength
  · unfold encodeMember
    dsimp only
    rw [leBytes_eq hidLength, hcontextLength, leBytes_eq hlenLength,
      decodeLearner_some hlearner]
    simp only [List.append_assoc]

theorem decodeMemberLoop_some {count : Nat} {bytes rest : Bytes}
    {members : List Member}
    (h : decodeMemberLoop count bytes = some (members, rest)) :
    members.length = count ∧ (forall member, member ∈ members -> member.Fits) ∧
      bytes = members.flatMap encodeMember ++ rest := by
  induction count generalizing bytes members with
  | zero =>
      cases h
      exact ⟨rfl, fun _ hnone => absurd hnone List.not_mem_nil, rfl⟩
  | succ count ih =>
      rw [decodeMemberLoop] at h
      rcases Option.bind_eq_some_iff.mp h with ⟨⟨member, middle⟩, hfirst, h⟩
      rcases Option.map_eq_some_iff.mp h with ⟨⟨others, left⟩, hothers, h⟩
      cases h
      rcases decodeMember_some hfirst with ⟨hmember, hbytes⟩
      rcases ih hothers with ⟨hcount, hfits, hmiddle⟩
      constructor
      · rw [List.length_cons, hcount]
      constructor
      · exact List.forall_mem_cons.mpr ⟨hmember, hfits⟩
      · rw [hbytes, hmiddle, List.flatMap_cons, List.append_assoc]

/-- Only what `encodeMembers` writes is read as members. -/
theorem decodeMembers_some {bytes : Bytes} {members : List Member}
    (h : decodeMembers bytes = some members) :
    MembersFit members ∧ bytes = encodeMembers members := by
  unfold decodeMembers at h
  rcases Option.bind_eq_some_iff.mp h with ⟨⟨count, rest⟩, hcount, h⟩
  rcases takeBytes_some hcount with ⟨rfl, hcountLength⟩
  dsimp only at h
  split at h
  · cases h
  · rcases Option.bind_eq_some_iff.mp h with ⟨⟨read, left⟩, hloop, h⟩
    rcases decodeMemberLoop_some hloop with ⟨hlength, hfits, hrest⟩
    cases left with
    | cons byte left => cases h
    | nil =>
        cases h
        constructor
        · constructor
          · rw [hlength]
            exact fromLe_lt_of_length hcountLength
          · exact hfits
        · rw [encodeMembers_eq, hlength, leBytes_eq hcountLength, hrest,
            List.append_nil]

/-- No encoding goes on where another ends. -/
theorem encodeMembers_append_inj {members members' : List Member}
    (h : MembersFit members) (h' : MembersFit members') {extra : Bytes}
    (heq : encodeMembers members ++ extra = encodeMembers members') :
    members = members' ∧ extra = [] := by
  rw [encodeMembers_eq, encodeMembers_eq, List.append_assoc] at heq
  have hlengths : (leBytes 4 members.length).length =
      (leBytes 4 members'.length).length := by
    rw [length_leBytes, length_leBytes]
  rcases List.append_inj heq hlengths with ⟨hcounts, hmembers⟩
  have hcount : members.length = members'.length := by
    calc members.length
        = fromLe (leBytes 4 members.length) := (fromLe_leBytes_of_lt h.1).symm
      _ = fromLe (leBytes 4 members'.length) := congrArg fromLe hcounts
      _ = members'.length := fromLe_leBytes_of_lt h'.1
  have hread := decodeMemberLoop_encode h.2 extra
  have hread' := decodeMemberLoop_encode h'.2 []
  rw [List.append_nil, ← hmembers, ← hcount, hread] at hread'
  cases hread'
  exact ⟨rfl, rfl⟩

/-- Exactly the encodings are read, each as what it encodes: none of them has a
count that is not believed, and none is read with some of it missing or with
anything after it. -/
theorem decodeMembers_exact {members : List Member} (h : MembersFit members) :
    (forall bytes, decodeMembers bytes = some members ↔
      bytes = encodeMembers members) ∧
    members.length <= (encodeMembers members).length / 13 ∧
    forall extra, extra ≠ [] ->
      decodeMembers (encodeMembers members ++ extra) = none ∧
      forall bytes, bytes ++ extra = encodeMembers members ->
        decodeMembers bytes = none := by
  constructor
  · intro bytes
    constructor
    · intro hread
      exact (decodeMembers_some hread).2
    · intro hbytes
      rw [hbytes]
      exact decodeMembers_encodeMembers h
  constructor
  · have hlong := thirteen_mul_le members
    rw [encodeMembers_eq, List.length_append, length_leBytes]
    omega
  · intro extra hextra
    constructor
    · cases hread : decodeMembers (encodeMembers members ++ extra) with
      | none => rfl
      | some members' =>
          rcases decodeMembers_some hread with ⟨hfits, heq⟩
          exact absurd (encodeMembers_append_inj h hfits heq).2 hextra
    · intro bytes hbytes
      cases hread : decodeMembers bytes with
      | none => rfl
      | some members' =>
          rcases decodeMembers_some hread with ⟨hfits, heq⟩
          rw [heq] at hbytes
          exact absurd (encodeMembers_append_inj hfits h hbytes).2 hextra

theorem decodeMembers_exact_learner :
    MembersFit [{ id := 3, context := [7, 8], learner := true }] ∧
    forall bytes, decodeMembers bytes =
        some [{ id := 3, context := [7, 8], learner := true }] ↔
      bytes = encodeMembers
        [{ id := 3, context := [7, 8], learner := true }] :=
  ⟨by decide, (decodeMembers_exact (by decide)).1⟩

end Raft
end Minicask
