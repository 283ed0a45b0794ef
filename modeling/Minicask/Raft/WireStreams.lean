import Minicask.Raft.Wire

/-!
# Frames on a stream

What `encode` wrote is what `decode` reads, and a stream of frames gives back its
messages one after the other.  A stream that ends inside of a frame is not taken for
one that ended.
-/

namespace Minicask
namespace Raft
namespace Wire

open Crc
open Reader

/-!
# Numbers that fit

The numbers of a message are `u64`s.
-/

def MembersWide (members : List Member) : Prop :=
  forall member, member ∈ members -> member.id < 2 ^ 64

instance (members : List Member) : Decidable (MembersWide members) :=
  inferInstanceAs (Decidable (forall _, _ -> _))

def CommandWide : Command -> Prop
  | Command.config members => MembersWide members
  | _ => True

def EntryWide (e : Entry) : Prop :=
  e.term < 2 ^ 64 ∧ e.index < 2 ^ 64 ∧ CommandWide e.command

def MessageWide : Message -> Prop
  | Message.preVote term lastLogIndex lastLogTerm =>
      term < 2 ^ 64 ∧ lastLogIndex < 2 ^ 64 ∧ lastLogTerm < 2 ^ 64
  | Message.preVoteReply term _ => term < 2 ^ 64
  | Message.requestVote term lastLogIndex lastLogTerm =>
      term < 2 ^ 64 ∧ lastLogIndex < 2 ^ 64 ∧ lastLogTerm < 2 ^ 64
  | Message.requestVoteReply term _ => term < 2 ^ 64
  | Message.appendEntries term prevLogIndex prevLogTerm entries leaderCommit
      seq =>
      term < 2 ^ 64 ∧ prevLogIndex < 2 ^ 64 ∧ prevLogTerm < 2 ^ 64 ∧
        leaderCommit < 2 ^ 64 ∧ seq < 2 ^ 64 ∧
        forall e, e ∈ entries -> EntryWide e
  | Message.installSnapshot term lastIndex lastTerm offset _ _ seq members =>
      term < 2 ^ 64 ∧ lastIndex < 2 ^ 64 ∧ lastTerm < 2 ^ 64 ∧
        offset < 2 ^ 64 ∧ seq < 2 ^ 64 ∧
        forall ms, members = some ms -> MembersWide ms
  | Message.installSnapshotReply term lastIndex nextOffset _ seq =>
      term < 2 ^ 64 ∧ lastIndex < 2 ^ 64 ∧ nextOffset < 2 ^ 64 ∧ seq < 2 ^ 64
  | Message.appendEntriesReply term _ matchIndex conflictIndex conflictTerm seq =>
      term < 2 ^ 64 ∧ matchIndex < 2 ^ 64 ∧ conflictIndex < 2 ^ 64 ∧
        (forall t, conflictTerm = some t -> t < 2 ^ 64) ∧ seq < 2 ^ 64
  | Message.readIndex term id => term < 2 ^ 64 ∧ id < 2 ^ 64
  | Message.readIndexReply term id index =>
      term < 2 ^ 64 ∧ id < 2 ^ 64 ∧ forall i, index = some i -> i < 2 ^ 64

theorem length_encodeMembers (members : List Member) :
    (encodeMembers members).length =
      4 + (members.flatMap encodeMember).length := by
  rw [encodeMembers_eq, List.length_append, length_leBytes]

/-- Members whose encoding is not beyond 4 GiB have a count and contexts that are
not either. -/
theorem membersFit {members : List Member} (hwide : MembersWide members)
    (hlength : (encodeMembers members).length < 2 ^ 32) : MembersFit members := by
  rw [length_encodeMembers] at hlength
  constructor
  · have hcount := thirteen_mul_le members
    omega
  · intro member hmem
    constructor
    · exact hwide member hmem
    · obtain ⟨before, after, rfl⟩ := List.append_of_mem hmem
      rw [List.flatMap_append, List.flatMap_cons, List.length_append,
        List.length_append, length_encodeMember] at hlength
      omega

/-!
# Parts of a message
-/

theorem bytes_reads {slice : Bytes} {len : Nat} (h : slice.length = len) :
    Reads (bytes len) slice slice :=
  takeBytes_append h

theorem u8_reads (byte : UInt8) : Reads u8 [byte] byte :=
  (bytes_reads (List.length_singleton)).map (Reads.pure byte)

theorem bool_reads (flag : Bool) : Reads bool (putBool flag) flag := by
  cases flag with
  | false => exact (u8_reads 0).map (Reads.pure false)
  | true => exact (u8_reads 1).map (Reads.pure true)

theorem u64_reads {n : Nat} (h : n < 2 ^ 64) : Reads u64 (leBytes 8 n) n := by
  refine (bytes_reads (length_leBytes 8 n)).map ?_
  have hround : fromLe (leBytes 8 n) = n := fromLe_leBytes_of_lt h
  rw [hround]
  exact Reads.pure n

theorem membersOf_reads {members : List Member} (hwide : MembersWide members)
    (hlength : (encodeMembers members).length < 2 ^ 32) :
    Reads (membersOf (encodeMembers members).length) (encodeMembers members)
      members :=
  (bytes_reads rfl).map
    (Reads.ofOption (decodeMembers_encodeMembers (membersFit hwide hlength)))

theorem membersOf_spends (members : List Member) :
    Spends (membersOf (encodeMembers members).length) (encodeMembers members) :=
  (bytes_reads rfl).spends.map (fun _ => Spends.ofOption _)

theorem putU64_cons (n : Nat) (ns : List Nat) :
    putU64 (n :: ns) = leBytes 8 n ++ putU64 ns := rfl

theorem length_putU64 (values : List Nat) :
    (putU64 values).length = 8 * values.length := by
  induction values with
  | nil => rfl
  | cons n ns ih =>
      rw [putU64_cons, List.length_append, length_leBytes, ih, List.length_cons]
      omega

theorem length_putBool (flag : Bool) : (putBool flag).length = 1 := rfl

theorem putU64_nil : putU64 [] = [] := rfl

theorem members_reads {ms : Option (List Member)}
    (hwide : forall members, ms = some members -> MembersWide members)
    (hlength : (putMembers ms).length < 2 ^ 32) :
    Reads members (putMembers ms) ms := by
  cases ms with
  | none => exact (bool_reads false).map (Reads.pure none)
  | some ms =>
      have hshort : (encodeMembers ms).length < 2 ^ 32 := by
        simp only [putMembers, List.length_append] at hlength
        omega
      rw [putMembers, List.append_assoc]
      refine (bool_reads true).bind ?_
      rw [putU64_cons, putU64_nil, List.append_nil]
      refine (u64_reads (by omega)).bind ?_
      exact (membersOf_reads (hwide ms rfl) hshort).map (Reads.pure (some ms))

theorem members_spends {ms : Option (List Member)}
    (hlength : (putMembers ms).length < 2 ^ 64) :
    Spends members (putMembers ms) := by
  cases ms with
  | none => exact ((bool_reads false).map (Reads.pure none)).spends
  | some ms =>
      have hshort : (encodeMembers ms).length < 2 ^ 64 := by
        simp only [putMembers, List.length_append] at hlength
        omega
      rw [putMembers, List.append_assoc]
      refine (bool_reads true).bind_spends ?_
      rw [putU64_cons, putU64_nil, List.append_nil]
      refine (u64_reads hshort).bind_spends ?_
      exact (membersOf_spends ms).map (fun read => (Reads.pure (some read)).spends)

/-!
# Entries
-/

def putCommand : Command -> Bytes
  | Command.noop => [entryNoop] ++ putU64 [0]
  | Command.data bytes => [entryData] ++ putU64 [bytes.length] ++ bytes
  | Command.config members =>
      [entryConfig] ++ putU64 [(encodeMembers members).length] ++
        encodeMembers members

theorem putEntry_eq (e : Entry) :
    putEntry e =
      leBytes 8 e.term ++ (leBytes 8 e.index ++ putCommand e.command) := by
  cases e with
  | mk term index command =>
      cases command <;>
        simp [putEntry, putCommand, putU64_cons, putU64_nil]

def taggedCommand : Reader UInt8 Command := do
  let kind ← u8
  let len ← u64
  command kind len

theorem entry_eq :
    entry = (do
      let term ← u64
      let index ← u64
      let command ← taggedCommand
      return { term := term, index := index, command := command }) := by
  unfold entry taggedCommand
  simp only [bind_assoc]

theorem taggedCommand_reads {c : Command} (hwide : CommandWide c)
    (hlength : (putCommand c).length < 2 ^ 32) :
    Reads taggedCommand (putCommand c) c := by
  unfold taggedCommand
  cases c with
  | noop =>
      refine (u8_reads entryNoop).bind ?_
      exact (u64_reads (by decide)).map (Reads.pure Command.noop)
  | data slice =>
      have hshort : slice.length < 2 ^ 64 := by
        simp only [putCommand, List.length_append] at hlength
        omega
      rw [putCommand, List.append_assoc]
      refine (u8_reads entryData).bind ?_
      refine (u64_reads hshort).bind ?_
      exact (bytes_reads rfl).map (Reads.pure (Command.data slice))
  | config members =>
      have hshort : (encodeMembers members).length < 2 ^ 32 := by
        simp only [putCommand, List.length_append] at hlength
        omega
      rw [putCommand, List.append_assoc]
      refine (u8_reads entryConfig).bind ?_
      refine (u64_reads (by omega)).bind ?_
      exact (membersOf_reads hwide hshort).map
        (Reads.pure (Command.config members))

theorem taggedCommand_spends {c : Command}
    (hlength : (putCommand c).length < 2 ^ 64) :
    Spends taggedCommand (putCommand c) := by
  unfold taggedCommand
  cases c with
  | noop =>
      refine (u8_reads entryNoop).bind_spends ?_
      exact ((u64_reads (by decide)).map (Reads.pure Command.noop)).spends
  | data slice =>
      have hshort : slice.length < 2 ^ 64 := by
        simp only [putCommand, List.length_append] at hlength
        omega
      rw [putCommand, List.append_assoc]
      refine (u8_reads entryData).bind_spends ?_
      refine (u64_reads hshort).bind_spends ?_
      exact ((bytes_reads rfl).map (Reads.pure (Command.data slice))).spends
  | config members =>
      have hshort : (encodeMembers members).length < 2 ^ 64 := by
        simp only [putCommand, List.length_append] at hlength
        omega
      rw [putCommand, List.append_assoc]
      refine (u8_reads entryConfig).bind_spends ?_
      refine (u64_reads hshort).bind_spends ?_
      exact (membersOf_spends members).map
        (fun read => (Reads.pure (Command.config read)).spends)

theorem entry_reads {e : Entry} (hwide : EntryWide e)
    (hlength : (putEntry e).length < 2 ^ 32) : Reads entry (putEntry e) e := by
  rw [putEntry_eq] at hlength ⊢
  have hcommand : (putCommand e.command).length < 2 ^ 32 := by
    simp only [List.length_append] at hlength
    omega
  rw [entry_eq]
  refine (u64_reads hwide.1).bind ?_
  refine (u64_reads hwide.2.1).bind ?_
  exact (taggedCommand_reads hwide.2.2 hcommand).map (Reads.pure e)

theorem entry_spends {e : Entry} (hwide : EntryWide e)
    (hlength : (putEntry e).length < 2 ^ 64) : Spends entry (putEntry e) := by
  rw [putEntry_eq] at hlength ⊢
  have hcommand : (putCommand e.command).length < 2 ^ 64 := by
    simp only [List.length_append] at hlength
    omega
  rw [entry_eq]
  refine (u64_reads hwide.1).bind_spends ?_
  refine (u64_reads hwide.2.1).bind_spends ?_
  exact (taggedCommand_spends hcommand).map (fun _ => (Reads.pure _).spends)

theorem entries_reads {es : List Entry}
    (hwide : forall e, e ∈ es -> EntryWide e)
    (hlength : (es.flatMap putEntry).length < 2 ^ 32) :
    Reads (entries es.length) (es.flatMap putEntry) es := by
  induction es with
  | nil => exact Reads.pure []
  | cons e es ih =>
      rw [List.flatMap_cons, List.length_append] at hlength
      rw [List.flatMap_cons]
      refine (entry_reads (hwide e List.mem_cons_self) (by omega)).bind ?_
      refine Reads.map ?_ (Reads.pure (e :: es))
      exact ih (fun other hother => hwide other (List.mem_cons_of_mem _ hother))
        (by omega)

theorem entries_spends {es : List Entry}
    (hwide : forall e, e ∈ es -> EntryWide e)
    (hlength : (es.flatMap putEntry).length < 2 ^ 64) :
    Spends (entries es.length) (es.flatMap putEntry) := by
  induction es with
  | nil => exact (Reads.pure []).spends
  | cons e es ih =>
      rw [List.flatMap_cons, List.length_append] at hlength
      rw [List.flatMap_cons]
      refine (entry_spends (hwide e List.mem_cons_self) (by omega)).bind
        (fun first => ?_)
      refine Spends.map ?_ (fun rest => (Reads.pure (first :: rest)).spends)
      exact ih (fun other hother => hwide other (List.mem_cons_of_mem _ hother))
        (by omega)

theorem length_le_flatMap_putEntry (es : List Entry) :
    es.length <= (es.flatMap putEntry).length := by
  induction es with
  | nil => exact Nat.le_refl 0
  | cons e es ih =>
      rw [List.flatMap_cons, List.length_append, List.length_cons, putEntry_eq,
        List.length_append, length_leBytes]
      omega

/-!
# Messages
-/

theorem payload_reads (room : Nat) {tag : UInt8} {written : Bytes} {m : Message}
    (h : Reads (payload room tag) written m) :
    Reads (message room) ([tag] ++ written) m :=
  (u8_reads tag).bind h

theorem payload_spends (room : Nat) {tag : UInt8} {written : Bytes}
    (h : Spends (payload room tag) written) :
    Spends (message room) ([tag] ++ written) :=
  (u8_reads tag).bind_spends h

theorem three_reads {a b c : Nat} {f : Nat -> Nat -> Nat -> Message}
    (ha : a < 2 ^ 64) (hb : b < 2 ^ 64) (hc : c < 2 ^ 64) :
    Reads (do
      let a ← u64
      let b ← u64
      let c ← u64
      return f a b c) (putU64 [a, b, c]) (f a b c) :=
  (u64_reads ha).bind ((u64_reads hb).bind ((u64_reads hc).bind
    (Reads.pure (f a b c))))

theorem reply_reads {term : Nat} {flag : Bool} {f : Nat -> Bool -> Message}
    (hterm : term < 2 ^ 64) :
    Reads (do
      let term ← u64
      let flag ← bool
      return f term flag) (putU64 [term] ++ putBool flag) (f term flag) := by
  rw [putU64_cons, putU64_nil, List.append_nil]
  exact (u64_reads hterm).bind ((bool_reads flag).map (Reads.pure (f term flag)))

theorem flagged_reads {b : Bool} {o : Option Nat} {n : Nat}
    {f : Option Nat -> Message} (hn : n < 2 ^ 64)
    (h : (if b then some n else none) = o) :
    Reads (do
      let b ← bool
      let n ← u64
      return f (if b then some n else none)) (putBool b ++ putU64 [n])
      (f o) := by
  subst h
  rw [putU64_cons, putU64_nil, List.append_nil]
  exact (bool_reads b).bind ((u64_reads hn).map (Reads.pure _))

theorem plain_reads {m : Message} (hplain : m.carriesBytes = false)
    (hwide : MessageWide m) (room : Nat) : Reads (message room) (encode m) m := by
  cases m with
  | preVote term lastLogIndex lastLogTerm =>
      rcases hwide with ⟨hterm, hindex, hlast⟩
      exact payload_reads room (three_reads hterm hindex hlast)
  | preVoteReply term granted =>
      rw [encode, List.append_assoc]
      exact payload_reads room (reply_reads hwide)
  | requestVote term lastLogIndex lastLogTerm =>
      rcases hwide with ⟨hterm, hindex, hlast⟩
      exact payload_reads room (three_reads hterm hindex hlast)
  | requestVoteReply term granted =>
      rw [encode, List.append_assoc]
      exact payload_reads room (reply_reads hwide)
  | appendEntries term prevLogIndex prevLogTerm entries leaderCommit seq =>
      cases hplain
  | installSnapshot term lastIndex lastTerm offset data done seq members =>
      cases hplain
  | installSnapshotReply term lastIndex nextOffset done seq =>
      rcases hwide with ⟨hterm, hindex, hoffset, hseq⟩
      rw [encode, List.append_assoc]
      apply payload_reads
      simp only [putU64_cons, putU64_nil, List.append_assoc, List.nil_append]
      refine (u64_reads hterm).bind ?_
      refine (u64_reads hindex).bind ?_
      refine (u64_reads hoffset).bind ?_
      refine (u64_reads hseq).bind ?_
      exact (bool_reads done).map (Reads.pure _)
  | appendEntriesReply term success matchIndex conflictIndex conflictTerm seq =>
      rcases hwide with ⟨hterm, hmatch, hindex, hconflict, hseq⟩
      have hlast : Reads (do
          let hasTerm ← bool
          let conflict ← u64
          return Message.appendEntriesReply term success matchIndex
            conflictIndex (if hasTerm then some conflict else none) seq)
          (putConflictTerm conflictTerm)
          (Message.appendEntriesReply term success matchIndex conflictIndex
            conflictTerm seq) := by
        cases conflictTerm with
        | none =>
            exact flagged_reads (b := false) (o := none) (n := 0)
              (f := fun c => Message.appendEntriesReply term success matchIndex
                conflictIndex c seq) (by decide) rfl
        | some t =>
            exact flagged_reads (b := true) (o := some t) (n := t)
              (f := fun c => Message.appendEntriesReply term success matchIndex
                conflictIndex c seq) (hconflict t rfl) rfl
      rw [encode, List.append_assoc, List.append_assoc]
      apply payload_reads
      simp only [putU64_cons, putU64_nil, List.append_assoc, List.nil_append]
      refine (u64_reads hterm).bind ?_
      refine (u64_reads hmatch).bind ?_
      refine (u64_reads hindex).bind ?_
      refine (u64_reads hseq).bind ?_
      exact (bool_reads success).bind hlast
  | readIndex term id =>
      exact payload_reads room
        ((u64_reads hwide.1).bind ((u64_reads hwide.2).bind (Reads.pure _)))
  | readIndexReply term id index =>
      rcases hwide with ⟨hterm, hid, hindex⟩
      have hlast : Reads (do
          let hasIndex ← bool
          let index ← u64
          return Message.readIndexReply term id
            (if hasIndex then some index else none))
          (putBool index.isSome ++ putU64 [index.getD 0])
          (Message.readIndexReply term id index) := by
        cases index with
        | none =>
            exact flagged_reads (o := none)
              (f := Message.readIndexReply term id) (by decide) rfl
        | some i =>
            exact flagged_reads (o := some i)
              (f := Message.readIndexReply term id) (hindex i rfl) rfl
      rw [encode, List.append_assoc, List.append_assoc]
      apply payload_reads
      rw [putU64_cons, putU64_cons, putU64_nil, List.append_nil, List.append_assoc]
      exact (u64_reads hterm).bind ((u64_reads hid).bind hlast)

theorem message_reads {m : Message} (hwide : MessageWide m)
    (hlength : (encode m).length < 2 ^ 32) {room : Nat}
    (hroom : (encode m).length <= room) : Reads (message room) (encode m) m := by
  cases m with
  | appendEntries term prevLogIndex prevLogTerm es leaderCommit seq =>
      rcases hwide with ⟨hterm, hindex, hprev, hcommit, hseq, hes⟩
      have hcount := length_le_flatMap_putEntry es
      simp only [encode, List.length_append] at hlength hroom
      have hbelieved : ¬ es.length > room := by omega
      have hlast : Reads (do
          let entries ← entries es.length
          return Message.appendEntries term prevLogIndex prevLogTerm entries
            leaderCommit seq) (es.flatMap putEntry)
          (Message.appendEntries term prevLogIndex prevLogTerm es leaderCommit
            seq) :=
        (entries_reads hes (by omega)).map (Reads.pure _)
      rw [encode, List.append_assoc]
      apply payload_reads
      simp only [putU64_cons, putU64_nil, List.append_assoc, List.nil_append]
      refine (u64_reads hterm).bind ?_
      refine (u64_reads hindex).bind ?_
      refine (u64_reads hprev).bind ?_
      refine (u64_reads hcommit).bind ?_
      refine (u64_reads hseq).bind ?_
      refine (u64_reads (by omega)).bind ?_
      rw [if_neg hbelieved]
      exact hlast
  | installSnapshot term lastIndex lastTerm offset data done seq ms =>
      rcases hwide with ⟨hterm, hindex, hlast, hoffset, hseq, hms⟩
      simp only [encode, List.length_append] at hlength
      rw [encode, List.append_assoc, List.append_assoc, List.append_assoc]
      apply payload_reads
      simp only [putU64_cons, putU64_nil, List.append_assoc, List.nil_append]
      refine (u64_reads hterm).bind ?_
      refine (u64_reads hindex).bind ?_
      refine (u64_reads hlast).bind ?_
      refine (u64_reads hoffset).bind ?_
      refine (u64_reads hseq).bind ?_
      refine (u64_reads (by omega)).bind ?_
      refine (bytes_reads rfl).bind ?_
      refine (bool_reads done).bind ?_
      exact (members_reads hms (by omega)).map (Reads.pure _)
  | preVote | preVoteReply | requestVote | requestVoteReply
  | installSnapshotReply | appendEntriesReply | readIndex | readIndexReply =>
      exact plain_reads rfl hwide room

/-- Whatever the room, the reader does not stop inside of a message. -/
theorem message_spends {m : Message} (hwide : MessageWide m)
    (hlength : (encode m).length < 2 ^ 64) (room : Nat) :
    Spends (message room) (encode m) := by
  cases m with
  | appendEntries term prevLogIndex prevLogTerm es leaderCommit seq =>
      rcases hwide with ⟨hterm, hindex, hprev, hcommit, hseq, hes⟩
      have hcount := length_le_flatMap_putEntry es
      simp only [encode, List.length_append] at hlength
      have hlast : Spends (do
          let entries ← entries es.length
          return Message.appendEntries term prevLogIndex prevLogTerm entries
            leaderCommit seq) (es.flatMap putEntry) :=
        (entries_spends hes (by omega)).map (fun _ => (Reads.pure _).spends)
      rw [encode, List.append_assoc]
      apply payload_spends
      simp only [putU64_cons, putU64_nil, List.append_assoc, List.nil_append]
      refine (u64_reads hterm).bind_spends ?_
      refine (u64_reads hindex).bind_spends ?_
      refine (u64_reads hprev).bind_spends ?_
      refine (u64_reads hcommit).bind_spends ?_
      refine (u64_reads hseq).bind_spends ?_
      refine (u64_reads (by omega)).bind_spends ?_
      split
      · exact Spends.fail _
      · exact hlast
  | installSnapshot term lastIndex lastTerm offset data done seq ms =>
      rcases hwide with ⟨hterm, hindex, hlast, hoffset, hseq, hms⟩
      simp only [encode, List.length_append] at hlength
      rw [encode, List.append_assoc, List.append_assoc, List.append_assoc]
      apply payload_spends
      simp only [putU64_cons, putU64_nil, List.append_assoc, List.nil_append]
      refine (u64_reads hterm).bind_spends ?_
      refine (u64_reads hindex).bind_spends ?_
      refine (u64_reads hlast).bind_spends ?_
      refine (u64_reads hoffset).bind_spends ?_
      refine (u64_reads hseq).bind_spends ?_
      refine (u64_reads (by omega)).bind_spends ?_
      refine (bytes_reads rfl).bind_spends ?_
      refine (bool_reads done).bind_spends ?_
      exact (members_spends (by omega)).map (fun _ => (Reads.pure _).spends)
  | preVote | preVoteReply | requestVote | requestVoteReply
  | installSnapshotReply | appendEntriesReply | readIndex | readIndexReply =>
      exact (plain_reads rfl hwide room).spends

theorem decode_encode {m : Message} (hwide : MessageWide m)
    (hlength : (encode m).length < 2 ^ 32) : decode (encode m) = some m := by
  have hread := message_reads hwide hlength (Nat.le_refl _) []
  rw [List.append_nil] at hread
  unfold decode
  rw [hread]
  rfl

/-!
# Frames
-/

/-- What a node can hand to `writeMessage` and still be heard. -/
structure Sendable (pair : NodeId × Message) : Prop where
  sender : pair.1 < 2 ^ 64
  wide : MessageWide pair.2
  short : (encode pair.2).length <= maxFrame - 12

theorem readMessage_fields {a b c d : Bytes} (ha : a.length = 4) (hb : b.length = 4)
    (hc : c.length = 4) (hd : d.length = 8) (stream : Bytes) :
    readMessage (a ++ b ++ c ++ d ++ stream) =
      readFrame (fromLe a) (fromLe b) (fromLe c) (fromLe d) stream := by
  have hlong : ¬ (a ++ b ++ c ++ d ++ stream).length < prefixLen := by
    simp only [List.length_append, ha, hb, hc, hd, prefixLen]
    omega
  have hfirst : slice (a ++ b ++ c ++ d ++ stream) 0 4 = a := by
    have hstop : 0 + a.length = 4 := by omega
    simpa using slice_append [] a (b ++ (c ++ (d ++ stream))) rfl hstop
  have hlen : slice (a ++ b ++ c ++ d ++ stream) 4 8 = b := by
    have hstop : 4 + b.length = 8 := by omega
    simpa using slice_append a b (c ++ (d ++ stream)) ha hstop
  have hcrc : slice (a ++ b ++ c ++ d ++ stream) 8 12 = c := by
    have hbefore : (a ++ b).length = 8 := by
      rw [List.length_append, ha, hb]
    have hstop : 8 + c.length = 12 := by omega
    simpa using slice_append (a ++ b) c (d ++ stream) hbefore hstop
  have hsender : slice (a ++ b ++ c ++ d ++ stream) 12 20 = d := by
    have hbefore : (a ++ b ++ c).length = 12 := by
      rw [List.length_append, List.length_append, ha, hb, hc]
    exact slice_append (a ++ b ++ c) d stream hbefore (by omega)
  have hdrop : (a ++ b ++ c ++ d ++ stream).drop prefixLen = stream := by
    apply List.drop_left'
    simp only [List.length_append, ha, hb, hc, hd, prefixLen]
  unfold readMessage
  rw [if_neg hlong, hfirst, hlen, hcrc, hsender, hdrop]

theorem readMessage_header {pair : NodeId × Message} (h : Sendable pair)
    (stream : Bytes) :
    readMessage (leBytes 4 magic ++ leBytes 4 ((encode pair.2).length + 12) ++
        leBytes 4 (crc32Parts [encode pair.2]).toNat ++ leBytes 8 pair.1 ++
        stream) =
      readFrame magic ((encode pair.2).length + 12)
        (crc32Parts [encode pair.2]).toNat pair.1 stream := by
  have hshort := h.short
  unfold maxFrame at hshort
  have hlen : fromLe (leBytes 4 ((encode pair.2).length + 12)) =
      (encode pair.2).length + 12 :=
    fromLe_leBytes_of_lt (by omega)
  have hcrc : fromLe (leBytes 4 (crc32Parts [encode pair.2]).toNat) =
      (crc32Parts [encode pair.2]).toNat :=
    fromLe_leBytes_of_lt (crc32Parts [encode pair.2]).toNat_lt
  have hsender : fromLe (leBytes 8 pair.1) = pair.1 :=
    fromLe_leBytes_of_lt h.sender
  have hmagic : fromLe (leBytes 4 magic) = magic := by decide
  rw [readMessage_fields (length_leBytes 4 _) (length_leBytes 4 _)
    (length_leBytes 4 _) (length_leBytes 8 _), hlen, hcrc, hsender, hmagic]

theorem readMessage_frame {pair : NodeId × Message} (h : Sendable pair)
    (rest : Bytes) :
    readMessage (frame pair.1 pair.2 ++ rest) = Except.ok (some (pair, rest)) := by
  have hshort := h.short
  have hmax : maxFrame = 67108864 := by decide
  have hplausible : 12 <= (encode pair.2).length + 12 ∧
      (encode pair.2).length + 12 <= maxFrame := by
    omega
  have htake : takeBytes ((encode pair.2).length + 12 - 12)
      (encode pair.2 ++ rest) = some (encode pair.2, rest) :=
    takeBytes_append (by omega) rest
  have hdecode : decode (encode pair.2) = some pair.2 :=
    decode_encode h.wide (by omega)
  unfold frame
  dsimp only
  rw [List.append_assoc, readMessage_header h]
  unfold readFrame
  rw [if_neg (by simp), if_neg (not_not.mpr hplausible), htake]
  dsimp only
  rw [if_neg (by simp), hdecode]

/-- The stream ends inside of a body. -/
theorem readMessage_cut {pair : NodeId × Message} (h : Sendable pair) {k : Nat}
    (hk : k < (encode pair.2).length) :
    readMessage ((frame pair.1 pair.2).take (prefixLen + k)) =
      Except.error ReadError.unexpectedEof := by
  have hshort := h.short
  have hmax : maxFrame = 67108864 := by decide
  have hplausible : 12 <= (encode pair.2).length + 12 ∧
      (encode pair.2).length + 12 <= maxFrame := by
    omega
  have htake : takeBytes ((encode pair.2).length + 12 - 12)
      ((encode pair.2).take k) = none := by
    unfold takeBytes
    rw [if_neg]
    rw [List.length_take]
    omega
  have hfront : (frame pair.1 pair.2).take (prefixLen + k) =
      leBytes 4 magic ++ leBytes 4 ((encode pair.2).length + 12) ++
        leBytes 4 (crc32Parts [encode pair.2]).toNat ++ leBytes 8 pair.1 ++
        (encode pair.2).take k := by
    have hstarts : (leBytes 4 magic ++
        leBytes 4 ((encode pair.2).length + 12) ++
        leBytes 4 (crc32Parts [encode pair.2]).toNat ++
        leBytes 8 pair.1).length = prefixLen := by
      simp only [List.length_append, length_leBytes, prefixLen]
    unfold frame
    dsimp only
    rw [← hstarts, List.take_length_add_append]
  rw [hfront, readMessage_header h]
  unfold readFrame
  rw [if_neg (by simp), if_neg (not_not.mpr hplausible), htake]

/-!
# Streams
-/

def writeAll (pairs : List (NodeId × Message)) : Bytes :=
  pairs.foldl (fun w pair => writeMessage w pair.1 pair.2) []

theorem foldl_writeMessage (pairs : List (NodeId × Message)) (w : Bytes) :
    pairs.foldl (fun w pair => writeMessage w pair.1 pair.2) w =
      w ++ pairs.flatMap (fun pair => frame pair.1 pair.2) := by
  induction pairs generalizing w with
  | nil => simp
  | cons pair pairs ih =>
      rw [List.foldl_cons, ih, writeMessage, List.flatMap_cons, List.append_assoc]

theorem writeAll_append (before after : List (NodeId × Message)) :
    writeAll (before ++ after) =
      writeAll before ++ after.flatMap (fun pair => frame pair.1 pair.2) := by
  unfold writeAll
  rw [List.foldl_append, foldl_writeMessage after]

theorem writeAll_eq (pairs : List (NodeId × Message)) :
    writeAll pairs = pairs.flatMap (fun pair => frame pair.1 pair.2) :=
  writeAll_append [] pairs

theorem readFromPeer_end {stream : Bytes} (h : readMessage stream = Except.ok none) :
    readFromPeer stream = ([], none) := by
  rw [readFromPeer]
  split <;> simp_all

theorem readFromPeer_error {stream : Bytes} {e : ReadError}
    (h : readMessage stream = Except.error e) :
    readFromPeer stream = ([], some e) := by
  rw [readFromPeer]
  split <;> simp_all

theorem readFromPeer_some {stream rest : Bytes} {pair : NodeId × Message}
    (h : readMessage stream = Except.ok (some (pair, rest))) :
    readFromPeer stream =
      (pair :: (readFromPeer rest).1, (readFromPeer rest).2) := by
  rw [readFromPeer]
  split <;> simp_all

/-- Whole frames are delivered, and what is behind them is read next. -/
theorem readFromPeer_frames {pairs : List (NodeId × Message)}
    (h : forall pair, pair ∈ pairs -> Sendable pair) (rest : Bytes) :
    readFromPeer (pairs.flatMap (fun pair => frame pair.1 pair.2) ++ rest) =
      (pairs ++ (readFromPeer rest).1, (readFromPeer rest).2) := by
  induction pairs with
  | nil => rfl
  | cons pair pairs ih =>
      have hread := readMessage_frame (h pair List.mem_cons_self)
        (pairs.flatMap (fun pair => frame pair.1 pair.2) ++ rest)
      rw [List.flatMap_cons, List.append_assoc, readFromPeer_some hread,
        ih (fun other hother => h other (List.mem_cons_of_mem _ hother))]
      rfl

/-- Messages of any kinds, written to a stream in order, are read back as they were
and then the stream ends.  Where it is cut inside of a body, the messages before are
read and then the cut is reported. -/
theorem stream_round_trips (pairs : List (NodeId × Message))
    (h : forall pair, pair ∈ pairs -> Sendable pair) :
    readFromPeer (writeAll pairs) = (pairs, none) ∧
      forall before pair after, pairs = before ++ pair :: after ->
        forall k, k < (encode pair.2).length ->
          exists e,
            readFromPeer ((writeAll pairs).take
              ((writeAll before).length + prefixLen + k)) =
              (before, some e) := by
  constructor
  · have hend : readFromPeer [] = ([], none) := readFromPeer_end rfl
    have hall := readFromPeer_frames h []
    rw [List.append_nil, hend, List.append_nil] at hall
    rw [writeAll_eq]
    exact hall
  · rintro before pair after rfl k hk
    have hbefore : forall other, other ∈ before -> Sendable other :=
      fun other hother => h other (List.mem_append_left _ hother)
    have hcut := readMessage_cut
      (h pair (List.mem_append_right _ List.mem_cons_self)) hk
    have hfront : (writeAll (before ++ pair :: after)).take
        ((writeAll before).length + prefixLen + k) =
        before.flatMap (fun pair => frame pair.1 pair.2) ++
          (frame pair.1 pair.2).take (prefixLen + k) := by
      have hlong : prefixLen + k <= (frame pair.1 pair.2).length := by
        simp only [frame, List.length_append, length_leBytes, prefixLen]
        omega
      rw [writeAll_append, List.flatMap_cons, Nat.add_assoc,
        List.take_length_add_append, List.take_append_of_le_length hlong,
        writeAll_eq]
    refine ⟨ReadError.unexpectedEof, ?_⟩
    rw [hfront, readFromPeer_frames hbefore, readFromPeer_error hcut,
      List.append_nil]

def samplePairs : List (NodeId × Message) :=
  [(7, Message.readIndex 3 99),
    (2, Message.appendEntries 4 8 3
      [{ term := 4, index := 9, command := Command.noop },
        { term := 4, index := 10, command := Command.data [13, 10] },
        { term := 4, index := 11,
          command := Command.config
            [{ id := 1, context := [97], learner := true }] }] 8 5)]

theorem samplePairs_sendable {pair : NodeId × Message} (h : pair ∈ samplePairs) :
    Sendable pair := by
  simp only [samplePairs, List.mem_cons, List.not_mem_nil, or_false] at h
  rcases h with rfl | rfl
  · constructor
    · decide
    · exact ⟨by decide, by decide⟩
    · decide
  · constructor
    · decide
    · refine ⟨by decide, by decide, by decide, by decide, by decide, ?_⟩
      intro e he
      simp only [List.mem_cons, List.not_mem_nil, or_false] at he
      rcases he with rfl | rfl | rfl
      · exact ⟨by decide, by decide, trivial⟩
      · exact ⟨by decide, by decide, trivial⟩
      · refine ⟨by decide, by decide, ?_⟩
        intro member hmem
        rw [List.mem_singleton.mp hmem]
        decide
    · decide +kernel

theorem stream_round_trips_two :
    readFromPeer (writeAll samplePairs) = (samplePairs, none) :=
  (stream_round_trips samplePairs (fun _ => samplePairs_sendable)).1

end Wire
end Raft
end Minicask
