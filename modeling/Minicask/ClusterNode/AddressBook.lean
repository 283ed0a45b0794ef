import Minicask.Raft.Hosts
import Minicask.Text

/-!
# The address book

`AddressBook` of `cluster.rs`: where to reach every node.  The configured peers are
fixed, members known from the log come and go with the membership.  A sender is the
address that its thread dials.
-/

namespace Minicask
namespace ClusterNode

open Raft

structure Peer where
  id : NodeId
  raftAddr : String
  clientAddr : String
deriving Repr, DecidableEq

def memberContext (raftAddr clientAddr : String) : Bytes :=
  Text.asBytes (raftAddr ++ " " ++ clientAddr)

/-- The text before and after the first space. -/
def splitOnce (text : String) : Option (String × String) :=
  if ' ' ∈ text.toList then
    some (String.ofList (text.toList.takeWhile (fun c => c != ' ')),
      String.ofList ((text.toList.dropWhile (fun c => c != ' ')).drop 1))
  else none

def parseContext (context : Bytes) : Option (String × String) :=
  (Text.fromUtf8 context).bind splitOnce

structure AddressBook where
  me : NodeId
  configured : Table Peer
  senders : Table String := Table.empty
  clientAddrs : Table String := Table.empty
  /-- The membership index the book was last brought up to date with. -/
  seen : Nat

namespace AddressBook

def connect (book : AddressBook) (id : NodeId) (raftAddr clientAddr : String) :
    AddressBook :=
  if id = book.me || (book.senders id).isSome then book
  else
    { book with
      senders := book.senders.insert id raftAddr
      clientAddrs := book.clientAddrs.insert id clientAddr }

def connectMember (book : AddressBook) (member : Member) : AddressBook :=
  match book.configured member.id with
  | some peer => book.connect member.id peer.raftAddr peer.clientAddr
  | none =>
      match parseContext member.context with
      | some (raft, client) => book.connect member.id raft client
      | none => book

def update (book : AddressBook) (members : List Member) : AddressBook :=
  let book := members.foldl connectMember book
  let keep := members.map Member.id
  let kept := fun id => keep.contains id || (book.configured id).isSome
  { book with
    senders := book.senders.retain kept
    clientAddrs := book.clientAddrs.retain kept }

def followMembership (book : AddressBook) (index : Nat)
    (members : List Member) : AddressBook :=
  if book.seen = index then book
  else { book.update members with seen := index }

/-- The last of two peers with one id stays. -/
def configuredPeers (peers : List Peer) : Table Peer :=
  peers.foldl (fun t p => t.insert p.id p) Table.empty

def bind (me : NodeId) (peers : List Peer) (index : Nat)
    (members : List Member) : AddressBook :=
  let book : AddressBook :=
    { me := me, configured := configuredPeers peers, seen := index }
  (peers.foldl (fun book p => book.connect p.id p.raftAddr p.clientAddr)
    book).update members

end AddressBook

/-!
# What the book should say

The book has an entry for each node that can be reached, under the address in its
configuration, or else the one in the membership.
-/

def addressIn (members : List Member) (id : NodeId) : Option (String × String) :=
  (members.find? (fun m => m.id == id)).bind (fun m => parseContext m.context)

/-- Where a node is to be reached: at its configured address, or else where the
membership says. -/
def addressOf (me : NodeId) (configured : Table Peer) (members : List Member)
    (id : NodeId) : Option (String × String) :=
  if id = me then none
  else
    match configured id with
    | some peer => some (peer.raftAddr, peer.clientAddr)
    | none => addressIn members id

/-- Every context holds two addresses. -/
def WellFormed (members : List Member) : Prop :=
  forall m, m ∈ members -> (parseContext m.context).isSome = true

def entryFor (address : Option (String × String)) :
    Option String × Option String :=
  (address.map Prod.fst, address.map Prod.snd)

namespace AddressBook

def entry (book : AddressBook) (id : NodeId) : Option String × Option String :=
  (book.senders id, book.clientAddrs id)

/-- The book says where everyone is, and has nobody else. -/
def Right (book : AddressBook) (members : List Member) : Prop :=
  forall id, book.entry id =
    entryFor (addressOf book.me book.configured members id)

theorem connect_fixed (book : AddressBook) (id : NodeId)
    (raftAddr clientAddr : String) :
    (book.connect id raftAddr clientAddr).me = book.me ∧
      (book.connect id raftAddr clientAddr).configured = book.configured ∧
      (book.connect id raftAddr clientAddr).seen = book.seen := by
  unfold connect
  split
  · exact ⟨rfl, rfl, rfl⟩
  · exact ⟨rfl, rfl, rfl⟩

theorem entry_connect (book : AddressBook) (id other : NodeId)
    (raftAddr clientAddr : String) :
    (book.connect id raftAddr clientAddr).entry other =
      if other = id ∧ id ≠ book.me ∧ book.senders id = none then
        (some raftAddr, some clientAddr)
      else book.entry other := by
  unfold connect
  split
  · next hskip =>
      rw [if_neg]
      intro hnew
      rw [Bool.or_eq_true, decide_eq_true_eq] at hskip
      rcases hskip with heq | hknown
      · exact hnew.2.1 heq
      · rw [hnew.2.2] at hknown
        cases hknown
  · next hnew =>
      rw [Bool.or_eq_true, decide_eq_true_eq, not_or, Option.not_isSome_iff_eq_none]
        at hnew
      by_cases hother : other = id
      · rw [if_pos ⟨hother, hnew⟩, hother]
        simp [entry, Table.insert]
      · rw [if_neg (fun h => hother h.1)]
        simp [entry, Table.insert, hother]

theorem sender_of_entry {book : AddressBook} {id : NodeId}
    {address : Option (String × String)} (h : book.entry id = entryFor address) :
    book.senders id = address.map Prod.fst :=
  congrArg Prod.fst h

def connectAll (book : AddressBook)
    (places : List (NodeId × String × String)) : AddressBook :=
  places.foldl (fun book place => book.connect place.1 place.2.1 place.2.2) book

theorem connectAll_cons (book : AddressBook) (place : NodeId × String × String)
    (places : List (NodeId × String × String)) :
    book.connectAll (place :: places) =
      (book.connect place.1 place.2.1 place.2.2).connectAll places :=
  rfl

theorem connectAll_fixed (places : List (NodeId × String × String))
    (book : AddressBook) :
    (book.connectAll places).me = book.me ∧
      (book.connectAll places).configured = book.configured ∧
      (book.connectAll places).seen = book.seen := by
  induction places generalizing book with
  | nil => exact ⟨rfl, rfl, rfl⟩
  | cons place places ih =>
      obtain ⟨hme, hconfigured, hseen⟩ :=
        connect_fixed book place.1 place.2.1 place.2.2
      obtain ⟨ihme, ihconfigured, ihseen⟩ :=
        ih (book.connect place.1 place.2.1 place.2.2)
      exact ⟨ihme.trans hme, ihconfigured.trans hconfigured, ihseen.trans hseen⟩

theorem entry_connectAll_known {places : List (NodeId × String × String)}
    {book : AddressBook} {id : NodeId}
    (h : id = book.me ∨ book.senders id ≠ none) :
    (book.connectAll places).entry id = book.entry id := by
  induction places generalizing book with
  | nil => rfl
  | cons place places ih =>
      have hsame : (book.connect place.1 place.2.1 place.2.2).entry id =
          book.entry id := by
        rw [entry_connect, if_neg]
        intro hnew
        rcases h with hme | hknown
        · exact hnew.2.1 (hnew.1 ▸ hme)
        · exact hknown (hnew.1 ▸ hnew.2.2)
      have hsender : (book.connect place.1 place.2.1 place.2.2).senders id =
          book.senders id := congrArg Prod.fst hsame
      rw [connectAll_cons, ih, hsame]
      rw [(connect_fixed book place.1 place.2.1 place.2.2).1, hsender]
      exact h

theorem entry_connectAll_new {places : List (NodeId × String × String)}
    {book : AddressBook} {id : NodeId} (hme : id ≠ book.me)
    (hnew : book.senders id = none) :
    (book.connectAll places).entry id =
      ((places.find? (fun place => place.1 == id)).map
        (fun place => entryFor (some place.2))).getD (book.entry id) := by
  induction places generalizing book with
  | nil => rfl
  | cons place places ih =>
      have hentry := entry_connect book place.1 id place.2.1 place.2.2
      rw [connectAll_cons, List.find?_cons]
      cases hfirst : (place.1 == id) with
      | true =>
          have hid : place.1 = id := beq_iff_eq.mp hfirst
          rw [if_pos ⟨hid.symm, hid ▸ hme, hid ▸ hnew⟩] at hentry
          rw [entry_connectAll_known, hentry]
          · rfl
          · right
            have hsender : (book.connect place.1 place.2.1 place.2.2).senders id =
                some place.2.1 := congrArg Prod.fst hentry
            rw [hsender]
            nofun
      | false =>
          have hother : ¬ id = place.1 := fun heq =>
            absurd (beq_iff_eq.mpr heq.symm) (by rw [hfirst]; nofun)
          rw [if_neg (fun h => hother h.1)] at hentry
          rw [ih, hentry]
          · rw [(connect_fixed book place.1 place.2.1 place.2.2).1]
            exact hme
          · exact (congrArg Prod.fst hentry).trans hnew

def memberAddress (configured : Table Peer) (member : Member) :
    Option (String × String) :=
  match configured member.id with
  | some peer => some (peer.raftAddr, peer.clientAddr)
  | none => parseContext member.context

def memberPlaces (configured : Table Peer) (members : List Member) :
    List (NodeId × String × String) :=
  members.filterMap (fun m =>
    (memberAddress configured m).map (fun address => (m.id, address)))

theorem connectMember_eq (book : AddressBook) (member : Member) :
    book.connectMember member =
      book.connectAll (memberPlaces book.configured [member]) := by
  unfold connectMember memberPlaces memberAddress
  rw [List.filterMap_cons]
  cases book.configured member.id with
  | some peer => rfl
  | none =>
      cases parseContext member.context with
      | some address => rfl
      | none => rfl

theorem foldl_connectMember (members : List Member) (book : AddressBook) :
    members.foldl connectMember book =
      book.connectAll (memberPlaces book.configured members) := by
  induction members generalizing book with
  | nil => rfl
  | cons member members ih =>
      have hconfigured :=
        (connectAll_fixed (memberPlaces book.configured [member]) book).2.1
      rw [List.foldl_cons, ih, connectMember_eq, hconfigured]
      unfold memberPlaces connectAll
      rw [← List.foldl_append, ← List.filterMap_append]
      rfl

theorem find?_memberPlaces {members : List Member} (h : WellFormed members)
    (configured : Table Peer) (id : NodeId) :
    (memberPlaces configured members).find? (fun place => place.1 == id) =
      (members.find? (fun m => m.id == id)).bind (fun m =>
        (memberAddress configured m).map (fun address => (m.id, address))) := by
  induction members with
  | nil => rfl
  | cons member members ih =>
      have hrest := ih (fun m hm => h m (List.mem_cons_of_mem member hm))
      have hsome : exists address,
          memberAddress configured member = some address := by
        unfold memberAddress
        split
        · exact ⟨_, rfl⟩
        · exact Option.isSome_iff_exists.mp (h member List.mem_cons_self)
      rcases hsome with ⟨address, haddress⟩
      unfold memberPlaces at hrest ⊢
      rw [List.filterMap_cons, haddress, Option.map_some, List.find?_cons,
        List.find?_cons, hrest]
      cases hfirst : (member.id == id) with
      | true => rw [Option.bind_some, haddress, Option.map_some]
      | false => rfl

theorem update_fixed (book : AddressBook) (members : List Member) :
    (book.update members).me = book.me ∧
      (book.update members).configured = book.configured ∧
      (book.update members).seen = book.seen := by
  unfold update
  rw [foldl_connectMember]
  exact connectAll_fixed _ book

theorem entry_update (book : AddressBook) (members : List Member) (id : NodeId) :
    (book.update members).entry id =
      if ((members.map Member.id).contains id ||
          (book.configured id).isSome) = true then
        (book.connectAll (memberPlaces book.configured members)).entry id
      else entryFor none := by
  have hconfigured :=
    (connectAll_fixed (memberPlaces book.configured members) book).2.1
  unfold update entry Table.retain
  dsimp only
  rw [foldl_connectMember, hconfigured]
  split
  · rfl
  · rfl

theorem id_of_find? {members : List Member} {id : NodeId} {member : Member}
    (h : members.find? (fun m => m.id == id) = some member) : member.id = id := by
  have hfound := List.find?_some h
  exact beq_iff_eq.mp hfound

theorem contains_iff_find? (members : List Member) (id : NodeId) :
    (members.map Member.id).contains id = true ↔
      exists m, members.find? (fun m => m.id == id) = some m := by
  rw [List.contains_iff_mem, List.mem_map]
  constructor
  · intro h
    rcases h with ⟨m, hm, heq⟩
    cases hfind : members.find? (fun m => m.id == id) with
    | some found => exact ⟨found, rfl⟩
    | none =>
        exact absurd (beq_iff_eq.mpr heq) (List.find?_eq_none.mp hfind m hm)
  · intro h
    rcases h with ⟨m, hfind⟩
    exact ⟨m, List.mem_of_find?_eq_some hfind, id_of_find? hfind⟩

theorem entry_update_unconfigured {book : AddressBook} {members : List Member}
    (hformed : WellFormed members) {id : NodeId} (hme : id ≠ book.me)
    (hnone : book.configured id = none) :
    (book.update members).entry id =
      entryFor none ∧ addressIn members id = none ∨
    exists address, addressIn members id = some address ∧
      (book.update members).entry id =
        if book.senders id = none then entryFor (some address)
        else book.entry id := by
  rw [entry_update, hnone, Option.isSome_none, Bool.or_false]
  cases hfind : members.find? (fun m => m.id == id) with
  | none =>
      left
      rw [if_neg]
      · exact ⟨rfl, by rw [addressIn, hfind]; rfl⟩
      · rw [contains_iff_find?, hfind]
        nofun
  | some member =>
      right
      have hmember := List.mem_of_find?_eq_some hfind
      have hid := id_of_find? hfind
      rcases Option.isSome_iff_exists.mp (hformed member hmember) with
        ⟨address, haddress⟩
      have hplace : memberAddress book.configured member = some address := by
        rw [memberAddress, hid, hnone]
        exact haddress
      refine ⟨address, by rw [addressIn, hfind]; exact haddress, ?_⟩
      rw [if_pos ((contains_iff_find? members id).mpr ⟨member, hfind⟩)]
      split
      · next hnew =>
          rw [entry_connectAll_new hme hnew, find?_memberPlaces hformed, hfind,
            Option.bind_some, hplace]
          rfl
      · next hknown => exact entry_connectAll_known (Or.inr hknown)

theorem entryFor_inj {a b : Option (String × String)}
    (h : entryFor a = entryFor b) : a = b := by
  cases a with
  | none =>
      cases b with
      | none => rfl
      | some b => cases (Prod.mk.inj h).1
  | some a =>
      cases b with
      | none => cases (Prod.mk.inj h).1
      | some b =>
          have hraft : a.1 = b.1 := Option.some.inj (Prod.mk.inj h).1
          have hclient : a.2 = b.2 := Option.some.inj (Prod.mk.inj h).2
          rw [Prod.ext hraft hclient]

end AddressBook

/-- Between two looks at the membership, a node without a configured address has not
moved: it is where it was, or it was not a member before, or is not one now.  If the
index has not moved, nothing has. -/
def InStep (me : NodeId) (configured : Table Peer)
    (before after : Nat × List Member) : Prop :=
  forall id, id ≠ me -> configured id = none ->
    addressIn after.2 id = addressIn before.2 id ∨
      (after.1 ≠ before.1 ∧
        (addressIn before.2 id = none ∨ addressIn after.2 id = none))

namespace AddressBook

theorem followMembership_fixed (book : AddressBook) (index : Nat)
    (members : List Member) :
    (book.followMembership index members).me = book.me ∧
      (book.followMembership index members).configured = book.configured ∧
      (book.followMembership index members).seen = index := by
  unfold followMembership
  split
  · next hseen => exact ⟨rfl, rfl, hseen⟩
  · exact ⟨(update_fixed book members).1, (update_fixed book members).2.1, rfl⟩

theorem right_same_iff {book : AddressBook} {before after : List Member}
    (h : book.Right before) :
    book.Right after ↔ forall id, id ≠ book.me -> book.configured id = none ->
      addressIn after id = addressIn before id := by
  constructor
  · intro hright id hme hnone
    have heq := entryFor_inj ((hright id).symm.trans (h id))
    simp only [addressOf, if_neg hme, hnone] at heq
    exact heq
  · intro hsame id
    rw [h id]
    unfold addressOf
    split
    · rfl
    · next hme =>
        cases hpeer : book.configured id with
        | some peer => rfl
        | none => rw [hsame id hme hpeer]

theorem right_update_iff {book : AddressBook} {before after : List Member}
    (h : book.Right before) (hformed : WellFormed after) :
    (book.update after).Right after ↔
      forall id, id ≠ book.me -> book.configured id = none ->
        addressIn after id = addressIn before id ∨
          addressIn before id = none ∨ addressIn after id = none := by
  obtain ⟨hme, hconfigured, _⟩ := update_fixed book after
  unfold Right
  rw [hme, hconfigured]
  constructor
  · intro hright id hother hnone
    have hbefore := h id
    have hafter := hright id
    simp only [addressOf, if_neg hother, hnone] at hbefore hafter
    rcases entry_update_unconfigured hformed hother hnone with
      ⟨_, hgone⟩ | ⟨address, haddress, hentry⟩
    · exact Or.inr (Or.inr hgone)
    · rw [hentry] at hafter
      split at hafter
      · next hnew =>
          right
          left
          have hsender := sender_of_entry hbefore
          rw [hnew] at hsender
          exact Option.map_eq_none_iff.mp hsender.symm
      · left
        exact entryFor_inj (hafter.symm.trans hbefore)
  · intro hsteady id
    have hbefore := h id
    by_cases hother : id = book.me
    · -- Nobody dials this node itself.
      simp only [addressOf, if_pos hother] at hbefore ⊢
      rw [entry_update]
      split
      · rw [entry_connectAll_known (Or.inl hother), hbefore]
      · rfl
    · simp only [addressOf, if_neg hother] at hbefore ⊢
      cases hpeer : book.configured id with
      | some peer =>
          rw [hpeer] at hbefore
          have hknown : book.senders id ≠ none := by
            rw [sender_of_entry hbefore]
            nofun
          rw [entry_update, hpeer, Option.isSome_some, Bool.or_true, if_pos rfl,
            entry_connectAll_known (Or.inr hknown), hbefore]
      | none =>
          rw [hpeer] at hbefore
          rcases entry_update_unconfigured hformed hother hpeer with
            ⟨hentry, hgone⟩ | ⟨address, haddress, hentry⟩
          · rw [hentry]
            exact congrArg entryFor hgone.symm
          · rw [hentry]
            dsimp only at hbefore ⊢
            rw [haddress]
            split
            · rfl
            · next hknown =>
                rcases hsteady id hother hpeer with hsame | hnone | hgone
                · rw [hbefore, ← hsame, haddress]
                · rw [hnone] at hbefore
                  exact absurd (sender_of_entry hbefore) hknown
                · rw [haddress] at hgone
                  cases hgone

/-- The book is right now, and after each later look at the membership. -/
def RightThroughout (book : AddressBook) (members : List Member) :
    List (Nat × List Member) -> Prop
  | [] => book.Right members
  | look :: looks =>
      book.Right members ∧
        RightThroughout (book.followMembership look.1 look.2) look.2 looks

theorem right_followMembership_iff {book : AddressBook}
    {members : List Member} (h : book.Right members) {look : Nat × List Member}
    (hformed : WellFormed look.2) :
    (book.followMembership look.1 look.2).Right look.2 ↔
      InStep book.me book.configured (book.seen, members) look := by
  unfold followMembership InStep
  split
  · next hseen =>
      rw [right_same_iff h]
      constructor
      · intro hsame id hme hnone
        exact Or.inl (hsame id hme hnone)
      · intro hstep id hme hnone
        rcases hstep id hme hnone with hsame | ⟨hmoved, _⟩
        · exact hsame
        · exact absurd hseen.symm hmoved
  · next hseen =>
      have hupdate := right_update_iff h hformed
      constructor
      · intro hright id hme hnone
        rcases hupdate.mp hright id hme hnone with hsame | heither
        · exact Or.inl hsame
        · exact Or.inr ⟨fun heq => hseen heq.symm, heither⟩
      · intro hstep
        refine hupdate.mpr ?_
        intro id hme hnone
        rcases hstep id hme hnone with hsame | ⟨_, heither⟩
        · exact Or.inl hsame
        · exact Or.inr heither

theorem rightThroughout_iff {book : AddressBook} {members : List Member}
    {looks : List (Nat × List Member)}
    (hformed : forall look, look ∈ looks -> WellFormed look.2) :
    RightThroughout book members looks ↔
      book.Right members ∧
        List.IsChain (InStep book.me book.configured)
          ((book.seen, members) :: looks) := by
  induction looks generalizing book members with
  | nil => exact ⟨fun h => ⟨h, List.IsChain.singleton _⟩, fun h => h.1⟩
  | cons look looks ih =>
      have hrest := fun other hother =>
        hformed other (List.mem_cons_of_mem look hother)
      obtain ⟨hme, hconfigured, hseen⟩ :=
        followMembership_fixed book look.1 look.2
      rw [RightThroughout, ih hrest, hme, hconfigured, hseen,
        List.isChain_cons_cons]
      constructor
      · intro h
        exact ⟨h.1, (right_followMembership_iff h.1
          (hformed look List.mem_cons_self)).mp h.2.1, h.2.2⟩
      · intro h
        exact ⟨h.1, (right_followMembership_iff h.1
          (hformed look List.mem_cons_self)).mpr h.2.1, h.2.2⟩

/-!
# The first book
-/

end AddressBook

def Peer.addresses (peer : Peer) : String × String :=
  (peer.raftAddr, peer.clientAddr)

/-- The first and the last configured peer of one id are in the same place. -/
def Agreeing (me : NodeId) (peers : List Peer) : Prop :=
  forall id, id ≠ me ->
    (peers.find? (fun p => p.id == id)).map Peer.addresses =
      (peers.reverse.find? (fun p => p.id == id)).map Peer.addresses

namespace AddressBook

theorem configuredPeers_eq (peers : List Peer) (id : NodeId) :
    configuredPeers peers id = peers.reverse.find? (fun p => p.id == id) := by
  have hfold : forall t : Table Peer,
      (peers.foldl (fun t p => t.insert p.id p) t) id =
        (peers.reverse.find? (fun p => p.id == id)).or (t id) := by
    induction peers with
    | nil =>
        intro t
        rfl
    | cons peer peers ih =>
        intro t
        rw [List.foldl_cons, ih, List.reverse_cons, List.find?_append,
          Option.or_assoc]
        congr 1
        rw [List.find?_cons, List.find?_nil, Table.insert]
        by_cases hid : id = peer.id
        · rw [if_pos hid, hid, beq_self_eq_true]
          rfl
        · have hother : (peer.id == id) = false :=
            beq_eq_false_iff_ne.mpr (fun heq => hid heq.symm)
          rw [if_neg hid, hother]
          rfl
  rw [configuredPeers, hfold]
  exact Option.or_none

/-- The book before the first membership. -/
def peersOnly (me : NodeId) (peers : List Peer) (index : Nat) : AddressBook :=
  connectAll { me := me, configured := configuredPeers peers, seen := index }
    (peers.map (fun p => (p.id, p.addresses)))

theorem bind_eq (me : NodeId) (peers : List Peer) (index : Nat)
    (members : List Member) :
    bind me peers index members = (peersOnly me peers index).update members := by
  unfold bind peersOnly connectAll
  dsimp only
  rw [List.foldl_map]
  rfl

theorem entry_peersOnly {me : NodeId} {peers : List Peer} {index : Nat}
    {id : NodeId} (h : id ≠ me) :
    (peersOnly me peers index).entry id =
      entryFor ((peers.find? (fun p => p.id == id)).map Peer.addresses) := by
  rw [peersOnly, entry_connectAll_new h rfl, List.find?_map]
  show ((Option.map _ (peers.find? (fun p => p.id == id))).map _).getD _ = _
  cases peers.find? (fun p => p.id == id) with
  | none => rfl
  | some peer => rfl

/-- Every configured peer has a sender. -/
theorem sender_peersOnly {me : NodeId} {peers : List Peer} {index : Nat}
    {id : NodeId} (h : id ≠ me)
    (hpeer : (configuredPeers peers id).isSome = true) :
    (peersOnly me peers index).senders id ≠ none := by
  intro hnone
  rcases Option.isSome_iff_exists.mp hpeer with ⟨peer, hpeer⟩
  rw [configuredPeers_eq] at hpeer
  rw [sender_of_entry (entry_peersOnly h), Option.map_eq_none_iff,
    Option.map_eq_none_iff, List.find?_eq_none] at hnone
  have hsame := List.find?_some hpeer
  exact hnone peer
    (List.mem_reverse.mp (List.mem_of_find?_eq_some hpeer)) hsame

theorem right_peersOnly_iff (me : NodeId) (peers : List Peer) (index : Nat) :
    (peersOnly me peers index).Right [] ↔ Agreeing me peers := by
  obtain ⟨hme, hconfigured, _⟩ := connectAll_fixed
    (peers.map (fun p => (p.id, p.addresses)))
    { me := me, configured := configuredPeers peers, seen := index }
  have hplace : forall id, id ≠ me ->
      addressOf me (configuredPeers peers) [] id =
        (peers.reverse.find? (fun p => p.id == id)).map Peer.addresses := by
    intro id hid
    rw [addressOf, if_neg hid, configuredPeers_eq]
    cases peers.reverse.find? (fun p => p.id == id) with
    | none => rfl
    | some peer => rfl
  unfold Right
  rw [show (peersOnly me peers index).me = me from hme,
    show (peersOnly me peers index).configured = configuredPeers peers from
      hconfigured]
  constructor
  · intro hright id hid
    have hentry := hright id
    rw [entry_peersOnly hid, hplace id hid] at hentry
    exact entryFor_inj hentry
  · intro hagree id
    by_cases hid : id = me
    · rw [addressOf, if_pos hid, peersOnly, entry_connectAll_known (Or.inl hid)]
      rfl
    · rw [entry_peersOnly hid, hplace id hid, hagree id hid]

theorem peersOnly_fixed (me : NodeId) (peers : List Peer) (index : Nat) :
    (peersOnly me peers index).me = me ∧
      (peersOnly me peers index).configured = configuredPeers peers ∧
      (peersOnly me peers index).seen = index :=
  connectAll_fixed _ _

theorem bind_fixed (me : NodeId) (peers : List Peer) (index : Nat)
    (members : List Member) :
    (bind me peers index members).me = me ∧
      (bind me peers index members).configured = configuredPeers peers ∧
      (bind me peers index members).seen = index := by
  obtain ⟨hme, hconfigured, hseen⟩ := peersOnly_fixed me peers index
  obtain ⟨hme', hconfigured', hseen'⟩ :=
    update_fixed (peersOnly me peers index) members
  rw [bind_eq]
  exact ⟨hme'.trans hme, hconfigured'.trans hconfigured, hseen'.trans hseen⟩

theorem right_bind_iff (me : NodeId) (peers : List Peer) (index : Nat)
    {members : List Member} (hformed : WellFormed members) :
    (bind me peers index members).Right members ↔ Agreeing me peers := by
  rw [← right_peersOnly_iff me peers index, bind_eq]
  constructor
  · intro hright id
    obtain ⟨hme, hconfigured, _⟩ := peersOnly_fixed me peers index
    obtain ⟨hme', hconfigured', _⟩ :=
      update_fixed (peersOnly me peers index) members
    have hentry := hright id
    rw [hme', hconfigured', hme, hconfigured] at hentry
    rw [hme, hconfigured]
    by_cases hid : id = me
    · rw [addressOf, if_pos hid, peersOnly, entry_connectAll_known (Or.inl hid)]
      rfl
    · cases hpeer : configuredPeers peers id with
      | none =>
          have hnone : peers.find? (fun p => p.id == id) = none := by
            rw [configuredPeers_eq, List.find?_eq_none] at hpeer
            rw [List.find?_eq_none]
            exact fun p hp => hpeer p (List.mem_reverse.mpr hp)
          rw [entry_peersOnly hid, hnone, addressOf, if_neg hid, hpeer]
          rfl
      | some peer =>
          -- What the peers' own senders say stays when the members are reached.
          have hknown : (peersOnly me peers index).senders id ≠ none :=
            sender_peersOnly hid (by rw [hpeer]; rfl)
          rw [entry_update, hconfigured, hpeer, Option.isSome_some, Bool.or_true,
            if_pos rfl, entry_connectAll_known (Or.inr hknown), addressOf,
            if_neg hid, hpeer] at hentry
          rw [hentry, addressOf, if_neg hid, hpeer]
  · intro hright
    refine (right_update_iff hright hformed).mpr ?_
    intro id _ _
    exact Or.inr (Or.inl rfl)

end AddressBook

/-- The book is right when the node is bound and after each later look at the
membership, if and only if no two configured peers of one id are in different places and
no node without a configured address moves between two looks. -/
theorem book_right_iff (me : NodeId) (peers : List Peer) (index : Nat)
    {members : List Member} {looks : List (Nat × List Member)}
    (hformed : WellFormed members)
    (hlooks : forall look, look ∈ looks -> WellFormed look.2) :
    (AddressBook.bind me peers index members).RightThroughout members looks ↔
      Agreeing me peers ∧
        List.IsChain (InStep me (AddressBook.configuredPeers peers))
          ((index, members) :: looks) := by
  obtain ⟨hme, hconfigured, hseen⟩ :=
    AddressBook.bind_fixed me peers index members
  rw [AddressBook.rightThroughout_iff hlooks,
    AddressBook.right_bind_iff me peers index hformed, hme, hconfigured, hseen]

/-!
# A node and its book
-/

/-- The part of `Shared` that knows who is in the cluster and where they are. -/
structure Shared where
  host : Host
  addresses : AddressBook

namespace Shared

/-- A node that joins starts without a membership; another one with its peers and
itself. -/
def bind (me : NodeId) (peers : List Peer) (join : Bool) (own : Bytes)
    (config : Config) (storage : MemStorage) : Shared :=
  let founders : List Member :=
    peers.map (fun p =>
      { id := p.id
        context := memberContext p.raftAddr p.clientAddr
        learner := false }) ++ [{ id := me, context := own, learner := false }]
  let bootstrap :=
    if join then [] else founders.insertionSort (fun a b => a.id <= b.id)
  let host := Host.start me bootstrap config storage
  { host := host
    addresses := AddressBook.bind me peers host.node.membershipIndex
      host.node.members }

/-- Messages, ticks and changes of the membership that were accepted are followed by a
look at the membership. -/
def looks (s : Shared) : Operation -> Bool
  | Operation.tick => true
  | Operation.receive _ _ => true
  | Operation.proposeMembership members =>
      (s.host.node.proposeMembership members).isOk
  | _ => false

/-- What `dispatch` hands over: a message for a node without a sender is dropped. -/
def dispatch (book : AddressBook) (actions : List Action) : List Action :=
  actions.filter (fun action => (book.senders action.dest).isSome)

def run (s : Shared) (operation : Operation) : Shared × List Action :=
  let (host, actions) := s.host.run operation
  let addresses :=
    if s.looks operation then
      s.addresses.followMembership host.node.membershipIndex host.node.members
    else s.addresses
  ({ host := host, addresses := addresses }, dispatch addresses actions)

end Shared

def introduced : Shared :=
  ((Shared.bind 5 [{ id := 1, raftAddr := "p:1", clientAddr := "q:1" }] true []
      {} {}).run
    (Operation.receive 1 (Message.appendEntries 1 0 0
      [{ term := 1
         index := 1
         command := Command.config
          [{ id := 1, context := memberContext "p:1" "q:1", learner := false },
            { id := 4, context := memberContext "p:4" "q:4", learner := true },
            { id := 5, context := memberContext "p:5" "q:5", learner := true }] }]
      1 0))).1

/-- Node 4 is removed and added again, at another address; node 5 hears of both at
once. -/
def reintroduced : Shared :=
  (introduced.run
    (Operation.receive 1 (Message.appendEntries 1 1 1
      [{ term := 1
         index := 2
         command := Command.config
          [{ id := 1, context := memberContext "p:1" "q:1", learner := false },
            { id := 5, context := memberContext "p:5" "q:5", learner := true }] },
        { term := 1
          index := 3
          command := Command.config
            [{ id := 1, context := memberContext "p:1" "q:1", learner := false },
              { id := 4, context := memberContext "p:44" "q:44", learner := true },
              { id := 5, context := memberContext "p:5" "q:5", learner := true }] }]
      3 0))).1

/-- The sender that is there is left, with the address it was started for. -/
theorem member_dialled_where_it_was :
    WellFormed introduced.host.node.members ∧
      WellFormed reintroduced.host.node.members ∧
      reintroduced.addresses.senders 4 = some "p:4" ∧
      addressIn reintroduced.host.node.members 4 = some ("p:44", "q:44") ∧
      ¬ reintroduced.addresses.Right reintroduced.host.node.members := by
  have hmembers : WellFormed introduced.host.node.members ∧
      WellFormed reintroduced.host.node.members := by
    constructor
    · show forall m, m ∈ introduced.host.node.members -> _
      decide +kernel
    · show forall m, m ∈ reintroduced.host.node.members -> _
      decide +kernel
  refine ⟨hmembers.1, hmembers.2, by decide +kernel, by decide +kernel, ?_⟩
  intro hright
  exact absurd (hright 4) (by decide +kernel)

def at4 (raftAddr : String) : List Member :=
  [{ id := 4, context := memberContext raftAddr "q:4", learner := true }]

/-- A member goes, and comes back at another address when its absence was noticed. -/
theorem book_right_iff_returning :
    (WellFormed (at4 "p:4") ∧ WellFormed (at4 "p:44")) ∧
      (AddressBook.bind 5 [] 1 (at4 "p:4")).RightThroughout (at4 "p:4")
        [(2, []), (3, at4 "p:44")] := by
  have hfirst : WellFormed (at4 "p:4") := by
    show forall m, m ∈ at4 "p:4" -> _
    decide +kernel
  have hsecond : WellFormed (at4 "p:44") := by
    show forall m, m ∈ at4 "p:44" -> _
    decide +kernel
  refine ⟨⟨hfirst, hsecond⟩, ?_⟩
  refine (book_right_iff 5 [] 1 hfirst ?_).mpr ⟨fun _ _ => rfl, ?_⟩
  · intro look hlook
    rcases List.mem_cons.mp hlook with heq | hlook
    · rw [heq]
      exact nofun
    · rw [List.mem_singleton.mp hlook]
      exact hsecond
  · refine List.IsChain.cons_cons ?_ (List.IsChain.cons_cons ?_
      (List.IsChain.singleton _))
    · intro id _ _
      exact Or.inr ⟨by decide, Or.inr rfl⟩
    · intro id _ _
      exact Or.inr ⟨by decide, Or.inl rfl⟩

end ClusterNode
end Minicask
