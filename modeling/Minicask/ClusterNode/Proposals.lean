import Mathlib.Logic.Function.Basic
import Mathlib.Logic.Relation
import Minicask.Bytes
import Minicask.Totals

/-!
# Group commit for proposals

`Proposals` of `cluster.rs`: any number of threads submit commands, and whoever finds
nobody proposing takes all that wait and proposes them as one batch.  Between two
acquisitions of the lock a thread does nothing that the others can see, so each section
under the lock is one step.
-/

namespace Minicask
namespace Proposals

structure Queue (answer : Type) where
  waiting : List (Nat × Bytes) := []
  answers : AList (fun _ : Nat => answer) := ∅
  busy : Bool := false
  nextTicket : Nat := 0

/-- Where a call of `submit` has got to.  The flag says whether it has used up its
callback. -/
inductive Call (answer : Type) where
  | outside
  | asleep (ticket : Nat) (proposed : Bool)
  | woken (ticket : Nat) (proposed : Bool)
  | proposing (ticket : Nat) (tickets : List Nat) (commands : List Bytes)
  | returned (ticket : Nat) (value : answer)
  | panicked

namespace Queue

variable {answer : Type}

/-- One turn of the loop of `submit`, up to where the lock is let go. -/
def turn (queue : Queue answer) (ticket : Nat) (proposed : Bool) :
    Queue answer × Call answer :=
  match queue.answers.lookup ticket with
  | some value =>
      ({ queue with answers := queue.answers.erase ticket },
        Call.returned ticket value)
  | none =>
      if queue.busy then (queue, Call.asleep ticket proposed)
      else
        let (tickets, commands) := queue.waiting.unzip
        ({ queue with busy := true, waiting := [] },
          if proposed then Call.panicked
          else Call.proposing ticket tickets commands)

def push (queue : Queue answer) (command : Bytes) : Queue answer :=
  { queue with
    waiting := queue.waiting ++ [(queue.nextTicket, command)]
    nextTicket := queue.nextTicket + 1 }

def settle (queue : Queue answer) (tickets : List Nat) (values : List answer) :
    Queue answer :=
  { queue with
    busy := false
    answers := (tickets.zip values).foldl
      (fun answers given => answers.insert given.1 given.2) queue.answers }

end Queue

/-- Commands that were handed to a callback together, and what came back. -/
structure Batch (caller answer : Type) where
  proposer : caller
  items : List (Nat × Bytes)
  values : Option (List answer) := none

/-- Every call of `submit`, and a record of what was submitted and proposed that no
thread looks at. -/
structure World (caller answer : Type) where
  queue : Queue answer := {}
  calls : caller -> Call answer := fun _ => Call.outside
  submitted : List (caller × Bytes) := []
  batches : List (Batch caller answer) := []

namespace World

variable {caller answer : Type} [DecidableEq caller]

def land (w : World caller answer) (c : caller)
    (result : Queue answer × Call answer) : World caller answer :=
  { w with
    queue := result.1
    calls := Function.update w.calls c result.2
    batches :=
      match result.2 with
      | Call.proposing _ tickets commands =>
          w.batches ++ [{ proposer := c, items := tickets.zip commands }]
      | _ => w.batches }

def wakeAll (calls : caller -> Call answer) (c : caller) : Call answer :=
  match calls c with
  | Call.asleep ticket proposed => Call.woken ticket proposed
  | call => call

def note (c : caller) (values : List answer) (b : Batch caller answer) :
    Batch caller answer :=
  if b.proposer = c ∧ b.values.isNone then { b with values := some values } else b

def submit (w : World caller answer) (c : caller) (command : Bytes) :
    World caller answer :=
  { w with submitted := w.submitted ++ [(c, command)] }.land c
    ((w.queue.push command).turn w.queue.nextTicket false)

def wake (w : World caller answer) (c : caller) (ticket : Nat)
    (proposed : Bool) : World caller answer :=
  w.land c (w.queue.turn ticket proposed)

def comeBack (w : World caller answer) (c : caller) (ticket : Nat)
    (tickets : List Nat) (values : List answer) : World caller answer :=
  { w with
    calls := wakeAll w.calls
    batches := w.batches.map (note c values) }.land c
      ((w.queue.settle tickets values).turn ticket true)

end World

/-- The sections under the lock, in any order.  A callback answers every command of its
batch, in order, and a thread may be woken for no reason. -/
inductive Step {caller answer : Type} [DecidableEq caller] :
    World caller answer -> World caller answer -> Prop where
  | submit {w : World caller answer} (c : caller) (command : Bytes)
      (h : w.calls c = Call.outside) : Step w (w.submit c command)
  | wake {w : World caller answer} (c : caller) (ticket : Nat) (proposed : Bool)
      (h : w.calls c = Call.woken ticket proposed) :
      Step w (w.wake c ticket proposed)
  | stir {w : World caller answer} (c : caller) (ticket : Nat) (proposed : Bool)
      (h : w.calls c = Call.asleep ticket proposed) :
      Step w { w with
        calls := Function.update w.calls c (Call.woken ticket proposed) }
  | comeBack {w : World caller answer} (c : caller) (ticket : Nat)
      (tickets : List Nat) (commands : List Bytes) (values : List answer)
      (h : w.calls c = Call.proposing ticket tickets commands)
      (hvalues : values.length = commands.length) :
      Step w (w.comeBack c ticket tickets values)

abbrev Run {caller answer : Type} [DecidableEq caller] :
    World caller answer -> World caller answer -> Prop :=
  Relation.ReflTransGen Step

/-!
# What holds all along
-/

def ticketed {caller : Type} (submitted : List (caller × Bytes)) :
    List (Nat × Bytes) :=
  submitted.mapIdx (fun ticket s => (ticket, s.2))

section Invariant

variable {caller answer : Type}

def Given (batches : List (Batch caller answer)) (ticket : Nat) (command : Bytes)
    (value : answer) : Prop :=
  exists b, b ∈ batches ∧ exists (values : List answer) (k : Nat),
    b.values = some values ∧ b.items[k]? = some (ticket, command) ∧ values[k]? = some value

namespace World

def Submitted (w : World caller answer) (ticket : Nat) (c : caller) : Prop :=
  exists command, w.submitted[ticket]? = some (c, command)

/-- A ticket that waits, is being proposed, or has its answer ready. -/
def Pending (w : World caller answer) (flying : List (Nat × Bytes))
    (ticket : Nat) : Prop :=
  ticket ∈ w.queue.waiting.map Prod.fst ∨ ticket ∈ flying.map Prod.fst ∨
    (w.queue.answers.lookup ticket).isSome = true

/-- The batch that is being proposed: by whom, with which ticket, and what is in it. -/
abbrev Flight (caller : Type) : Type := Option (caller × Nat × List (Nat × Bytes))

def Flight.items (flying : Flight caller) : List (Nat × Bytes) :=
  (flying.map (fun f => f.2.2)).getD []

/-- The queue and the record agree: all batches but the one being proposed have their
answers, and the batches and what waits are the commands in ticket order. -/
structure Agrees (w : World caller answer) (done : List (Batch caller answer))
    (flying : Flight caller) : Prop where
  batches : w.batches = done ++ flying.toList.map (fun f =>
    { proposer := f.1, items := f.2.2 })
  answered : forall b, b ∈ done -> exists values, b.values = some values ∧
    values.length = b.items.length
  busy : w.queue.busy = flying.isSome
  order : w.batches.flatMap Batch.items ++ w.queue.waiting =
    ticketed w.submitted
  next : w.queue.nextTicket = w.submitted.length
  callers : (w.submitted.map Prod.fst).Nodup
  answers : forall ticket value,
    w.queue.answers.lookup ticket = some value ->
      exists command, Given done ticket command value
  proposer : forall c ticket items, flying = some (c, ticket, items) ->
    w.calls c = Call.proposing ticket items.unzip.1 items.unzip.2

def CallOk (w : World caller answer) (done : List (Batch caller answer))
    (flying : Flight caller) (c : caller) : Call answer -> Prop
  | Call.outside => forall s, s ∈ w.submitted -> s.1 ≠ c
  | Call.asleep ticket proposed =>
      w.Submitted ticket c ∧ proposed = false ∧ flying.isSome = true ∧
        w.Pending flying.items ticket
  | Call.woken ticket proposed =>
      w.Submitted ticket c ∧ proposed = false ∧ w.Pending flying.items ticket
  | Call.proposing ticket tickets commands =>
      exists items, flying = some (c, ticket, items) ∧
        items.unzip = (tickets, commands) ∧ w.Submitted ticket c ∧
        ticket ∈ items.map Prod.fst
  | Call.returned ticket value =>
      w.Submitted ticket c ∧ exists command, Given done ticket command value
  | Call.panicked => False

structure Ok (w : World caller answer) (done : List (Batch caller answer))
    (flying : Flight caller) : Prop where
  agrees : w.Agrees done flying
  calls : forall c, w.CallOk done flying c (w.calls c)

end World

theorem World.ok_start : World.Ok ({} : World caller answer) [] none :=
  ⟨⟨rfl, nofun, rfl, rfl, rfl, List.nodup_nil, nofun, nofun⟩, fun _ => nofun⟩

/-!
# Taking a turn
-/

theorem Given.mono {batches more : List (Batch caller answer)} {ticket : Nat}
    {command : Bytes} {value : answer} (h : Given batches ticket command value) :
    Given (batches ++ more) ticket command value := by
  rcases h with ⟨b, hb, hrest⟩
  exact ⟨b, List.mem_append_left more hb, hrest⟩

theorem World.Submitted.caller_eq {w : World caller answer} {ticket : Nat}
    {c c' : caller} (h : w.Submitted ticket c) (h' : w.Submitted ticket c') :
    c = c' := by
  rcases h with ⟨command, hc⟩
  rcases h' with ⟨command', hc'⟩
  rw [hc] at hc'
  cases hc'
  rfl

theorem ticketed_append (submitted : List (caller × Bytes)) (c : caller)
    (command : Bytes) :
    ticketed (submitted ++ [(c, command)]) =
      ticketed submitted ++ [(submitted.length, command)] := by
  simp [ticketed, List.mapIdx_append]

theorem World.Submitted.pushed {w : World caller answer} {ticket : Nat}
    {c : caller} (h : w.Submitted ticket c) (s : caller × Bytes)
    (queue : Queue answer) :
    World.Submitted { w with submitted := w.submitted ++ [s], queue := queue }
      ticket c := by
  rcases h with ⟨command, hcommand⟩
  refine ⟨command, ?_⟩
  have hlt : ticket < w.submitted.length :=
    (List.getElem?_eq_some_iff.mp hcommand).1
  show (w.submitted ++ [s])[ticket]? = _
  rw [List.getElem?_append_left hlt]
  exact hcommand

theorem mem_ticketed {submitted : List (caller × Bytes)} {ticket : Nat}
    {command : Bytes} (h : (ticket, command) ∈ ticketed submitted) :
    exists c, submitted[ticket]? = some (c, command) := by
  rcases List.mem_mapIdx.mp h with ⟨k, hk, heq⟩
  cases heq
  exact ⟨submitted[ticket].1, List.getElem?_eq_getElem hk⟩

/-- What a callback gave for a ticket, it gave for the command that came with it. -/
theorem World.Agrees.given {w : World caller answer}
    {done : List (Batch caller answer)} {flying : World.Flight caller}
    (h : w.Agrees done flying) {ticket : Nat} {command : Bytes} {value : answer}
    (hgiven : Given done ticket command value) {c : caller}
    (hown : w.Submitted ticket c) :
    w.submitted[ticket]? = some (c, command) ∧
      Given w.batches ticket command value := by
  constructor
  · rcases hgiven with ⟨b, hb, values, k, _, hitem, _⟩
    have hin : (ticket, command) ∈ ticketed w.submitted := by
      rw [← h.order, h.batches]
      refine List.mem_append_left _ (List.mem_flatMap.mpr ⟨b, ?_, ?_⟩)
      · exact List.mem_append_left _ hb
      · exact List.mem_of_getElem? hitem
    rcases mem_ticketed hin with ⟨other, hother⟩
    rcases hown with ⟨command', hcommand⟩
    rw [hother] at hcommand
    cases hcommand
    exact hother
  · rw [h.batches]
    exact hgiven.mono

/-- Batches are proposed one after another: only the last can be without answers. -/
theorem World.Agrees.last {w : World caller answer}
    {done : List (Batch caller answer)} {flying : World.Flight caller}
    (h : w.Agrees done flying) {k : Nat} {b : Batch caller answer}
    (hb : w.batches[k]? = some b) (hnone : b.values = none) :
    k + 1 = w.batches.length := by
  have hlt := (List.getElem?_eq_some_iff.mp hb).1
  rw [h.batches] at hb hlt ⊢
  have hge : done.length <= k := by
    by_contra hless
    rw [List.getElem?_append_left (by omega)] at hb
    rcases h.answered b (List.mem_of_getElem? hb) with ⟨values, hvalues, _⟩
    rw [hvalues] at hnone
    cases hnone
  have hone : (flying.toList.map fun f =>
      (⟨f.1, f.2.2, none⟩ : Batch caller answer)).length <= 1 := by
    cases flying <;> simp
  rw [List.length_append] at hlt ⊢
  omega

theorem World.Agrees.proposer_ne {w : World caller answer}
    {done : List (Batch caller answer)} {flying : World.Flight caller}
    (h : w.Agrees done flying) {f : caller × Nat × List (Nat × Bytes)}
    (hflying : flying = some f) {c : caller}
    (hc : forall ticket tickets commands,
      w.calls c ≠ Call.proposing ticket tickets commands) : f.1 ≠ c := by
  intro hsame
  apply hc f.2.1 f.2.2.unzip.1 f.2.2.unzip.2
  rw [← hsame]
  exact h.proposer f.1 f.2.1 f.2.2 hflying

/-- Another call's turn leaves a call as it was, as long as its ticket stays
pending. -/
theorem World.CallOk.keep {w w' : World caller answer}
    {done : List (Batch caller answer)} {flying flying' : World.Flight caller}
    {c : caller} {call : Call answer} (h : w.CallOk done flying c call)
    (hsubmitted : w'.submitted = w.submitted)
    (hpending : forall ticket, w.Submitted ticket c ->
      w.Pending flying.items ticket -> w'.Pending flying'.items ticket)
    (hflight : flying' = flying ∨ flying = none) :
    w'.CallOk done flying' c call := by
  have hown : forall ticket, w.Submitted ticket c -> w'.Submitted ticket c := by
    intro ticket hticket
    rw [World.Submitted, hsubmitted]
    exact hticket
  cases call with
  | outside =>
      intro s hs
      rw [hsubmitted] at hs
      exact h s hs
  | asleep ticket proposed =>
      rcases h with ⟨hticket, hproposed, hsome, hpend⟩
      rcases hflight with hsame | hnone
      · exact ⟨hown ticket hticket, hproposed, hsame ▸ hsome,
          hpending ticket hticket hpend⟩
      · rw [hnone] at hsome
        cases hsome
  | woken ticket proposed =>
      rcases h with ⟨hticket, hproposed, hpend⟩
      exact ⟨hown ticket hticket, hproposed, hpending ticket hticket hpend⟩
  | proposing ticket tickets commands =>
      rcases h with ⟨items, hflying, hitems, hticket, hin⟩
      rcases hflight with hsame | hnone
      · exact ⟨items, hsame.trans hflying, hitems, hown ticket hticket, hin⟩
      · rw [hnone] at hflying
        cases hflying
  | returned ticket value => exact ⟨hown ticket h.1, h.2⟩
  | panicked => exact h

variable [DecidableEq caller]

/-- The calls after one of them has let go of the lock. -/
theorem World.calls_land {w : World caller answer}
    {done : List (Batch caller answer)} {flying flying' : World.Flight caller}
    {c : caller}
    (hcalls : forall other, other ≠ c ->
      w.CallOk done flying other (w.calls other))
    {result : Queue answer × Call answer}
    (hself : (w.land c result).CallOk done flying' c result.2)
    (hpending : forall other number, other ≠ c -> w.Submitted number other ->
      w.Pending flying.items number ->
        (w.land c result).Pending flying'.items number)
    (hflight : flying' = flying ∨ flying = none) (other : caller) :
    (w.land c result).CallOk done flying' other
      ((w.land c result).calls other) := by
  by_cases heq : other = c
  · rw [heq]
    show World.CallOk _ done flying' c (Function.update w.calls c result.2 c)
    rw [Function.update_self]
    exact hself
  · show World.CallOk _ done flying' other
      (Function.update w.calls c result.2 other)
    rw [Function.update_of_ne heq]
    exact (hcalls other heq).keep rfl
      (fun number => hpending other number heq) hflight

section Turn

variable {w : World caller answer} {done : List (Batch caller answer)}
  {flying : World.Flight caller} {c : caller} {ticket : Nat}
  (h : w.Agrees done flying)
  (hcalls : forall other, other ≠ c -> w.CallOk done flying other (w.calls other))
  (hown : w.Submitted ticket c)

include h hcalls hown

theorem World.Ok.returns {value : answer} (proposed : Bool)
    (hproposer : forall f, flying = some f -> f.1 ≠ c)
    (hanswer : w.queue.answers.lookup ticket = some value) :
    (w.land c (w.queue.turn ticket proposed)).Ok done flying ∧
      (w.queue.turn ticket proposed).2 = Call.returned ticket value := by
  have hturn : w.queue.turn ticket proposed =
      ({ w.queue with answers := w.queue.answers.erase ticket },
        Call.returned ticket value) := by
    rw [Queue.turn, hanswer]
  rw [hturn]
  refine ⟨⟨⟨h.batches, h.answered, h.busy, h.order, h.next, h.callers, ?_,
    ?_⟩, ?_⟩, rfl⟩
  · intro number found hlookup
    have hlookup' : (w.queue.answers.erase ticket).lookup number =
        some found := hlookup
    refine h.answers number found ?_
    by_cases heq : number = ticket
    · rw [heq, AList.lookup_erase] at hlookup'
      cases hlookup'
    · rwa [AList.lookup_erase_ne heq] at hlookup'
  · intro other number items hflying
    show Function.update w.calls c _ other = _
    rw [Function.update_of_ne (hproposer _ hflying)]
    exact h.proposer other number items hflying
  · refine World.calls_land hcalls
      ⟨hown, h.answers ticket value hanswer⟩ ?_ (Or.inl rfl)
    intro other number hother hnumber hpend
    rcases hpend with hwaiting | hflying | hready
    · exact Or.inl hwaiting
    · exact Or.inr (Or.inl hflying)
    · refine Or.inr (Or.inr ?_)
      have hne : number ≠ ticket := by
        intro hsame
        rw [hsame] at hnumber
        exact hother (hnumber.caller_eq hown)
      show ((w.queue.answers.erase ticket).lookup number).isSome = true
      rw [AList.lookup_erase_ne hne]
      exact hready

theorem World.Ok.sleeps {f : caller × Nat × List (Nat × Bytes)}
    (hflying : flying = some f) (hproposer : f.1 ≠ c)
    (hanswer : w.queue.answers.lookup ticket = none)
    (hpending : w.Pending flying.items ticket) :
    (w.land c (w.queue.turn ticket false)).Ok done flying := by
  have hbusy : w.queue.busy = true := by
    rw [h.busy, hflying]
    rfl
  have hturn : w.queue.turn ticket false =
      (w.queue, Call.asleep ticket false) := by
    rw [Queue.turn, hanswer]
    exact if_pos hbusy
  rw [hturn]
  refine ⟨⟨h.batches, h.answered, h.busy, h.order, h.next, h.callers,
    h.answers, ?_⟩, ?_⟩
  · intro other number items hsome
    rw [hflying] at hsome
    cases hsome
    show Function.update w.calls c _ other = _
    rw [Function.update_of_ne hproposer]
    exact h.proposer other number items hflying
  · exact World.calls_land hcalls
      ⟨hown, rfl, by rw [hflying]; rfl, hpending⟩
      (fun _ _ _ _ hpend => hpend) (Or.inl rfl)

/-- Nobody is proposing: it takes all that waits, its own command among it. -/
theorem World.Ok.takes (hflying : flying = none)
    (hanswer : w.queue.answers.lookup ticket = none)
    (hpending : w.Pending flying.items ticket) :
    (w.land c (w.queue.turn ticket false)).Ok done
        (some (c, ticket, w.queue.waiting)) ∧
      (w.queue.turn ticket false).2 = Call.proposing ticket
        w.queue.waiting.unzip.1 w.queue.waiting.unzip.2 := by
  subst hflying
  have hbusy : ¬ w.queue.busy = true := by
    rw [h.busy]
    nofun
  have hturn : w.queue.turn ticket false =
      ({ w.queue with busy := true, waiting := [] },
        Call.proposing ticket w.queue.waiting.unzip.1
          w.queue.waiting.unzip.2) := by
    rw [Queue.turn, hanswer]
    exact if_neg hbusy
  have hwaiting : ticket ∈ w.queue.waiting.map Prod.fst := by
    rcases hpending with hin | hnone | hready
    · exact hin
    · cases hnone
    · rw [hanswer] at hready
      cases hready
  have hzip : w.queue.waiting.unzip.1.zip w.queue.waiting.unzip.2 =
      w.queue.waiting := List.zip_unzip _
  rw [hturn]
  refine ⟨⟨⟨?_, h.answered, rfl, ?_, h.next, h.callers, h.answers,
    ?_⟩, ?_⟩, rfl⟩
  · show w.batches ++ [_] = _
    rw [hzip, h.batches]
    simp
  · show (w.batches ++ [_]).flatMap Batch.items ++ [] = ticketed w.submitted
    rw [hzip, List.append_nil, List.flatMap_append, ← h.order]
    simp
  · intro other number items hsome
    cases hsome
    exact Function.update_self _ _ _
  · refine World.calls_land hcalls ⟨_, rfl, rfl, hown, hwaiting⟩ ?_
      (Or.inr rfl)
    intro other number _ _ hpend
    rcases hpend with hin | hnone | hready
    · exact Or.inr (Or.inl hin)
    · cases hnone
    · exact Or.inr (Or.inr hready)

theorem World.Ok.land {proposed : Bool}
    (hproposer : forall f, flying = some f -> f.1 ≠ c)
    (hproposed : proposed = false ∨
      (w.queue.answers.lookup ticket).isSome = true)
    (hpending : w.Pending flying.items ticket) :
    exists flying', (w.land c (w.queue.turn ticket proposed)).Ok done
      flying' := by
  cases hanswer : w.queue.answers.lookup ticket with
  | some value =>
      exact ⟨flying, (World.Ok.returns h hcalls hown proposed hproposer
        hanswer).1⟩
  | none =>
      have hfresh : proposed = false := by
        rcases hproposed with hfalse | hready
        · exact hfalse
        · rw [hanswer] at hready
          cases hready
      rw [hfresh]
      cases hflying : flying with
      | some f =>
          exact ⟨flying, World.Ok.sleeps h hcalls hown hflying
            (hproposer f hflying) hanswer hpending⟩
      | none =>
          exact ⟨_, (World.Ok.takes h hcalls hown hflying hanswer hpending).1⟩

end Turn

/-!
# Steps
-/

theorem World.Ok.submit {w : World caller answer}
    {done : List (Batch caller answer)} {flying : World.Flight caller}
    (h : w.Ok done flying) {c : caller} (command : Bytes)
    (hc : w.calls c = Call.outside) :
    exists flying', (w.submit c command).Ok done flying' := by
  have hagrees := h.agrees
  have hnew : w.CallOk done flying c Call.outside := hc ▸ h.calls c
  let w' : World caller answer :=
    { w with
      submitted := w.submitted ++ [(c, command)]
      queue := w.queue.push command }
  have hagrees' : w'.Agrees done flying := by
    refine ⟨hagrees.batches, hagrees.answered, hagrees.busy, ?_, ?_, ?_,
      hagrees.answers, hagrees.proposer⟩
    · show w.batches.flatMap Batch.items ++
        (w.queue.waiting ++ [(w.queue.nextTicket, command)]) =
          ticketed (w.submitted ++ [(c, command)])
      rw [← List.append_assoc, hagrees.order, hagrees.next, ticketed_append]
    · show w.queue.nextTicket + 1 = (w.submitted ++ [(c, command)]).length
      rw [hagrees.next, List.length_append]
      rfl
    · show ((w.submitted ++ [(c, command)]).map Prod.fst).Nodup
      rw [List.map_append]
      refine List.Nodup.append hagrees.callers (List.nodup_singleton c) ?_
      intro other hother hlast
      rcases List.mem_map.mp hother with ⟨s, hs, hfst⟩
      exact hnew s hs (hfst.trans (List.mem_singleton.mp hlast))
  have hpending : forall ticket, w.Pending flying.items ticket ->
      w'.Pending flying.items ticket := by
    intro ticket hpend
    rcases hpend with hin | hflying | hready
    · refine Or.inl ?_
      show ticket ∈ (w.queue.waiting ++ [_]).map Prod.fst
      rw [List.map_append]
      exact List.mem_append_left _ hin
    · exact Or.inr (Or.inl hflying)
    · exact Or.inr (Or.inr hready)
  have hcalls : forall other, other ≠ c ->
      w'.CallOk done flying other (w.calls other) := by
    intro other hother
    have hcall := h.calls other
    cases hstate : w.calls other with
    | outside =>
        rw [hstate] at hcall
        intro s hs
        rcases List.mem_append.mp hs with hold | hlast
        · exact hcall s hold
        · rw [List.mem_singleton.mp hlast]
          exact Ne.symm hother
    | asleep ticket proposed =>
        rw [hstate] at hcall
        rcases hcall with ⟨hticket, hproposed, hsome, hpend⟩
        exact ⟨hticket.pushed _ _, hproposed, hsome, hpending ticket hpend⟩
    | woken ticket proposed =>
        rw [hstate] at hcall
        rcases hcall with ⟨hticket, hproposed, hpend⟩
        exact ⟨hticket.pushed _ _, hproposed, hpending ticket hpend⟩
    | proposing ticket tickets commands =>
        rw [hstate] at hcall
        rcases hcall with ⟨items, hflying, hitems, hticket, hin⟩
        exact ⟨items, hflying, hitems, hticket.pushed _ _, hin⟩
    | returned ticket value =>
        rw [hstate] at hcall
        exact ⟨hcall.1.pushed _ _, hcall.2⟩
    | panicked =>
        rw [hstate] at hcall
        exact hcall
  have hown : w'.Submitted w.queue.nextTicket c := by
    refine ⟨command, ?_⟩
    show (w.submitted ++ [(c, command)])[w.queue.nextTicket]? = _
    rw [hagrees.next]
    simp
  refine World.Ok.land hagrees' hcalls hown ?_ (Or.inl rfl) (Or.inl ?_)
  · intro f hflying
    refine hagrees.proposer_ne hflying ?_
    rw [hc]
    nofun
  · show _ ∈ (w.queue.waiting ++ [(w.queue.nextTicket, command)]).map Prod.fst
    simp

theorem World.Ok.wake {w : World caller answer}
    {done : List (Batch caller answer)} {flying : World.Flight caller}
    (h : w.Ok done flying) {c : caller} {ticket : Nat} {proposed : Bool}
    (hc : w.calls c = Call.woken ticket proposed) :
    exists flying', (w.wake c ticket proposed).Ok done flying' := by
  have hcall : w.CallOk done flying c (Call.woken ticket proposed) :=
    hc ▸ h.calls c
  rcases hcall with ⟨hown, hproposed, hpending⟩
  refine World.Ok.land h.agrees (fun other _ => h.calls other) hown ?_
    (Or.inl hproposed) hpending
  intro f hflying
  refine h.agrees.proposer_ne hflying ?_
  rw [hc]
  nofun

theorem World.Ok.stir {w : World caller answer}
    {done : List (Batch caller answer)} {flying : World.Flight caller}
    (h : w.Ok done flying) {c : caller} {ticket : Nat} {proposed : Bool}
    (hc : w.calls c = Call.asleep ticket proposed) :
    World.Ok { w with
      calls := Function.update w.calls c (Call.woken ticket proposed) } done
        flying := by
  have hagrees := h.agrees
  have hcall : w.CallOk done flying c (Call.asleep ticket proposed) :=
    hc ▸ h.calls c
  refine ⟨⟨hagrees.batches, hagrees.answered, hagrees.busy, hagrees.order,
    hagrees.next, hagrees.callers, hagrees.answers, ?_⟩, ?_⟩
  · intro other number items hflying
    have hne : other ≠ c := by
      refine hagrees.proposer_ne hflying ?_
      rw [hc]
      nofun
    show Function.update w.calls c _ other = _
    rw [Function.update_of_ne hne]
    exact hagrees.proposer other number items hflying
  · intro other
    show World.CallOk _ done flying other (Function.update w.calls c _ other)
    by_cases heq : other = c
    · rw [heq, Function.update_self]
      exact ⟨hcall.1, hcall.2.1, hcall.2.2.2⟩
    · rw [Function.update_of_ne heq]
      exact (h.calls other).keep rfl (fun _ _ hpend => hpend) (Or.inl rfl)

/-- What came back is noted with the batch it is for, and with no other. -/
theorem map_note {done : List (Batch caller answer)}
    (h : forall b, b ∈ done -> exists values, b.values = some values ∧
      values.length = b.items.length) (c : caller)
    (items : List (Nat × Bytes)) (values : List answer) :
    List.map (World.note c values) (done ++ [⟨c, items, none⟩]) =
      done ++ [⟨c, items, some values⟩] := by
  have hdone : done.map (World.note c values) = done.map id := by
    apply List.map_congr_left
    intro b hb
    rcases h b hb with ⟨old, hvalues, _⟩
    apply if_neg
    rw [hvalues]
    exact fun hnone => by cases hnone.2
  rw [List.map_append, hdone, List.map_id]
  simp [World.note]

/-- The proposer's answers come back, and it finds its own among them. -/
theorem World.Ok.comeBack {w : World caller answer}
    {done : List (Batch caller answer)} {flying : World.Flight caller}
    (h : w.Ok done flying) {c : caller} {ticket : Nat} {tickets : List Nat}
    {commands : List Bytes} {values : List answer}
    (hc : w.calls c = Call.proposing ticket tickets commands)
    (hvalues : values.length = commands.length) :
    (exists done', (w.comeBack c ticket tickets values).Ok done' none) ∧
      exists value, (w.comeBack c ticket tickets values).calls c =
        Call.returned ticket value := by
  have hagrees := h.agrees
  have hcall : w.CallOk done flying c
      (Call.proposing ticket tickets commands) := hc ▸ h.calls c
  rcases hcall with ⟨items, hflying, hunzip, hown, hin⟩
  subst hflying
  have htickets : tickets = items.map Prod.fst := by
    have hfst := congrArg Prod.fst hunzip
    rw [List.unzip_fst] at hfst
    exact hfst.symm
  have hlength : values.length = items.length := by
    have hsnd := congrArg Prod.snd hunzip
    rw [List.unzip_snd] at hsnd
    rw [hvalues, ← List.length_map (f := Prod.snd), hsnd]
  let answered : Batch caller answer :=
    { proposer := c, items := items, values := some values }
  let w' : World caller answer :=
    { w with
      queue := w.queue.settle tickets values
      calls := World.wakeAll w.calls
      batches := w.batches.map (World.note c values) }
  have hbatches : w'.batches = done ++ [answered] := by
    show w.batches.map (World.note c values) = _
    rw [hagrees.batches]
    exact map_note hagrees.answered c items values
  have hready : forall number, number ∈ items.map Prod.fst ∨
      (w.queue.answers.lookup number).isSome = true ->
        (w'.queue.answers.lookup number).isSome = true := by
    intro number hnumber
    refine Totals.isSome_lookup_fill ?_
    rcases hnumber with hitem | hold
    · left
      rw [List.map_fst_zip (by rw [htickets, List.length_map, hlength]),
        htickets]
      exact hitem
    · exact Or.inr hold
  have hagrees' : w'.Agrees (done ++ [answered]) none := by
    refine ⟨?_, ?_, rfl, ?_, hagrees.next, hagrees.callers, ?_, nofun⟩
    · rw [hbatches]
      simp
    · intro b hb
      rcases List.mem_append.mp hb with hold | hlast
      · exact hagrees.answered b hold
      · rw [List.mem_singleton.mp hlast]
        exact ⟨values, rfl, hlength⟩
    · show w'.batches.flatMap Batch.items ++ w.queue.waiting = _
      rw [hbatches]
      have horder := hagrees.order
      rw [hagrees.batches] at horder
      simpa [answered] using horder
    · intro number value hlookup
      rcases Totals.mem_of_lookup_fill hlookup with hgiven | hold
      · rcases List.getElem?_of_mem hgiven with ⟨k, hk⟩
        rcases List.getElem?_zip_eq_some.mp hk with ⟨hticket, hvalue⟩
        rw [htickets, List.getElem?_map] at hticket
        rcases Option.map_eq_some_iff.mp hticket with ⟨item, hitem, hfst⟩
        refine ⟨item.2, answered, List.mem_append_right _
          (List.mem_singleton_self _), values, k, rfl, ?_, hvalue⟩
        have hnumber : item.1 = number := hfst
        show items[k]? = _
        rw [hitem, ← hnumber]
      · rcases hagrees.answers number value hold with ⟨command, hgiven⟩
        exact ⟨command, hgiven.mono⟩
  have hpending : forall number,
      w.Pending (World.Flight.items (some (c, ticket, items))) number ->
        w'.Pending (World.Flight.items (none : World.Flight caller)) number := by
    intro number hpend
    rcases hpend with hwaiting | hitem | hold
    · exact Or.inl hwaiting
    · exact Or.inr (Or.inr (hready number (Or.inl hitem)))
    · exact Or.inr (Or.inr (hready number (Or.inr hold)))
  have hcalls : forall other, other ≠ c ->
      w'.CallOk (done ++ [answered]) none other (w'.calls other) := by
    intro other hother
    have hcall := h.calls other
    show World.CallOk _ _ _ other (World.wakeAll w.calls other)
    unfold World.wakeAll
    cases hstate : w.calls other with
    | outside =>
        rw [hstate] at hcall
        exact hcall
    | asleep number proposed =>
        rw [hstate] at hcall
        rcases hcall with ⟨hnumber, hproposed, _, hpend⟩
        exact ⟨hnumber, hproposed, hpending number hpend⟩
    | woken number proposed =>
        rw [hstate] at hcall
        rcases hcall with ⟨hnumber, hproposed, hpend⟩
        exact ⟨hnumber, hproposed, hpending number hpend⟩
    | proposing number numbers commands =>
        rw [hstate] at hcall
        rcases hcall with ⟨_, hflying, _⟩
        cases hflying
        exact absurd rfl hother
    | returned number value =>
        rw [hstate] at hcall
        rcases hcall with ⟨hnumber, command, hgiven⟩
        exact ⟨hnumber, command, hgiven.mono⟩
    | panicked =>
        rw [hstate] at hcall
        exact hcall
  have hself := hready ticket (Or.inl hin)
  rcases Option.isSome_iff_exists.mp hself with ⟨value, hvalue⟩
  rcases World.Ok.returns hagrees' hcalls hown true nofun hvalue with
    ⟨hok, hreturned⟩
  refine ⟨⟨_, hok⟩, value, ?_⟩
  show Function.update (World.wakeAll w.calls) c _ c = _
  rw [Function.update_self]
  exact hreturned

/-!
# Runs
-/

theorem Step.ok {w w' : World caller answer} (hstep : Step w w')
    {done : List (Batch caller answer)} {flying : World.Flight caller}
    (h : w.Ok done flying) : exists done' flying', w'.Ok done' flying' := by
  cases hstep with
  | submit c command hc => exact ⟨done, h.submit command hc⟩
  | wake c ticket proposed hc => exact ⟨done, h.wake hc⟩
  | stir c ticket proposed hc => exact ⟨done, flying, h.stir hc⟩
  | comeBack c ticket tickets commands values hc hvalues =>
      rcases (h.comeBack hc hvalues).1 with ⟨done', hok⟩
      exact ⟨done', none, hok⟩

theorem Run.ok {w : World caller answer} (hrun : Run {} w) :
    exists done flying, w.Ok done flying := by
  induction hrun with
  | refl => exact ⟨[], none, World.ok_start⟩
  | tail _ hstep ih =>
      rcases ih with ⟨done, flying, h⟩
      exact hstep.ok h

section Progress

variable [Inhabited answer] {w : World caller answer}
  {done : List (Batch caller answer)}

theorem World.Ok.proposer_returns {flying : World.Flight caller}
    (h : w.Ok done flying) {c : caller} {ticket : Nat} {tickets : List Nat}
    {commands : List Bytes}
    (hc : w.calls c = Call.proposing ticket tickets commands) :
    exists w', Run w w' ∧ exists value, w'.calls c =
      Call.returned ticket value := by
  have hvalues : (List.replicate commands.length (default : answer)).length =
      commands.length := List.length_replicate
  exact ⟨_, Relation.ReflTransGen.single
    (Step.comeBack c ticket tickets commands _ hc hvalues),
    (h.comeBack hc hvalues).2⟩

/-- While nobody proposes, a call that is awake returns, or proposes and then
returns. -/
theorem World.Ok.woken_returns (h : w.Ok done none) {c : caller} {ticket : Nat}
    {proposed : Bool} (hc : w.calls c = Call.woken ticket proposed) :
    exists w', Run w w' ∧ exists value, w'.calls c =
      Call.returned ticket value := by
  have hcall : w.CallOk done none c (Call.woken ticket proposed) :=
    hc ▸ h.calls c
  rcases hcall with ⟨hown, hfresh, hpending⟩
  subst hfresh
  have hstep := Step.wake c ticket false hc
  have hself : (w.wake c ticket false).calls c =
      (w.queue.turn ticket false).2 := Function.update_self _ _ _
  cases hanswer : w.queue.answers.lookup ticket with
  | some value =>
      rcases World.Ok.returns h.agrees (fun other _ => h.calls other) hown false
        nofun hanswer with ⟨_, hreturned⟩
      exact ⟨_, Relation.ReflTransGen.single hstep, value,
        hself.trans hreturned⟩
  | none =>
      rcases World.Ok.takes h.agrees (fun other _ => h.calls other) hown rfl
        hanswer hpending with ⟨hok, hproposing⟩
      have hok' : (w.wake c ticket false).Ok done _ := hok
      rcases hok'.proposer_returns (hself.trans hproposing) with
        ⟨w', hrun, value, hreturned⟩
      exact ⟨w', Relation.ReflTransGen.head hstep hrun, value, hreturned⟩

/-- From every state, each call that came in can return. -/
theorem World.Ok.returns_in_time {flying : World.Flight caller}
    (h : w.Ok done flying) {c : caller} {s : caller × Bytes}
    (hs : s ∈ w.submitted) (hc : s.1 = c) :
    exists w', Run w w' ∧ exists ticket value, w'.calls c =
      Call.returned ticket value := by
  -- the call of the batch being proposed comes back first, and wakes all others
  have hsettled : forall ticket proposed,
      World.wakeAll w.calls c = Call.woken ticket proposed ->
      (forall number numbers commands,
        w.calls c ≠ Call.proposing number numbers commands) ->
      (flying = none -> w.calls c = Call.woken ticket proposed) ->
        exists w', Run w w' ∧ exists ticket value, w'.calls c =
          Call.returned ticket value := by
    intro ticket proposed hwoken hidle hnone
    cases flying with
    | none =>
        rcases h.woken_returns (hnone rfl) with ⟨w', hrun, value, hreturned⟩
        exact ⟨w', hrun, ticket, value, hreturned⟩
    | some f =>
        rcases f with ⟨other, number, items⟩
        have hproposing := h.agrees.proposer other number items rfl
        have hother : other ≠ c := h.agrees.proposer_ne rfl hidle
        have hvalues : (List.replicate items.unzip.2.length
            (default : answer)).length = items.unzip.2.length :=
          List.length_replicate
        rcases (h.comeBack hproposing hvalues).1 with ⟨done', hok⟩
        have hstep := Step.comeBack other number _ _ _ hproposing hvalues
        have hc' : (w.comeBack other number items.unzip.1
            (List.replicate items.unzip.2.length default)).calls c =
              Call.woken ticket proposed := by
          show Function.update (World.wakeAll w.calls) other _ c = _
          rw [Function.update_of_ne (Ne.symm hother)]
          exact hwoken
        rcases hok.woken_returns hc' with ⟨w', hrun, value, hreturned⟩
        exact ⟨w', Relation.ReflTransGen.head hstep hrun, ticket, value,
          hreturned⟩
  have hcall := h.calls c
  cases hstate : w.calls c with
  | outside =>
      rw [hstate] at hcall
      exact absurd hc (hcall s hs)
  | asleep ticket proposed =>
      rw [hstate] at hcall
      refine hsettled ticket proposed (by rw [World.wakeAll, hstate])
        (by rw [hstate]; nofun) ?_
      intro hnone
      rw [hnone] at hcall
      cases hcall.2.2.1
  | woken ticket proposed =>
      exact hsettled ticket proposed (by rw [World.wakeAll, hstate])
        (by rw [hstate]; nofun) (fun _ => hstate)
  | proposing ticket tickets commands =>
      rcases h.proposer_returns hstate with ⟨w', hrun, value, hreturned⟩
      exact ⟨w', hrun, ticket, value, hreturned⟩
  | returned ticket value =>
      exact ⟨w, Relation.ReflTransGen.refl, ticket, value, hstate⟩
  | panicked =>
      rw [hstate] at hcall
      exact absurd hcall id

end Progress

end Invariant

/-- However the calls of `submit` interleave: the batches, one after another, and then
what still waits are the commands in ticket order, each of them once; only the last
batch can be in flight, and one call at most is proposing; a call that returns has the
answer that was given for its own command; no call proposes twice; and each call can
always still return. -/
theorem proposals_exactly_once {caller answer : Type} [DecidableEq caller]
    [Inhabited answer] {w : World caller answer} (hrun : Run {} w) :
    w.batches.flatMap Batch.items ++ w.queue.waiting = ticketed w.submitted ∧
      (w.submitted.map Prod.fst).Nodup ∧
      (forall k b, w.batches[k]? = some b -> b.values = none ->
        k + 1 = w.batches.length) ∧
      (forall c c' ticket ticket' tickets tickets' commands commands',
        w.calls c = Call.proposing ticket tickets commands ->
        w.calls c' = Call.proposing ticket' tickets' commands' -> c = c') ∧
      (forall c ticket value, w.calls c = Call.returned ticket value ->
        exists command, w.submitted[ticket]? = some (c, command) ∧
          Given w.batches ticket command value) ∧
      (forall c, w.calls c ≠ Call.panicked) ∧
      forall s, s ∈ w.submitted -> exists w', Run w w' ∧
        exists ticket value, w'.calls s.1 = Call.returned ticket value := by
  rcases hrun.ok with ⟨done, flying, h⟩
  refine ⟨h.agrees.order, h.agrees.callers,
    fun k b hb hnone => h.agrees.last hb hnone, ?_, ?_, ?_,
    fun s hs => h.returns_in_time hs rfl⟩
  · intro c c' ticket ticket' tickets tickets' commands commands' hc hc'
    have hcall := h.calls c
    have hcall' := h.calls c'
    rw [hc] at hcall
    rw [hc'] at hcall'
    rcases hcall with ⟨items, hflying, _⟩
    rcases hcall' with ⟨items', hflying', _⟩
    rw [hflying] at hflying'
    cases hflying'
    rfl
  · intro c ticket value hc
    have hcall := h.calls c
    rw [hc] at hcall
    rcases hcall with ⟨hown, command, hgiven⟩
    exact ⟨command, h.agrees.given hgiven hown⟩
  · intro c hc
    have hcall := h.calls c
    rw [hc] at hcall
    exact hcall

/-- A second call comes in while the first proposes, and goes out in a batch of its
own. -/
theorem proposals_exactly_once_two :
    exists w : World Nat Nat, Run {} w ∧
      w.calls 0 = Call.returned 0 7 ∧ w.calls 1 = Call.returned 1 8 ∧
      w.batches.flatMap Batch.items ++ w.queue.waiting =
        [(0, [65]), (1, [66])] := by
  let w1 : World Nat Nat := World.submit {} 0 [65]
  let w2 : World Nat Nat := w1.submit 1 [66]
  let w3 : World Nat Nat := w2.comeBack 0 0 [0] [7]
  let w4 : World Nat Nat := w3.wake 1 1 false
  let w5 : World Nat Nat := w4.comeBack 1 1 [1] [8]
  have hrun1 : Run {} w1 := Relation.ReflTransGen.single (Step.submit 0 [65] rfl)
  have hrun2 : Run {} w2 := hrun1.tail (Step.submit 1 [66] rfl)
  have hrun3 : Run {} w3 :=
    hrun2.tail (Step.comeBack 0 0 [0] [[65]] [7] rfl rfl)
  have hrun4 : Run {} w4 := hrun3.tail (Step.wake 1 1 false rfl)
  have hrun5 : Run {} w5 :=
    hrun4.tail (Step.comeBack 1 1 [1] [[66]] [8] rfl rfl)
  exact ⟨w5, hrun5, rfl, rfl, (proposals_exactly_once hrun5).1⟩

end Proposals
end Minicask
