import Minicask.Server.Clients
import Minicask.Server.Marks

/-!
# One keyspace for all clients

Whatever the clients send, and in whatever order their threads run, they are served as
if one after another by a keyspace: in the order in which their commands took the lock.
Each client is told what the keyspace replied to it, in the order in which it asked.
-/

namespace Minicask
namespace Server

open Replay Resp

/-!
# What a keyspace serves
-/

/-- The keyspace serves these commands one after another, with these replies, and each
of them is made of these writes. -/
inductive Keyspace.Carried (start : Keyspace) :
    List Asked -> List (List (Write Bytes Bytes)) -> Keyspace -> Prop where
  | nothing : Carried start [] [] start
  | command {history : List Asked} {wrote : List (List (Write Bytes Bytes))}
      {m : Keyspace} {a : Asked} {writes : List (Write Bytes Bytes)}
      (h : Carried start history wrote m)
      (hreply : (m.serve a.command a.args).1 = a.reply)
      (hmade : m.Made a.command a.args writes)
      (hvalue : (m.serve a.command a.args).2.value = replay m.value writes) :
      Carried start (history ++ [a]) (wrote ++ [writes])
        (m.serve a.command a.args).2

namespace Keyspace.Carried

variable {start m : Keyspace} {history : List Asked}
  {wrote : List (List (Write Bytes Bytes))}

theorem value (h : start.Carried history wrote m) :
    m.value = replay start.value wrote.flatten := by
  induction h with
  | nothing => rfl
  | command h hreply hmade hvalue ih =>
      rw [hvalue, ih, List.flatten_append, replay_append, List.flatten_singleton]

theorem length (h : start.Carried history wrote m) :
    wrote.length = history.length := by
  induction h with
  | nothing => rfl
  | command _ _ _ _ ih =>
      rw [List.length_append, List.length_append, ih]
      rfl

end Keyspace.Carried

/-!
# What a client asks and is told
-/

/-- What has been read of this input, and what is left of it. -/
inductive Asks (input : Bytes) : List (Bytes × List Bytes) -> Bytes -> Prop where
  | nothing : Asks input [] input
  | blank {asked : List (Bytes × List Bytes)} {rest rest' : Bytes}
      (h : Asks input asked rest)
      (hread : readCommand rest = Except.ok (some [], rest')) : Asks input asked rest'
  | command {asked : List (Bytes × List Bytes)} {command rest rest' : Bytes}
      {args : List Bytes} (h : Asks input asked rest)
      (hread : readCommand rest = Except.ok (some (command :: args), rest')) :
      Asks input (asked ++ [(command, args)]) rest'

theorem Asks.suffix {input rest : Bytes} {asked : List (Bytes × List Bytes)}
    (h : Asks input asked rest) : rest <:+ input := by
  induction h with
  | nothing => exact List.suffix_refl input
  | blank _ hread ih => exact (readCommand_spec hread).1.trans ih
  | command _ hread ih => exact (readCommand_spec hread).1.trans ih

namespace Connection

/-- The client is told these replies in order, all of them as long as it stays, and
then perhaps why there are no more. -/
structure Told (c : Connection) (replies : List Reply) : Prop where
  replies : exists ends, c.sent ++ c.out <+: replies ++ ends ∧
    (c.activity ≠ Activity.closed -> c.sent ++ c.out = replies ++ ends) ∧
    (ends = [] ∨ (exists why, ends = [Reply.err ("Protocol error: " ++ why)]) ∧
      (c.activity = Activity.sending true ∨ c.activity = Activity.closed))
  farewell : c.farewell = [] ∨
    c.activity = Activity.closed ∧ exists e, c.farewell = [refusal e]

/-- What a connection is, after its client asked so much. -/
structure Ok (c : Connection) (input : Bytes) (asked : List Asked) : Prop where
  asks : Asks input (asked.map Asked.words) c.unread
  told : c.Told (asked.map Asked.reply)
  held : c.activity = Activity.reading ->
    (Reply.writeAll c.out).length < maxHeldReplies

theorem nothing_held : (Reply.writeAll []).length < maxHeldReplies := by decide

namespace Ok

variable {c : Connection} {input : Bytes} {asked : List Asked}

theorem accept (input : Bytes) : (Connection.accept input).Ok input [] where
  asks := Asks.nothing
  told := ⟨⟨[], List.prefix_refl _, fun _ => rfl, Or.inl rfl⟩, Or.inl rfl⟩
  held _ := nothing_held

/-- A connection that is to go on has every reply there is. -/
theorem all_of_staying (h : c.Ok input asked)
    (hstays : c.activity = Activity.reading ∨ c.activity = Activity.sending false) :
    c.sent ++ c.out = asked.map Asked.reply ∧ c.farewell = [] := by
  rcases h.told with ⟨⟨ends, _, hall, hends⟩, hfarewell⟩
  have hopen : c.activity ≠ Activity.closed := by
    rcases hstays with heq | heq
    · rw [heq]
      nofun
    · rw [heq]
      nofun
  have hleaving : c.activity ≠ Activity.sending true := by
    rcases hstays with heq | heq
    · rw [heq]
      nofun
    · rw [heq]
      nofun
  have hnone : ends = [] :=
    hends.resolve_right fun hsaid => hsaid.2.elim hleaving hopen
  refine ⟨?_, hfarewell.resolve_right fun hsaid => hopen hsaid.1⟩
  rw [hall hopen, hnone, List.append_nil]

theorem hold (h : c.Ok input asked) (hreading : c.activity = Activity.reading)
    {a : Asked} {rest : Bytes} (quit idle : Bool)
    (hread : readCommand c.unread = Except.ok (some (a.command :: a.args), rest)) :
    (c.hold rest a.reply quit idle).Ok input (asked ++ [a]) := by
  rcases h.all_of_staying (Or.inl hreading) with ⟨hall, hfarewell⟩
  refine ⟨?_, ⟨⟨[], ?_, fun _ => ?_, Or.inl rfl⟩, Or.inl hfarewell⟩, ?_⟩
  · rw [List.map_append]
    exact Asks.command h.asks hread
  · rewrite [List.append_nil, List.map_append, ← hall, List.append_assoc]
    exact List.prefix_refl _
  · rw [List.append_nil, List.map_append, ← hall, List.append_assoc]
    rfl
  · intro hactivity
    unfold Connection.hold at hactivity ⊢
    dsimp only at hactivity ⊢
    split at hactivity
    · cases hactivity
    · next hmore =>
        rw [Bool.or_eq_true, decide_eq_true_iff, not_or] at hmore
        exact Nat.lt_of_not_le hmore.2

theorem skip (h : c.Ok input asked) {rest : Bytes}
    (hread : readCommand c.unread = Except.ok (some [], rest)) :
    (c.skip rest).Ok input asked :=
  ⟨Asks.blank h.asks hread, ⟨h.told.replies, h.told.farewell⟩, h.held⟩

theorem refuse (h : c.Ok input asked) (hreading : c.activity = Activity.reading)
    (why : String) : (c.refuse why).Ok input asked := by
  rcases h.all_of_staying (Or.inl hreading) with ⟨hall, hfarewell⟩
  refine ⟨h.asks, ⟨⟨_, ?_, fun _ => ?_, Or.inr ⟨⟨why, rfl⟩, Or.inl rfl⟩⟩,
    Or.inl hfarewell⟩, nofun⟩
  · rewrite [← hall, List.append_assoc]
    exact List.prefix_refl _
  · rw [← hall, List.append_assoc]
    rfl

theorem close (h : c.Ok input asked) {c' : Connection}
    (hunread : c'.unread = c.unread) (hsent : c'.sent <+: c.sent ++ c.out)
    (hout : c'.out = []) (hclosed : c'.activity = Activity.closed)
    (hfarewell : c'.farewell = c.farewell ∨ exists e, c'.farewell <+: [refusal e]) :
    c'.Ok input asked := by
  rcases h.told with ⟨⟨ends, hstarts, _, hends⟩, hbefore⟩
  refine ⟨hunread ▸ h.asks, ⟨⟨ends, ?_, fun hopen => absurd hclosed hopen, ?_⟩, ?_⟩,
    ?_⟩
  · rewrite [hout, List.append_nil]
    exact hsent.trans hstarts
  · exact hends.imp id fun hsaid => ⟨hsaid.1, Or.inr hclosed⟩
  · rcases hfarewell with hsame | ⟨e, hsaid⟩
    · rw [hsame]
      exact hbefore.imp id fun hbefore => ⟨hclosed, hbefore.2⟩
    · rcases List.prefix_cons_iff.mp hsaid with hnone | ⟨rest, hrest, hnil⟩
      · exact Or.inl hnone
      · rw [hrest, List.prefix_nil.mp hnil]
        exact Or.inr ⟨hclosed, e, rfl⟩
  · rw [hclosed]
    nofun

theorem hangUp (h : c.Ok input asked) : c.hangUp.Ok input asked :=
  h.close rfl (List.prefix_append _ _) rfl rfl (Or.inl rfl)

theorem lose (h : c.Ok input asked) {gone : List Reply} (hgone : gone <+: c.out) :
    (c.lose gone).Ok input asked :=
  h.close rfl ((List.prefix_append_right_inj c.sent).mpr hgone) rfl rfl (Or.inl rfl)

theorem giveUp (h : c.Ok input asked) {said : List Reply} {e : Error}
    (hsaid : said <+: [refusal e]) : (c.giveUp said).Ok input asked :=
  h.close rfl (List.prefix_append _ _) rfl rfl (Or.inr ⟨e, hsaid⟩)

theorem send (h : c.Ok input asked) {leaving : Bool}
    (hsending : c.activity = Activity.sending leaving) :
    (c.send leaving).Ok input asked := by
  cases leaving with
  | true =>
      exact h.close rfl (List.prefix_refl _) rfl rfl (Or.inl rfl)
  | false =>
      rcases h.all_of_staying (Or.inr hsending) with ⟨hall, hfarewell⟩
      refine ⟨h.asks, ⟨⟨[], ?_, fun _ => ?_, Or.inl rfl⟩, Or.inl hfarewell⟩,
        fun _ => nothing_held⟩
      · show (c.sent ++ c.out) ++ [] <+: _
        rewrite [hall]
        exact List.prefix_refl _
      · show (c.sent ++ c.out) ++ [] = _
        rw [hall]

end Ok
end Connection

/-!
# What holds all along
-/

theorem askedBy_append (i : Nat) (history more : List Asked) :
    askedBy i (history ++ more) = askedBy i history ++ askedBy i more :=
  List.filter_append ..

theorem askedBy_one (a : Asked) : askedBy a.client [a] = [a] :=
  List.filter_eq_self.mpr fun b hb => by
    rw [List.mem_singleton.mp hb]
    exact beq_self_eq_true _

theorem askedBy_other {i : Nat} {a : Asked} (hne : a.client ≠ i) :
    askedBy i [a] = [] :=
  List.filter_eq_nil_iff.mpr fun b hb => by
    rw [List.mem_singleton.mp hb]
    exact fun heq => hne (beq_iff_eq.mp heq)

namespace Stage

/-- An fsync that is under way began with whole records in the kernel. -/
def Whole (chart : Chart) : Stage -> Prop
  | syncing _ handle extent =>
      exists rs, rs <+: chart handle.file ∧ (Rec.join rs).length = extent
  | _ => True

theorem Whole.grown {active : FileId} {chart chart' : Chart} {stage : Stage}
    (h : stage.Whole chart) (hgrown : Chart.Grown active chart chart') :
    stage.Whole chart' := by
  cases stage with
  | syncing point handle extent =>
      rcases h with ⟨rs, hrs, hlength⟩
      exact ⟨rs, hrs.trans (hgrown.kept _), hlength⟩
  | serving _ => trivial
  | waiting _ => trivial
  | elected _ => trivial
  | holding _ _ => trivial
  | synced _ _ => trivial
  | noted _ _ => trivial
  | acknowledged _ => trivial
  | failed _ _ => trivial

theorem whole_turn (state : Durable) (point : Point) (chart : Chart) :
    (turn state point).2.Whole chart := by
  unfold turn
  split
  · trivial
  · split <;> trivial

theorem whole_settle (state : Durable) (point : Point) (result : Except Error Point)
    (chart : Chart) : (settle state point result).2.Whole chart := by
  unfold settle
  cases result with
  | error e => trivial
  | ok reached => exact whole_turn _ point chart

end Stage

theorem Threads.forall_enter {P : Stage -> Prop} {t : Threads} {i : Nat}
    {stage : Stage} (h : forall j, P (t.stage j)) (hstage : P stage) (j : Nat) :
    P ((t.enter i stage).stage j) := by
  unfold Threads.enter
  by_cases heq : j = i
  · rw [heq]
    simpa using hstage
  · simpa [Function.update_of_ne heq] using h j

theorem Threads.waits_of_moved {t : Threads} {i j : Nat} {stage : Stage}
    (hwaits : (t.stage i).Waits) (hmoved : (t.enter j stage).stage i ≠ t.stage i) :
    (t.stage j).Waits := by
  have heq : j = i := by
    by_contra hne
    exact hmoved (Function.update_of_ne (Ne.symm hne) ..)
  rw [heq]
  exact hwaits

/-- What a step leaves of what was. -/
structure Onward (s : Store) (wrote : List (List (Write Bytes Bytes))) (chart : Chart)
    (marks : Nat -> Nat) (s' : Store) (chart' : Chart) (marks' : Nat -> Nat) :
    Prop where
  grew : s.Grew s'
  opts : s'.opts = s.opts
  grown : Chart.Grown s.writer.fileId chart chart'
  marks : forall n, n <= wrote.flatten.length -> marks' n = marks n

namespace Service

/-- The log has what the keyspace was made of, the threads and connections are what
they should be, and whatever an fsync will make durable is whole records. -/
structure Ok (first : Store) (start : Keyspace) (inputs : Nat -> Bytes)
    (history : List Asked) (wrote : List (List (Write Bytes Bytes))) (chart : Chart)
    (marks : Nat -> Nat) (v : Service) : Prop where
  carried : exists finish, start.Carried history wrote finish
  kept : Kept v.threads.store start.value wrote.flatten chart marks
  threads : v.threads.Ok first
  whole : forall i, (v.threads.stage i).Whole chart
  connections : forall i, (v.connections i).Ok (inputs i) (askedBy i history)

namespace Ok

variable {first : Store} {start : Keyspace} {inputs : Nat -> Bytes}
  {history : List Asked} {wrote : List (List (Write Bytes Bytes))} {chart : Chart}
  {marks : Nat -> Nat} {v v' : Service}

theorem listen {s : Store} (h : s.Serves start.value) (inputs : Nat -> Bytes) :
    exists chart, Ok s start inputs [] [] chart
      (fun _ => (logged chart s.writer.fileId).length) (listen s inputs) := by
  rcases Kept.start h with ⟨chart, hkept⟩
  exact ⟨chart, ⟨start, Keyspace.Carried.nothing⟩, hkept, Threads.ok_bind h.1.writer,
    fun _ => trivial, fun i => Connection.Ok.accept (inputs i)⟩

theorem put (h : Ok first start inputs history wrote chart marks v) {i : Nat}
    {c : Connection} (hc : c.Ok (inputs i) (askedBy i history)) :
    Ok first start inputs history wrote chart marks (v.put i c) := by
  refine ⟨h.carried, h.kept, h.threads, h.whole, ?_⟩
  intro j
  unfold Service.put
  by_cases heq : j = i
  · rw [heq]
    simpa using hc
  · simpa [Function.update_of_ne heq] using h.connections j

theorem waits (h : Ok first start inputs history wrote chart marks v) {i : Nat}
    {t : Threads} (hwaits : (v.threads.stage i).Waits) (hstep : v.threads.Step t)
    (hmoved : t.stage i ≠ v.threads.stage i) :
    t.store.opts = v.threads.store.opts ∧
      Kept t.store start.value wrote.flatten chart marks ∧
      forall j, (t.stage j).Whole chart := by
  cases hstep with
  | command os command args hstage _ =>
      have hserving : (v.threads.stage _).Waits :=
        Threads.waits_of_moved hwaits hmoved
      rw [hstage] at hserving
      exact hserving.elim
  | refused bytes reach refusal hstage _ =>
      have hserving : (v.threads.stage _).Waits :=
        Threads.waits_of_moved hwaits hmoved
      rw [hstage] at hserving
      exact hserving.elim
  | send hstage =>
      have hserving := Threads.waits_of_moved hwaits hmoved
      rw [hstage] at hserving
      exact hserving.elim
  | reply hstage =>
      have hacknowledged := Threads.waits_of_moved hwaits hmoved
      rw [hstage] at hacknowledged
      exact hacknowledged.elim
  | @lock j point hstage =>
      exact ⟨rfl, h.kept,
        Threads.forall_enter h.whole (Stage.whole_turn _ point chart)⟩
  | handle hstage =>
      exact ⟨rfl, h.kept.syncHandle, Threads.forall_enter h.whole trivial⟩
  | handleRefused flushed why hstage =>
      cases flushed with
      | true => exact ⟨rfl, h.kept.syncHandle, Threads.forall_enter h.whole trivial⟩
      | false => exact ⟨rfl, h.kept, Threads.forall_enter h.whole trivial⟩
  | @enterFsync j point handle hstage =>
      refine ⟨rfl, h.kept, Threads.forall_enter h.whole ?_⟩
      rcases h.kept.contents_whole handle.file with ⟨rs, hrs, hcontents⟩
      refine ⟨rs, hrs, ?_⟩
      rw [hcontents]
  | @leaveFsync j point handle extent hstage =>
      have hextent := h.whole j
      rw [hstage] at hextent
      exact ⟨rfl, h.kept.syncUpTo hextent, Threads.forall_enter h.whole trivial⟩
  | fsyncRefused why hstage =>
      exact ⟨rfl, h.kept, Threads.forall_enter h.whole trivial⟩
  | @note j point reached hstage =>
      refine ⟨?_, h.kept.noteSynced reached, Threads.forall_enter h.whole trivial⟩
      show (v.threads.store.noteSynced reached).opts = _
      unfold Store.noteSynced
      split <;> rfl
  | skip hstage => exact ⟨rfl, h.kept, Threads.forall_enter h.whole trivial⟩
  | @settle j point result hstage =>
      exact ⟨rfl, h.kept,
        Threads.forall_enter h.whole (Stage.whole_settle _ point result chart)⟩

/-- A step leaves a log that goes on from what it was. -/
theorem step (h : Ok first start inputs history wrote chart marks v)
    (hlines : forall i, ShortLines (inputs i)) {asked : Option Asked}
    (hstep : v.Step asked v') :
    exists more chart' marks', more.length = asked.toList.length ∧
      Onward v.threads.store wrote chart marks v'.threads.store chart' marks' ∧
      Ok first start inputs (history ++ asked.toList) (wrote ++ more) chart' marks'
        v' := by
  have hok := h.kept.ok.writer
  have hidle : forall {v' : Service}, v'.threads.store.opts = v.threads.store.opts ->
      v.threads.store.Grew v'.threads.store ->
      Ok first start inputs history wrote chart marks v' ->
      exists more chart' marks', more.length = ([] : List Asked).length ∧
        Onward v.threads.store wrote chart marks v'.threads.store chart' marks' ∧
        Ok first start inputs (history ++ []) (wrote ++ more) chart' marks' v' := by
    intro v' hopts hgrew hv
    refine ⟨[], chart, marks, rfl,
      ⟨hgrew, hopts, Chart.Grown.refl _ _, fun _ _ => rfl⟩, ?_⟩
    rw [List.append_nil, List.append_nil]
    exact hv
  have hsame := Store.Grew.refl hok
  cases hstep with
  | @command i durableBy durableBy' command rest args reply s os idle hreading hstage
      hread _ hgranted hdispatch =>
      rcases h.carried with ⟨m, hcarried⟩
      have hserves : v.threads.store.Serves m.value := by
        rw [hcarried.value]
        exact h.kept.serves
      have hconnection := h.connections i
      have hall := (readCommand_spec hread).2
        ((hlines i).rest hconnection.asks.suffix)
      have hfits : Fitting args := fun key hkey value hvalue =>
        hall key (List.mem_cons_of_mem command hkey) value
          (List.mem_cons_of_mem command hvalue)
      rcases dispatch_did hgranted hserves durableBy command hfits with
        ⟨hreply, writes, calls, hmade, hdid⟩
      have hopts := (writes_dispatch hgranted v.threads.store durableBy command
        args).opts
      have hthreads := h.threads.step
        (Threads.Step.command os command args hstage hgranted)
      rw [hdispatch] at hreply hdid hopts hthreads
      rcases h.kept.calls hdid.appends with ⟨chart', marks', hlater⟩
      rw [hdid.made, ← hdid.store] at hlater
      refine ⟨[writes], chart', marks', rfl,
        ⟨hthreads.1, hopts, hlater.grown, hlater.marks⟩,
        ⟨_, Keyspace.Carried.command hcarried hreply.symm hmade hdid.contents⟩, ?_,
        hthreads.2, ?_, ?_⟩
      · rw [List.flatten_append, List.flatten_singleton]
        exact hlater.kept
      · refine Threads.forall_enter (P := fun stage => stage.Whole chart')
          ?_ trivial
        exact fun j => (h.whole j).grown hlater.grown
      · intro j
        show (Function.update v.connections i _ j).Ok _ (askedBy j (history ++ [_]))
        rw [askedBy_append]
        by_cases heq : j = i
        · have hheld := hconnection.hold (a := ⟨i, command, args, reply⟩) hreading
            (isQuit command) idle hread
          rw [heq, Function.update_self]
          rw [← askedBy_one ⟨i, command, args, reply⟩] at hheld
          exact hheld
        · rw [Function.update_of_ne heq, askedBy_other (Ne.symm heq), List.append_nil]
          exact h.connections j
  | @blank i rest hreading hread =>
      exact hidle rfl hsame (h.put ((h.connections i).skip hread))
  | @garbage i why hreading hread =>
      exact hidle rfl hsame (h.put ((h.connections i).refuse hreading why))
  | @leave i hreading => exact hidle rfl hsame (h.put (h.connections i).hangUp)
  | wait hsending hstage =>
      have hthreads := h.threads.step (Threads.Step.send hstage)
      exact hidle rfl hthreads.1 ⟨h.carried, h.kept, hthreads.2,
        Threads.forall_enter h.whole trivial, h.connections⟩
  | waits hwaits hstep hmoved =>
      have hthreads := h.threads.step hstep
      rcases h.waits hwaits hstep hmoved with ⟨hopts, hkept, hwhole⟩
      exact hidle hopts hthreads.1 ⟨h.carried, hkept, hthreads.2, hwhole,
        h.connections⟩
  | waited hstage =>
      have hthreads := h.threads.step (Threads.Step.reply hstage)
      exact hidle rfl hthreads.1 ⟨h.carried, h.kept, hthreads.2,
        Threads.forall_enter h.whole trivial, h.connections⟩
  | @send i leaving hsending hstage =>
      exact hidle rfl hsame (h.put ((h.connections i).send hsending))
  | @broken i leaving gone hsending hstage hgone =>
      exact hidle rfl hsame (h.put ((h.connections i).lose hgone))
  | @failed i leaving point e said hsending hstage hsaid =>
      exact hidle rfl hsame (h.put ((h.connections i).giveUp hsaid))

end Ok
end Service

/-- Any number of clients, in any order of what their threads do. -/
theorem Service.Run.ok {s : Store} {start : Keyspace} (hserves : s.Serves start.value)
    {inputs : Nat -> Bytes} (hlines : forall i, ShortLines (inputs i))
    {history : List Asked} {v : Service} (hrun : Service.Run s inputs history v) :
    exists wrote chart marks, Ok s start inputs history wrote chart marks v := by
  induction hrun with
  | listen =>
      rcases Ok.listen hserves inputs with ⟨chart, hok⟩
      exact ⟨[], chart, _, hok⟩
  | step _ hstep ih =>
      rcases ih with ⟨wrote, chart, marks, hok⟩
      rcases hok.step hlines hstep with ⟨more, chart', marks', _, _, hnext⟩
      exact ⟨wrote ++ more, chart', marks', hnext⟩

theorem onDisk_newStore (opts : Options) : OnDisk (newStore opts) empty := by
  have hopenable : Openable ({} : Dir).disk (fun _ => []) [] := Store.openable_nothing
  rcases openWith_opened hopenable opts with ⟨s, hopen, hopened, _⟩
  have hondisk := onDisk_opened hopened settled_nothing hopen
  rw [openWith_nothing, Except.ok.injEq] at hopen
  have hempty : logged (fun _ => []) s.writer.fileId = [] := by
    rw [logged, List.flatMap_eq_nil_iff]
    exact fun _ _ => rfl
  rw [recorded, hempty, ← hopen] at hondisk
  exact hondisk

def setCommand : Command :=
  Command.array [[115, 101, 116], [107], [118]]

def delCommand : Command :=
  Command.array [[100, 101, 108], [107]]

theorem setCommand_fits : setCommand.Fits := by
  refine ⟨by decide, ?_⟩
  intro arg harg
  simp only [List.mem_cons, List.not_mem_nil, or_false] at harg
  rcases harg with heq | heq | heq <;> rw [heq] <;> decide

theorem delCommand_fits : delCommand.Fits := by
  refine ⟨by decide, ?_⟩
  intro arg harg
  simp only [List.mem_cons, List.not_mem_nil, or_false] at harg
  rcases harg with heq | heq <;> rw [heq] <;> decide

def setAndDel : Nat -> Bytes :=
  twoInputs setCommand.bytes delCommand.bytes

theorem shortLines_setAndDel (i : Nat) : ShortLines (setAndDel i) := by
  have hlength : (setAndDel i).length <= 29 := by
    unfold setAndDel
    match i with
    | 0 => decide +kernel
    | 1 => decide +kernel
    | n + 2 => exact Nat.zero_le _
  intro line hline _
  have hle := hline.length_le
  have hheader : headerLen <= 32 := by decide
  omega

def afterSet : Store :=
  (dispatch quiet (newStore {}) none [115, 101, 116] [[107], [118]]).2.1

def afterDel : Store :=
  (dispatch quiet (Service.synced afterSet) none [100, 101, 108] [[107]]).2.1

theorem dispatch_set :
    dispatch quiet (newStore {}) none [115, 101, 116] [[107], [118]] =
      (Reply.ok, afterSet, some (appendPoint afterSet)) := by
  refine Prod.ext rfl (Prod.ext rfl ?_)
  decide +kernel

theorem dispatch_del :
    dispatch quiet (Service.synced afterSet) none [100, 101, 108] [[107]] =
      (Reply.integer 1, afterDel, some (appendPoint afterDel)) := by
  refine Prod.ext rfl (Prod.ext rfl ?_)
  decide +kernel

/-- The first client was sent its reply.  The second was told what it found there, and
its reply is held. -/
def setThenDel : List Asked :=
  [{ client := 0, command := [115, 101, 116], args := [[107], [118]],
     reply := Reply.ok },
   { client := 1, command := [100, 101, 108], args := [[107]],
     reply := Reply.integer 1 }]

theorem run_setThenDel :
    exists v, Service.Run (newStore {}) setAndDel setThenDel v ∧
      v.threads.store = afterDel.syncHandle.2 ∧
      (v.connections 0).sent = [Reply.ok] ∧
      (v.connections 1).sent = [] ∧ (v.connections 1).out = [Reply.integer 1] := by
  have hgranted : forall turn, quiet.refused turn = none := fun _ => rfl
  have hwrote : Point.Before (appendPoint (newStore {})) (appendPoint afterSet) ∧
      Point.Before (appendPoint afterSet) (appendPoint afterDel) := by decide +kernel
  have hread : readCommand (setAndDel 0) = _ :=
    Service.readCommand_whole rfl setCommand_fits
  have hheld := Service.run_held hgranted hread dispatch_set
  have hsent := Service.run_sent hheld (Connection.activity_hold_idle _ _ _ _) hwrote.1
  have hboth := Service.run_behind hsent hgranted
    (Service.readCommand_whole rfl delCommand_fits) dispatch_del hwrote.2
  refine ⟨_, hboth, rfl, ?_, ?_⟩
  · rw [(Service.behind_connections ..).1]
    rfl
  · rw [(Service.behind_connections ..).2]
    exact ⟨rfl, rfl⟩

end Server
end Minicask
