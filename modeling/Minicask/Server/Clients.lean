import Minicask.Server.CutCommands
import Minicask.Server.Keyspace

/-!
# Connections

`server.rs`: each connection has a thread, which reads commands, carries each of them
out under a lock, and holds the replies until there is nothing left to parse or too
much to hold.  A step of the service is a step of one connection, so a run is what any
number of clients do, in any order.
-/

namespace Minicask
namespace Server

open Replay Resp

/-- Replies held for a pipelining client before they are sent regardless. -/
def maxHeldReplies : Nat := 64 * 1024

def isQuit (command : Bytes) : Bool :=
  command.map (fun byte =>
    if 97 <= byte && byte <= 122 then byte - 32 else byte) = [81, 85, 73, 84]

/-!
# A connection

A connection holds the replies to what its client pipelines, and sends them when nothing
more is left to parse or too much is held.
-/

/-- Between two commands, on the way to send what is held, or past it all. -/
inductive Activity where
  | reading
  | sending (leaving : Bool)
  | closed
deriving Repr, DecidableEq

/-- What the client has yet to be heard on, the replies that are held, those that were
sent, and what was said instead of the ones that never will be. -/
structure Connection where
  unread : Bytes
  out : List Reply
  sent : List Reply
  farewell : List Reply
  activity : Activity

namespace Connection

def accept (input : Bytes) : Connection where
  unread := input
  out := []
  sent := []
  farewell := []
  activity := Activity.reading

def skip (c : Connection) (rest : Bytes) : Connection :=
  { c with unread := rest }

/-- The reply is held.  All of them are sent when the client leaves, has nothing more
in the buffer, or is owed too much. -/
def hold (c : Connection) (rest : Bytes) (reply : Reply) (quit idle : Bool) :
    Connection :=
  let out := c.out ++ [reply]
  { c with
    unread := rest
    out := out
    activity :=
      if quit || idle || maxHeldReplies <= (Reply.writeAll out).length then
        Activity.sending quit
      else Activity.reading }

theorem activity_hold_idle (c : Connection) (rest : Bytes) (reply : Reply)
    (quit : Bool) : (c.hold rest reply quit true).activity = Activity.sending quit := by
  unfold hold
  simp

def refuse (c : Connection) (why : String) : Connection :=
  { c with
    out := c.out ++ [Reply.err ("Protocol error: " ++ why)]
    activity := Activity.sending true }

def hangUp (c : Connection) : Connection :=
  { c with out := [], activity := Activity.closed }

def send (c : Connection) (leaving : Bool) : Connection :=
  { c with
    out := []
    sent := c.sent ++ c.out
    activity := if leaving then Activity.closed else Activity.reading }

def lose (c : Connection) (gone : List Reply) : Connection :=
  { c with out := [], sent := c.sent ++ gone, activity := Activity.closed }

def giveUp (c : Connection) (said : List Reply) : Connection :=
  { c with out := [], farewell := said, activity := Activity.closed }

end Connection

/-!
# The service

One thread for each connection, and the store under its lock.  A `wait` is made of the
sections of the threads below it.
-/

structure Asked where
  client : Nat
  command : Bytes
  args : List Bytes
  reply : Reply

def Asked.words (a : Asked) : Bytes × List Bytes := (a.command, a.args)

def askedBy (i : Nat) (history : List Asked) : List Asked :=
  history.filter (fun a => a.client == i)

/-- The threads, and what each has of its connection. -/
structure Service where
  threads : Threads
  connections : Nat -> Connection

/-- Between taking a point to wait for and knowing how that went. -/
def Stage.Waits : Stage -> Prop
  | serving _ => False
  | acknowledged _ => False
  | failed _ _ => False
  | _ => True

def refusal (e : Error) : Reply :=
  Reply.err
    ("the disk refused to sync, so earlier writes may not be durable: " ++ e.display)

namespace Service

def put (v : Service) (i : Nat) (c : Connection) : Service :=
  { v with connections := Function.update v.connections i c }

def serve (v : Service) (i : Nat) (c : Connection) (s : Store)
    (durableBy : Option Point) : Service where
  threads := { v.threads with store := s }.enter i (Stage.serving durableBy)
  connections := Function.update v.connections i c

inductive Step (v : Service) : Option Asked -> Service -> Prop where
  | command {i : Nat} {durableBy durableBy' : Option Point} {command rest : Bytes}
      {args : List Bytes} {reply : Reply} {s : Store} (os : Answers) (idle : Bool)
      (hreading : (v.connections i).activity = Activity.reading)
      (hstage : v.threads.stage i = Stage.serving durableBy)
      (hread : readCommand (v.connections i).unread =
        Except.ok (some (command :: args), rest))
      (hidle : rest = [] -> idle = true)
      (hgranted : forall turn, os.refused turn = none)
      (hdispatch : dispatch os v.threads.store durableBy command args =
        (reply, s, durableBy')) :
      Step v
        (some { client := i, command := command, args := args, reply := reply })
        (v.serve i ((v.connections i).hold rest reply (isQuit command) idle) s
          durableBy')
  | blank {i : Nat} {rest : Bytes}
      (hreading : (v.connections i).activity = Activity.reading)
      (hread : readCommand (v.connections i).unread = Except.ok (some [], rest)) :
      Step v none (v.put i ((v.connections i).skip rest))
  | garbage {i : Nat} {why : String}
      (hreading : (v.connections i).activity = Activity.reading)
      (hread : readCommand (v.connections i).unread =
        Except.error (ReadError.invalidData why)) :
      Step v none (v.put i ((v.connections i).refuse why))
  /- The client hangs up, or cannot be heard any more. -/
  | leave {i : Nat} (hreading : (v.connections i).activity = Activity.reading) :
      Step v none (v.put i (v.connections i).hangUp)
  /- There are writes to wait for. -/
  | wait {i : Nat} {leaving : Bool} {point : Point}
      (hsending : (v.connections i).activity = Activity.sending leaving)
      (hstage : v.threads.stage i = Stage.serving (some point)) :
      Step v none { v with threads := v.threads.enter i (Stage.waiting point) }
  | waits {i : Nat} {t : Threads} (hwaits : (v.threads.stage i).Waits)
      (hstep : v.threads.Step t) (hmoved : t.stage i ≠ v.threads.stage i) :
      Step v none { v with threads := t }
  | waited {i : Nat} {point : Point}
      (hstage : v.threads.stage i = Stage.acknowledged point) :
      Step v none { v with threads := v.threads.enter i (Stage.serving none) }
  | send {i : Nat} {leaving : Bool}
      (hsending : (v.connections i).activity = Activity.sending leaving)
      (hstage : v.threads.stage i = Stage.serving none) :
      Step v none (v.put i ((v.connections i).send leaving))
  | broken {i : Nat} {leaving : Bool} {gone : List Reply}
      (hsending : (v.connections i).activity = Activity.sending leaving)
      (hstage : v.threads.stage i = Stage.serving none)
      (hgone : gone <+: (v.connections i).out) :
      Step v none (v.put i ((v.connections i).lose gone))
  /- The disk did not confirm the writes, so their replies are not sent. -/
  | failed {i : Nat} {leaving : Bool} {point : Point} {e : Error} {said : List Reply}
      (hsending : (v.connections i).activity = Activity.sending leaving)
      (hstage : v.threads.stage i = Stage.failed point e)
      (hsaid : said <+: [refusal e]) :
      Step v none (v.put i ((v.connections i).giveUp said))

def listen (s : Store) (inputs : Nat -> Bytes) : Service where
  threads := bind s
  connections i := Connection.accept (inputs i)

/-- The server from the moment it is bound: what was asked of it, in the order in
which it was served, and where it is. -/
inductive Run (s : Store) (inputs : Nat -> Bytes) : List Asked -> Service -> Prop where
  | listen : Run s inputs [] (listen s inputs)
  | step {history : List Asked} {asked : Option Asked} {v v' : Service}
      (h : Run s inputs history v) (hstep : v.Step asked v') :
      Run s inputs (history ++ asked.toList) v'

end Service

/-!
# Reading what a client sends
-/

theorem readUntil_split (input : Bytes) :
    (readUntil input).1 ++ (readUntil input).2 = input := by
  induction input with
  | nil => rfl
  | cons byte rest ih =>
      rw [readUntil]
      split
      · rfl
      · show byte :: ((readUntil rest).1 ++ (readUntil rest).2) = _
        rw [ih]

theorem popIf_starts (byte : UInt8) (line : Bytes) : popIf byte line <+: line := by
  unfold popIf
  split
  · exact List.dropLast_prefix line
  · exact List.prefix_refl line

theorem readLine_split {input rest : Bytes} {found : Option Bytes}
    (h : readLine input = (found, rest)) :
    rest <:+ input ∧ forall line, found = some line -> line <+: input := by
  have hsplit := readUntil_split input
  unfold readLine at h
  rw [show readUntil input = ((readUntil input).1, (readUntil input).2) from rfl] at h
  dsimp only at h
  have hrest : (readUntil input).2 <:+ input := ⟨_, hsplit⟩
  have hline : (readUntil input).1 <+: input := ⟨_, hsplit⟩
  split at h
  · cases h
    exact ⟨hrest, nofun⟩
  · cases h
    refine ⟨hrest, ?_⟩
    intro line heq
    rw [← Option.some.inj heq]
    exact ((popIf_starts 13 _).trans (popIf_starts 10 _)).trans hline

theorem readBulk_suffix {len : Nat} {input bytes rest : Bytes}
    (h : readBulk len input = Except.ok (bytes, rest)) : rest <:+ input := by
  unfold readBulk at h
  split at h
  · cases h
  · split at h
    · cases h
    · cases h
      exact List.drop_suffix _ _

theorem readArgument_spec {input arg rest : Bytes}
    (h : readArgument input = Except.ok (arg, rest)) :
    rest <:+ input ∧ arg.length <= maxBulkLen := by
  unfold readArgument at h
  split at h
  · cases h
  · next header after hline =>
      split at h
      · cases h
      · split at h
        · cases h
        · cases h
        · next len hlen =>
            refine ⟨(readBulk_suffix h).trans (readLine_split hline).1, ?_⟩
            exact Nat.le_trans (length_of_readBulk h) (parseLen_le hlen)

theorem readItems_suffix {item : Type}
    {read : Bytes -> Except ReadError (item × Bytes)}
    (hread : forall {input found rest},
      read input = Except.ok (found, rest) -> rest <:+ input)
    {count : Nat} {input : Bytes} {items : List item} {rest : Bytes}
    (h : readItems read count input = Except.ok (items, rest)) : rest <:+ input := by
  induction count generalizing input items rest with
  | zero =>
      cases h
      exact List.suffix_refl _
  | succ count ih =>
      rw [readItems] at h
      split at h
      · cases h
      · next hfirst =>
          split at h
          · cases h
          · next hothers =>
              cases h
              exact (ih hothers).trans (hread hfirst)

theorem length_of_mem_runs {line : Bytes} {words : List Bytes} (h : Runs line words)
    {word : Bytes} (hword : word ∈ words) : word.length <= line.length := by
  induction h with
  | nil => cases hword
  | space _ _ ih => exact Nat.le_succ_of_le (ih hword)
  | word _ _ _ _ ih =>
      rw [List.length_append]
      rcases List.mem_cons.mp hword with heq | hin
      · rw [heq]
        exact Nat.le_add_right _ _
      · exact Nat.le_add_left_of_le (ih hin)

/-- No line goes on for half of what a record can hold. -/
def ShortLines (input : Bytes) : Prop :=
  forall line, line <:+: input -> (10 : UInt8) ∉ line ->
    headerLen + 2 * line.length < 2 ^ 32

theorem ShortLines.rest {input rest : Bytes} (h : ShortLines input)
    (hrest : rest <:+ input) : ShortLines rest :=
  fun line hline hnone => h line (hline.trans hrest.isInfix) hnone

theorem fitting_of_length {args : List Bytes} {most : Nat}
    (hargs : forall arg, arg ∈ args -> arg.length <= most)
    (hmost : headerLen + 2 * most < 2 ^ 32) : Fitting args := by
  intro key hkey value hvalue
  have hk := hargs key hkey
  have hv := hargs value hvalue
  omega

/-- What was read is the end of what there was.  An array's arguments fit in records,
and so do the words of a line that is not too long. -/
theorem readCommand_spec {input rest : Bytes} {args : List Bytes}
    (hread : readCommand input = Except.ok (some args, rest)) :
    rest <:+ input ∧ (ShortLines input -> Fitting args) := by
  unfold readCommand at hread
  split at hread
  · cases hread
  · next line after hline =>
      rcases readLine_split hline with ⟨hafter, hstarts⟩
      have hnone := newline_notMem_of_readLine hline
      have hnothing : Fitting [] := fun _ hkey => absurd hkey List.not_mem_nil
      split at hread
      · cases hread
        exact ⟨hafter, fun _ => hnothing⟩
      · split at hread
        · cases hread
          refine ⟨hafter, fun hlines => ?_⟩
          rcases runs_total line with ⟨words, hwords⟩
          have hfits := hlines line (hstarts line rfl).isInfix hnone
          refine fitting_of_length (fun arg harg => ?_) hfits
          exact length_of_mem_runs hwords (hwords.words_eq ▸ harg)
        · split at hread
          · cases hread
          · cases hread
            exact ⟨hafter, fun _ => hnothing⟩
          · rcases map_eq_ok hread with ⟨⟨items, left⟩, hitems, heq⟩
            cases heq
            refine ⟨(readItems_suffix (fun h => (readArgument_spec h).1) hitems).trans
              hafter, fun _ => ?_⟩
            refine fitting_of_length ?_
              (show headerLen + 2 * maxBulkLen < 2 ^ 32 by decide)
            exact (readItems_forall (fun h => (readArgument_spec h).2) hitems).2

/-!
# Two clients

The first is waited for until its reply is sent.  The second is heard only then, and
its reply is still held when what it wrote has left the buffer.
-/

def twoInputs (first second : Bytes) : Nat -> Bytes
  | 0 => first
  | 1 => second
  | _ => []

namespace Service

/-- A server that has heard only from its first client. -/
def ahead (threads : Threads) (inputs : Nat -> Bytes) (c : Connection) : Service where
  threads := threads
  connections := Function.update (fun i => Connection.accept (inputs i)) 0 c

theorem ahead_connection (threads : Threads) (inputs : Nat -> Bytes) (c : Connection) :
    (ahead threads inputs c).connections 0 = c := by
  show Function.update (fun i => Connection.accept (inputs i)) 0 c 0 = c
  rw [Function.update_self]

theorem ahead_other (threads : Threads) (inputs : Nat -> Bytes) (c : Connection) :
    (ahead threads inputs c).connections 1 = Connection.accept (inputs 1) := by
  show Function.update (fun i => Connection.accept (inputs i)) 0 c 1 = _
  rw [Function.update_of_ne (by decide)]

theorem ahead_put (threads : Threads) (inputs : Nat -> Bytes) (c c' : Connection) :
    (ahead threads inputs c).put 0 c' = ahead threads inputs c' := by
  unfold ahead put
  rw [Function.update_idem]

theorem listen_ahead (s : Store) (inputs : Nat -> Bytes) :
    listen s inputs =
      ahead (lone s { point := appendPoint s, syncing := false } (Stage.serving none))
        inputs (Connection.accept (inputs 0)) := by
  unfold listen ahead bind lone
  congr 1
  · rw [Function.update_eq_self_iff.mpr rfl]
  · rw [Function.update_eq_self_iff.mpr rfl]

variable {s : Store} {inputs : Nat -> Bytes} {history : List Asked}

theorem Run.next {v v' v'' : Service} (h : Run s inputs history v)
    (hstep : v.Step none v') (heq : v' = v'') : Run s inputs history v'' := by
  have hnext := h.step hstep
  rw [Option.toList_none, List.append_nil, heq] at hnext
  exact hnext

theorem Run.section {store store' : Store} {state state' : Durable}
    {stage stage' : Stage} {c : Connection} {t : Threads}
    (h : Run s inputs history (ahead (lone store state stage) inputs c))
    (hwaits : stage.Waits) (hstep : (lone store state stage).Step t)
    (heq : t = lone store' state' stage') (hmoved : stage' ≠ stage) :
    Run s inputs history (ahead (lone store' state' stage') inputs c) := by
  refine h.next (Step.waits hwaits (i := 0) hstep ?_) (by rw [heq]; rfl)
  rw [heq]
  exact hmoved

theorem readCommand_whole {c : Command} {command : Bytes} {args : List Bytes}
    (hc : c = Command.array (command :: args)) (hfits : c.Fits) :
    readCommand c.bytes = Except.ok (some (command :: args), []) := by
  subst hc
  have hone := readCommand_array hfits.1 hfits.2 []
  rw [List.append_nil] at hone
  exact hone

theorem run_held {s' : Store} {os : Answers} {command : Bytes} {args : List Bytes}
    {reply : Reply} {durableBy : Option Point}
    (hgranted : forall turn, os.refused turn = none)
    (hread : readCommand (inputs 0) = Except.ok (some (command :: args), []))
    (hdispatch : dispatch os s none command args = (reply, s', durableBy)) :
    Run s inputs
      [{ client := 0, command := command, args := args, reply := reply }]
      (ahead (lone s' { point := appendPoint s, syncing := false }
          (Stage.serving durableBy)) inputs
        ((Connection.accept (inputs 0)).hold [] reply (isQuit command) true)) := by
  have hbound : Run s inputs [] _ := Run.listen
  rw [listen_ahead] at hbound
  have hself := ahead_connection
    (lone s { point := appendPoint s, syncing := false } (Stage.serving none)) inputs
    (Connection.accept (inputs 0))
  have hheld := hbound.step (Step.command (i := 0) os true (by rw [hself]; rfl) rfl
    (by rw [hself]; exact hread) (fun _ => rfl) hgranted hdispatch)
  rw [hself] at hheld
  have heq : forall c c' : Connection,
      (ahead (lone s { point := appendPoint s, syncing := false }
        (Stage.serving none)) inputs c).serve 0 c' s' durableBy =
      ahead (lone s' { point := appendPoint s, syncing := false }
        (Stage.serving durableBy)) inputs c' := by
    intro c c'
    unfold serve ahead
    rw [Function.update_idem]
    congr 1
    exact lone_enter s' _ _ _
  rw [heq] at hheld
  exact hheld

/-- What is left of a store when an fsync that began with all of it is over. -/
def synced (s : Store) : Store :=
  let (handle, flushed) := s.syncHandle
  let extent := (flushed.dir.disk.contents handle.file).length
  let fsynced := { flushed with dir := flushed.dir.syncUpTo handle.file extent }
  fsynced.noteSynced handle.point

/-- The replies that the first client waits for are sent. -/
theorem run_sent {s' : Store} {before : Point} {c : Connection} {leaving : Bool}
    (h : Run s inputs history (ahead (lone s' { point := before, syncing := false }
      (Stage.serving (some (appendPoint s')))) inputs c))
    (hsending : c.activity = Activity.sending leaving)
    (hwrote : Point.Before before (appendPoint s')) :
    Run s inputs history
      (ahead (lone (synced s') { point := appendPoint s', syncing := false }
        (Stage.serving none)) inputs (c.send leaving)) := by
  let taken : Durable := { point := before, syncing := true }
  let point := appendPoint s'
  let handle := s'.syncHandle.1
  let flushed := s'.syncHandle.2
  let extent := (flushed.dir.disk.contents handle.file).length
  have hpoint : handle.point = point := by
    show ((s'.writer.flush s'.dir).1.fileId, (s'.writer.flush s'.dir).1.offset) = _
    unfold LogWriter.flush
    split <;> rfl
  have hturn : turn { point := before, syncing := false } point =
      (taken, Stage.elected point) := by
    unfold turn
    rw [if_neg (not_not_intro hwrote)]
    rfl
  have hsettle : settle taken point (Except.ok handle.point) =
      ({ point := point, syncing := false }, Stage.acknowledged point) := by
    unfold settle
    rw [hpoint]
    dsimp only
    rw [if_pos hwrote, turn, if_pos (Point.not_before_self point)]
  have hahead : forall threads : Threads,
      ((ahead threads inputs c).connections 0).activity =
        Activity.sending leaving := by
    intro threads
    rw [ahead_connection, hsending]
  have hwaiting : Run s inputs history
      (ahead (lone s' _ (Stage.waiting point)) inputs c) :=
    h.next (Step.wait (hahead _) rfl)
      (congrArg (fun threads => ahead threads inputs c) (lone_enter _ _ _ _))
  have helected : Run s inputs history
      (ahead (lone s' taken (Stage.elected point)) inputs c) := by
    refine hwaiting.section trivial (Threads.Step.lock (i := 0) rfl) ?_ (by simp)
    refine (lone_enter s' _ _ _).trans ?_
    show lone s' (turn { point := before, syncing := false } point).1
      (turn { point := before, syncing := false } point).2 = _
    rw [hturn]
  have hholding : Run s inputs history
      (ahead (lone flushed taken (Stage.holding point handle)) inputs c) :=
    helected.section trivial (Threads.Step.handle rfl) (lone_enter _ _ _ _) (by simp)
  have hsyncing : Run s inputs history
      (ahead (lone flushed taken (Stage.syncing point handle extent)) inputs c) :=
    hholding.section trivial (Threads.Step.enterFsync rfl) (lone_enter _ _ _ _)
      (by simp)
  have hsynced : Run s inputs history
      (ahead (lone { flushed with dir := flushed.dir.syncUpTo handle.file extent }
        taken (Stage.synced point (Except.ok handle.point))) inputs c) :=
    hsyncing.section trivial (Threads.Step.leaveFsync rfl) (lone_enter _ _ _ _)
      (by simp)
  have hnoted : Run s inputs history (ahead (lone (synced s') taken
      (Stage.noted point (Except.ok handle.point))) inputs c) :=
    hsynced.section trivial (Threads.Step.note rfl) (lone_enter _ _ _ _) (by simp)
  have hacknowledged : Run s inputs history (ahead (lone (synced s')
      { point := point, syncing := false } (Stage.acknowledged point)) inputs c) := by
    refine hnoted.section trivial (Threads.Step.settle (i := 0) rfl) ?_ (by simp)
    refine (lone_enter (synced s') _ _ _).trans ?_
    show lone _ (settle taken point (Except.ok handle.point)).1
      (settle taken point (Except.ok handle.point)).2 = _
    rw [hsettle]
  have hready : Run s inputs history (ahead (lone (synced s')
      { point := point, syncing := false } (Stage.serving none)) inputs c) :=
    hacknowledged.next (Step.waited (i := 0) rfl)
      (congrArg (fun threads => ahead threads inputs c) (lone_enter _ _ _ _))
  refine hready.next (Step.send (hahead _) rfl) ?_
  rw [ahead_connection, ahead_put]

def behind (store : Store) (state : Durable) (stage : Stage) (inputs : Nat -> Bytes)
    (c held : Connection) : Service where
  threads := (lone store state (Stage.serving none)).enter 1 stage
  connections :=
    Function.update (Function.update (fun i => Connection.accept (inputs i)) 0 c) 1 held

theorem behind_stage (store : Store) (state : Durable) (stage : Stage)
    (inputs : Nat -> Bytes) (c held : Connection) :
    (behind store state stage inputs c held).threads.stage 1 = stage := by
  simp [behind, Threads.enter]

theorem behind_connections (store : Store) (state : Durable) (stage : Stage)
    (inputs : Nat -> Bytes) (c held : Connection) :
    (behind store state stage inputs c held).connections 0 = c ∧
      (behind store state stage inputs c held).connections 1 = held := by
  simp [behind]

theorem enter_behind (store : Store) (state : Durable) (stage next : Stage)
    (inputs : Nat -> Bytes) (c held : Connection) :
    (behind store state stage inputs c held).threads.enter 1 next =
      (behind store state next inputs c held).threads := by
  simp [behind, Threads.enter]

theorem Run.section_behind {store store' : Store} {state state' : Durable}
    {stage stage' : Stage} {c held : Connection} {t : Threads}
    (h : Run s inputs history (behind store state stage inputs c held))
    (hwaits : stage.Waits)
    (hstep : (behind store state stage inputs c held).threads.Step t)
    (heq : t = (behind store' state' stage' inputs c held).threads)
    (hmoved : stage' ≠ stage) :
    Run s inputs history (behind store' state' stage' inputs c held) := by
  refine h.next (Step.waits (i := 1) ?_ hstep ?_) (by rw [heq]; rfl)
  · rw [behind_stage]
    exact hwaits
  · rw [heq, behind_stage, behind_stage]
    exact hmoved

/-- Then the second client sends a command, and what it wrote is flushed. -/
theorem run_behind {s' s'' : Store} {before : Point} {c : Connection} {os : Answers}
    {command : Bytes} {args : List Bytes} {reply : Reply}
    (h : Run s inputs history (ahead (lone s' { point := before, syncing := false }
      (Stage.serving none)) inputs c))
    (hgranted : forall turn, os.refused turn = none)
    (hread : readCommand (inputs 1) = Except.ok (some (command :: args), []))
    (hdispatch : dispatch os s' none command args =
      (reply, s'', some (appendPoint s'')))
    (hwrote : Point.Before before (appendPoint s'')) :
    Run s inputs (history ++
        [{ client := 1, command := command, args := args, reply := reply }])
      (behind s''.syncHandle.2 { point := before, syncing := true }
        (Stage.holding (appendPoint s'') s''.syncHandle.1) inputs c
        ((Connection.accept (inputs 1)).hold [] reply (isQuit command) true)) := by
  let held := (Connection.accept (inputs 1)).hold [] reply (isQuit command) true
  let asked : Asked := { client := 1, command := command, args := args, reply := reply }
  let point := appendPoint s''
  let free : Durable := { point := before, syncing := false }
  let taken : Durable := { point := before, syncing := true }
  have hturn : turn free point = (taken, Stage.elected point) := by
    unfold turn
    rw [if_neg (not_not_intro hwrote)]
    rfl
  have hheld := h.step (Step.command (i := 1) os true
    (by rw [ahead_other]; rfl) rfl (by rw [ahead_other]; exact hread) (fun _ => rfl)
    hgranted hdispatch)
  rw [ahead_other] at hheld
  have hserving : Run s inputs (history ++ [asked])
      (behind s'' free (Stage.serving (some point)) inputs c held) := hheld
  have hwaiting : Run s inputs (history ++ [asked])
      (behind s'' free (Stage.waiting point) inputs c held) :=
    hserving.next
      (Step.wait (i := 1)
        (by rw [(behind_connections ..).2]; exact Connection.activity_hold_idle ..)
        (behind_stage ..))
      (by rw [enter_behind]; rfl)
  have helected : Run s inputs (history ++ [asked])
      (behind s'' taken (Stage.elected point) inputs c held) := by
    refine hwaiting.section_behind trivial (Threads.Step.lock (behind_stage ..)) ?_
      (by simp)
    show ({ (behind s'' free _ inputs c held).threads with
      state := (turn free point).1 } : Threads).enter 1 (turn free point).2 = _
    rw [hturn]
    exact enter_behind s'' taken (Stage.waiting point) _ inputs c held
  refine helected.section_behind trivial (Threads.Step.handle (behind_stage ..)) ?_
    (by simp)
  exact enter_behind s''.syncHandle.2 taken (Stage.elected point) _ inputs c held

end Service

end Server
end Minicask
