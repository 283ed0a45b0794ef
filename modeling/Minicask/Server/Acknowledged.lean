import Minicask.Server.OneKeyspace

/-!
# What a client was told is on the disk

A reply to a write leaves when the disk has the write.  So whenever the power is cut,
what opens afterwards holds what the keyspace held after some of the writes that were
made, in the order in which they were made, and every command that wrote something and
whose reply was sent is among the ones it has.
-/

namespace Minicask
namespace Server

open Replay Resp

/-!
# What is owed

Commands are told apart by their place among those of their client, and the writes they
made by how many had been made with them.
-/

/-- The client's `k`-th command wrote something, and so many writes had been made with
it. -/
def Owed (history : List Asked) (wrote : List (List (Write Bytes Bytes)))
    (i k due : Nat) : Prop :=
  exists n a writes, history[n]? = some a ∧ wrote[n]? = some writes ∧ writes ≠ [] ∧
    a.client = i ∧ k = (askedBy i (history.take (n + 1))).length ∧
    due = (wrote.take (n + 1)).flatten.length

theorem Owed.le {history : List Asked} {wrote : List (List (Write Bytes Bytes))}
    {i k due : Nat} (h : Owed history wrote i k due) : due <= wrote.flatten.length := by
  rcases h with ⟨n, a, writes, _, _, _, _, _, hdue⟩
  rw [hdue]
  have hsplit := congrArg List.length
    (congrArg List.flatten (List.take_append_drop (n + 1) wrote))
  rw [List.flatten_append, List.length_append] at hsplit
  omega

theorem owed_snoc {history : List Asked} {wrote : List (List (Write Bytes Bytes))}
    (hlength : wrote.length = history.length) {a : Asked}
    {writes : List (Write Bytes Bytes)} {i k due : Nat}
    (h : Owed (history ++ [a]) (wrote ++ [writes]) i k due) :
    Owed history wrote i k due ∨
      (a.client = i ∧ writes ≠ [] ∧ k = (askedBy i history).length + 1) := by
  rcases h with ⟨n, b, found, hb, hfound, hne, hclient, hk, hdue⟩
  rcases Nat.lt_trichotomy n history.length with hlt | heq | hgt
  · left
    have hlt' : n < wrote.length := hlength ▸ hlt
    rw [List.getElem?_append_left hlt] at hb
    rw [List.getElem?_append_left hlt'] at hfound
    rw [List.take_append_of_le_length hlt] at hk
    rw [List.take_append_of_le_length hlt'] at hdue
    exact ⟨n, b, found, hb, hfound, hne, hclient, hk, hdue⟩
  · right
    rw [heq, List.getElem?_concat_length, Option.some.injEq] at hb
    rw [heq, ← hlength, List.getElem?_concat_length, Option.some.injEq] at hfound
    rw [hb, hfound]
    refine ⟨hclient, hne, ?_⟩
    rw [hk, heq, List.take_of_length_le (by simp), askedBy_append, hb, ← hclient,
      askedBy_one, List.length_append]
    rfl
  · have hout := (List.getElem?_eq_some_iff.mp hb).1
    rw [List.length_append, List.length_singleton] at hout
    omega

theorem Keyspace.Carried.last {start finish : Keyspace} {history : List Asked}
    {wrote : List (List (Write Bytes Bytes))} {a : Asked}
    {writes : List (Write Bytes Bytes)}
    (h : start.Carried (history ++ [a]) (wrote ++ [writes]) finish) :
    exists m : Keyspace, m.Made a.command a.args writes := by
  generalize hhistory : history ++ [a] = all at h
  generalize hwrote : wrote ++ [writes] = made at h
  cases h with
  | nothing => exact absurd hhistory (by simp)
  | @command _ _ m b found _ _ hmade _ =>
      have ha := (List.append_inj' hhistory rfl).2
      have hw := (List.append_inj' hwrote rfl).2
      rw [List.singleton_inj] at ha hw
      rw [ha, hw]
      exact ⟨m, hmade⟩

/-!
# What a command waits for

A command that wrote something leaves its reply waiting for a point of the log, which
has everything before it that the client's earlier replies wait for.
-/

theorem run_mustReach {m : Keyspace} (os : Answers) (s : Store)
    (durableBy : Option Point) (name : String) {verb : Verb} {args : List Bytes}
    {writes : List (Write Bytes Bytes)} (hwrites : m.Writes verb args writes) :
    (run os s durableBy name verb args).2.2 =
        mustReach (run os s durableBy name verb args).2.1 durableBy ∨
      (writes = [] ∧ (run os s durableBy name verb args).2.2 = durableBy) := by
  cases verb with
  | set =>
      rcases args with _ | ⟨key, _ | ⟨value, options⟩⟩
      · exact Or.inr ⟨hwrites, rfl⟩
      · exact Or.inr ⟨hwrites, rfl⟩
      · exact Or.inl rfl
  | del =>
      rcases args with _ | ⟨key, keys⟩
      · exact Or.inr ⟨hwrites, rfl⟩
      · exact Or.inl rfl
  | mset =>
      rcases args with _ | ⟨key, pairs⟩
      · exact Or.inr ⟨hwrites, rfl⟩
      · unfold run
        dsimp only
        unfold Keyspace.Writes at hwrites
        dsimp only at hwrites
        split
        · next hodd =>
            rw [if_neg hodd] at hwrites
            exact Or.inr ⟨hwrites, rfl⟩
        · exact Or.inl rfl
  | flush => exact Or.inl rfl
  | ping => rcases args with _ | ⟨msg, _ | ⟨_, _⟩⟩ <;> exact Or.inr ⟨hwrites, rfl⟩
  | echo => rcases args with _ | ⟨msg, _ | ⟨_, _⟩⟩ <;> exact Or.inr ⟨hwrites, rfl⟩
  | get => rcases args with _ | ⟨key, _ | ⟨_, _⟩⟩ <;> exact Or.inr ⟨hwrites, rfl⟩
  | «exists» => rcases args with _ | ⟨key, keys⟩ <;> exact Or.inr ⟨hwrites, rfl⟩
  | mget => rcases args with _ | ⟨key, keys⟩ <;> exact Or.inr ⟨hwrites, rfl⟩
  | keys =>
      rcases args with _ | ⟨pattern, _ | ⟨_, _⟩⟩ <;> exact Or.inr ⟨hwrites, rfl⟩
  | dbsize => rcases args with _ | ⟨_, _⟩ <;> exact Or.inr ⟨hwrites, rfl⟩
  | select => rcases args with _ | ⟨db, _ | ⟨_, _⟩⟩ <;> exact Or.inr ⟨hwrites, rfl⟩
  | command => exact Or.inr ⟨hwrites, rfl⟩
  | client => exact Or.inr ⟨hwrites, rfl⟩
  | quit => exact Or.inr ⟨hwrites, rfl⟩

/-- A command that wrote something is one whose reply waits. -/
theorem dispatch_mustReach {m : Keyspace} (os : Answers) (s : Store)
    (durableBy : Option Point) {command : Bytes} {args : List Bytes}
    {writes : List (Write Bytes Bytes)} (hmade : m.Made command args writes) :
    (dispatch os s durableBy command args).2.2 =
        mustReach (dispatch os s durableBy command args).2.1 durableBy ∨
      (writes = [] ∧ (dispatch os s durableBy command args).2.2 = durableBy) := by
  unfold Keyspace.Made at hmade
  unfold dispatch
  dsimp only
  cases hlookup : verbs.lookup (commandName command) with
  | none =>
      rw [hlookup] at hmade
      exact Or.inr ⟨hmade, rfl⟩
  | some verb =>
      rw [hlookup] at hmade
      have hrun := run_mustReach os s durableBy (commandName command) hmade
      dsimp only
      rcases hresult : run os s durableBy (commandName command) verb args with
        ⟨result, s', durableBy'⟩
      rw [hresult] at hrun
      cases result with
      | ok reply => exact hrun
      | error e => exact hrun

def Stage.pending : Stage -> Option Point
  | serving durableBy => durableBy
  | waiting point => some point
  | elected point => some point
  | holding point _ => some point
  | syncing point _ _ => some point
  | synced point _ => some point
  | noted point _ => some point
  | acknowledged point => some point
  | failed point _ => some point

namespace Stage

theorem pending_turn (state : Durable) (point : Point) :
    (turn state point).2.pending = some point := by
  unfold turn
  split
  · rfl
  · split <;> rfl

theorem pending_settle (state : Durable) (point : Point)
    (result : Except Error Point) :
    (settle state point result).2.pending = some point := by
  unfold settle
  cases result with
  | error e => rfl
  | ok reached => exact pending_turn _ point

end Stage

theorem Threads.pending_enter {t : Threads} {i : Nat} {stage : Stage}
    (h : stage.pending = (t.stage i).pending) (j : Nat) :
    ((t.enter i stage).stage j).pending = (t.stage j).pending := by
  unfold Threads.enter
  by_cases heq : j = i
  · rw [heq]
    simpa using h
  · simp [Function.update_of_ne heq]

theorem Threads.pending_waits {t t' : Threads} {i : Nat} (hwaits : (t.stage i).Waits)
    (hstep : t.Step t') (hmoved : t'.stage i ≠ t.stage i) (j : Nat) :
    (t'.stage j).pending = (t.stage j).pending := by
  cases hstep with
  | command os command args hstage _ =>
      have hserving : (t.stage _).Waits := Threads.waits_of_moved hwaits hmoved
      rw [hstage] at hserving
      exact hserving.elim
  | refused bytes reach refusal hstage _ =>
      have hserving : (t.stage _).Waits := Threads.waits_of_moved hwaits hmoved
      rw [hstage] at hserving
      exact hserving.elim
  | send hstage =>
      have hserving := Threads.waits_of_moved hwaits hmoved
      rw [hstage] at hserving
      exact hserving.elim
  | reply hstage =>
      have hacknowledged := Threads.waits_of_moved hwaits hmoved
      rw [hstage] at hacknowledged
      exact hacknowledged.elim
  | lock hstage =>
      refine Threads.pending_enter ?_ j
      show _ = (t.stage _).pending
      rw [hstage]
      exact Stage.pending_turn _ _
  | settle hstage =>
      refine Threads.pending_enter ?_ j
      show _ = (t.stage _).pending
      rw [hstage]
      exact Stage.pending_settle _ _ _
  | handle hstage =>
      refine Threads.pending_enter ?_ j
      show _ = (t.stage _).pending
      rw [hstage]
      rfl
  | handleRefused flushed why hstage =>
      refine Threads.pending_enter ?_ j
      show _ = (t.stage _).pending
      rw [hstage]
      rfl
  | enterFsync hstage =>
      refine Threads.pending_enter ?_ j
      rw [hstage]
      rfl
  | leaveFsync hstage =>
      refine Threads.pending_enter ?_ j
      show _ = (t.stage _).pending
      rw [hstage]
      rfl
  | fsyncRefused why hstage =>
      refine Threads.pending_enter ?_ j
      rw [hstage]
      rfl
  | note hstage =>
      refine Threads.pending_enter ?_ j
      show _ = (t.stage _).pending
      rw [hstage]
      rfl
  | skip hstage =>
      refine Threads.pending_enter ?_ j
      rw [hstage]
      rfl

/-!
# What holds all along

What was sent to a client is on the disk, and what is held for it will be when the point
that its connection waits for is.
-/

/-- So many records are on the disk for each of these, or will be when this point
is. -/
def Awaits (s : Store) (chart : Chart) (dues : Nat -> Prop) : Option Point -> Prop
  | none => forall n, dues n -> Secured s chart n
  | some point => point.1 <= s.writer.fileId ∧
      exists all, Reaching chart point all ∧ forall n, dues n -> n <= all

theorem Awaits.grew {s s' : Store} {chart chart' : Chart} {dues dues' : Nat -> Prop}
    {pending : Option Point} (h : Awaits s chart dues pending) (hgrew : s.Grew s')
    (hgrown : Chart.Grown s.writer.fileId chart chart')
    (hdues : forall n, dues' n -> dues n) : Awaits s' chart' dues' pending := by
  cases pending with
  | none => exact fun n hn => (h n (hdues n hn)).grew hgrew hgrown
  | some point =>
      rcases h with ⟨hle, all, hreaching, hall⟩
      exact ⟨Nat.le_trans hle hgrew.newer, all, hreaching.grown hgrown hle,
        fun n hn => hall n (hdues n hn)⟩

/-- The point that a write waits for has all of the log before it. -/
theorem Awaits.mustReach {s : Store} {chart : Chart} {dues dues' : Nat -> Prop}
    {durableBy : Option Point} (hok : s.Ok) (hcharted : Charted s chart)
    (hpolicy : s.opts.sync = SyncPolicy.everyWrite)
    (h : Awaits s chart dues durableBy)
    (hdues : forall n, dues' n -> n <= (logged chart s.writer.fileId).length) :
    Awaits s chart dues' (mustReach s durableBy) := by
  have hreaching := reaching_appendPoint hok hcharted
  have hhere : Awaits s chart dues' (some (appendPoint s)) :=
    ⟨Nat.le_refl _, _, hreaching, hdues⟩
  unfold Server.mustReach
  rw [if_pos hpolicy]
  cases durableBy with
  | none => exact hhere
  | some point =>
      dsimp only
      split
      · exact hhere
      · next hafter =>
          rcases h with ⟨hle, all, hreaches, _⟩
          refine ⟨hle, all, hreaches, fun n hn => ?_⟩
          exact Nat.le_trans (hdues n hn) (hreaching.le hreaches hafter)

/-- So many records are due to a client. -/
def Due (history : List Asked) (wrote : List (List (Write Bytes Bytes)))
    (marks : Nat -> Nat) (i n : Nat) : Prop :=
  exists k due, Owed history wrote i k due ∧ n = marks due

/-- What was sent is on the disk, and what is held waits for it. -/
structure Promised (history : List Asked) (wrote : List (List (Write Bytes Bytes)))
    (chart : Chart) (marks : Nat -> Nat) (v : Service) : Prop where
  policy : v.threads.store.opts.sync = SyncPolicy.everyWrite
  base : Secured v.threads.store chart (marks 0)
  awaits : forall i, Awaits v.threads.store chart (Due history wrote marks i)
    (v.threads.stage i).pending
  sent : forall i k due, Owed history wrote i k due ->
    k <= (v.connections i).sent.length -> Secured v.threads.store chart (marks due)

namespace Promised

variable {start : Keyspace} {inputs : Nat -> Bytes} {history : List Asked}
  {wrote : List (List (Write Bytes Bytes))} {chart chart' : Chart}
  {marks marks' : Nat -> Nat} {v v' : Service}

theorem listen {s : Store} {chart : Chart} (hok : s.Ok) (hcharted : Charted s chart)
    (hsynced : s.dir.disk.synced s.writer.fileId = s.writer.offset)
    (hpolicy : s.opts.sync = SyncPolicy.everyWrite) (inputs : Nat -> Bytes) :
    Promised [] [] chart (fun _ => (logged chart s.writer.fileId).length)
      (Service.listen s inputs) := by
  have hnone : forall i k due, ¬Owed [] [] i k due := by
    rintro i k due ⟨n, a, writes, ha, _⟩
    cases ha
  refine ⟨hpolicy, ⟨chart s.writer.fileId, List.prefix_refl _, ?_, ?_⟩, ?_, ?_⟩
  · exact Nat.le_of_eq ((hcharted.join_length hok).trans hsynced.symm)
  · rw [logged_eq, List.length_append]
    exact Nat.le_refl _
  · rintro i n ⟨k, due, howed, _⟩
    exact absurd howed (hnone i k due)
  · exact fun i k due howed => absurd howed (hnone i k due)

theorem keep (first : Store) (h : Promised history wrote chart marks v)
    (honward : Onward v.threads.store wrote chart marks v'.threads.store chart' marks')
    (hpending : forall j,
      (v'.threads.stage j).pending = (v.threads.stage j).pending ∨
        (v'.threads.stage j).pending = none ∧
          exists point reached, (v.threads.stage j).pending = some point ∧
            Covered first v.threads.store reached ∧ ¬reached.Before point)
    (hsent : forall j,
      (v'.connections j).sent.length <= (v.connections j).sent.length ∨
        (v.threads.stage j).pending = none) :
    Promised history wrote chart' marks' v' := by
  rcases honward with ⟨hgrew, hopts, hgrown, hmarks⟩
  have hdues : forall i n, Due history wrote marks' i n ->
      Due history wrote marks i n := by
    rintro i n ⟨k, due, howed, hn⟩
    exact ⟨k, due, howed, hn.trans (hmarks due howed.le)⟩
  refine ⟨?_, ?_, ?_, ?_⟩
  · rw [hopts]
    exact h.policy
  · rw [hmarks 0 (Nat.zero_le _)]
    exact h.base.grew hgrew hgrown
  · intro j
    have hawaits := h.awaits j
    rcases hpending j with hsame | ⟨hnone, point, reached, hpoint, hcovered, hreached⟩
    · rw [hsame]
      exact hawaits.grew hgrew hgrown (hdues j)
    · rw [hnone]
      rw [hpoint] at hawaits
      rcases hawaits with ⟨_, all, hreaching, hall⟩
      have hsecured := hcovered.secured hreached hreaching
      exact fun n hn => (hsecured.mono (hall n (hdues j n hn))).grew hgrew hgrown
  · intro j k due howed hk
    rw [hmarks due howed.le]
    rcases hsent j with hle | hnone
    · exact (h.sent j k due howed (Nat.le_trans hk hle)).grew hgrew hgrown
    · have hawaits := h.awaits j
      rw [hnone] at hawaits
      exact (hawaits _ ⟨k, due, howed, rfl⟩).grew hgrew hgrown

theorem put (h : Promised history wrote chart marks v)
    (honward : Onward v.threads.store wrote chart marks v.threads.store chart' marks')
    {i : Nat} {c : Connection}
    (hsent : c.sent.length <= (v.connections i).sent.length ∨
      (v.threads.stage i).pending = none) :
    Promised history wrote chart' marks' (v.put i c) := by
  refine h.keep v.threads.store honward (fun _ => Or.inl rfl) ?_
  intro j
  unfold Service.put
  by_cases heq : j = i
  · rw [heq]
    simpa using hsent
  · simp [Function.update_of_ne heq]

theorem command {first : Store} {writes : List (Write Bytes Bytes)} {i : Nat}
    {command rest : Bytes} {args : List Bytes} {reply : Reply} {s : Store}
    {durableBy durableBy' : Option Point} {os : Answers} {idle : Bool}
    (h : Promised history wrote chart marks v)
    (hok : Service.Ok first start inputs history wrote chart marks v)
    (hreading : (v.connections i).activity = Activity.reading)
    (hstage : v.threads.stage i = Stage.serving durableBy)
    (hdispatch : dispatch os v.threads.store durableBy command args =
      (reply, s, durableBy'))
    (honward : Onward v.threads.store wrote chart marks s chart' marks')
    (hok' : Service.Ok first start inputs (history ++ [⟨i, command, args, reply⟩])
      (wrote ++ [writes]) chart' marks'
      (v.serve i ((v.connections i).hold rest reply (isQuit command) idle) s
        durableBy')) :
    Promised (history ++ [⟨i, command, args, reply⟩]) (wrote ++ [writes]) chart'
      marks' (v.serve i ((v.connections i).hold rest reply (isQuit command) idle) s
        durableBy') := by
  rcases hok.carried with ⟨m, hcarried⟩
  rcases hok'.carried with ⟨m', hcarried'⟩
  rcases hcarried'.last with ⟨before, hmade⟩
  have hlength := hcarried.length
  have hpolicy : s.opts.sync = SyncPolicy.everyWrite := by
    rw [honward.opts]
    exact h.policy
  have hkept : Kept s start.value (wrote ++ [writes]).flatten chart' marks' :=
    hok'.kept
  have hlog : forall due, due <= (wrote ++ [writes]).flatten.length ->
      marks' due <= (logged chart' s.writer.fileId).length := by
    intro due hdue
    have hle := hkept.paced.le_length hdue
    rw [List.length_map] at hle
    exact hle
  have hold : forall {j k due}, Owed history wrote j k due -> marks' due = marks due :=
    fun howed => honward.marks _ howed.le
  have hcount : (v.connections i).sent.length <= (askedBy i history).length := by
    have hall := ((hok.connections i).all_of_staying (Or.inl hreading)).1
    rw [← List.length_map Asked.reply, ← hall, List.length_append]
    exact Nat.le_add_right _ _
  -- Another connection's commands are what they were.
  have hother : forall {j k due}, j ≠ i ->
      Owed (history ++ [⟨i, command, args, reply⟩]) (wrote ++ [writes]) j k due ->
      Owed history wrote j k due := by
    intro j k due hne howed
    rcases owed_snoc hlength howed with hbefore | ⟨hclient, _⟩
    · exact hbefore
    · exact absurd hclient.symm hne
  refine ⟨hpolicy, ?_, ?_, ?_⟩
  · rw [honward.marks 0 (Nat.zero_le _)]
    exact h.base.grew honward.grew honward.grown
  · intro j
    have hawaits := h.awaits j
    show Awaits s chart' _
      (({ v.threads with store := s }.enter i (Stage.serving durableBy')).stage
        j).pending
    by_cases heq : j = i
    · subst heq
      rw [hstage] at hawaits
      have hself : (({ v.threads with store := s }.enter j
          (Stage.serving durableBy')).stage j).pending = durableBy' := by
        simp [Threads.enter, Stage.pending]
      rw [hself]
      have hreach := dispatch_mustReach os v.threads.store durableBy hmade
      rw [hdispatch] at hreach
      rcases hreach with hreach | ⟨hnothing, hsame⟩
      · have hgrew : Awaits s chart' (Due history wrote marks j) durableBy :=
          hawaits.grew honward.grew honward.grown (fun _ hn => hn)
        have hreach : durableBy' = mustReach s durableBy := hreach
        rw [hreach]
        refine hgrew.mustReach hkept.ok hkept.charted hpolicy ?_
        rintro n ⟨k, due, howed, hn⟩
        rw [hn]
        exact hlog due howed.le
      · have hsame : durableBy' = durableBy := hsame
        rw [hsame]
        refine hawaits.grew honward.grew honward.grown ?_
        rintro n ⟨k, due, howed, hn⟩
        rcases owed_snoc hlength howed with hbefore | ⟨_, hne, _⟩
        · exact ⟨k, due, hbefore, hn.trans (hold hbefore)⟩
        · exact absurd hnothing hne
    · have hsame : (({ v.threads with store := s }.enter i
          (Stage.serving durableBy')).stage j).pending =
            (v.threads.stage j).pending := by
        simp [Threads.enter, Function.update_of_ne heq]
      rw [hsame]
      refine hawaits.grew honward.grew honward.grown ?_
      rintro n ⟨k, due, howed, hn⟩
      have hbefore := hother heq howed
      exact ⟨k, due, hbefore, hn.trans (hold hbefore)⟩
  · intro j k due howed hk
    have hsent : k <= (v.connections j).sent.length := by
      have hk : k <= (Function.update v.connections i
          ((v.connections i).hold rest reply (isQuit command) idle) j).sent.length :=
        hk
      by_cases heq : j = i
      · rw [heq, Function.update_self] at hk
        rw [heq]
        exact hk
      · rw [Function.update_of_ne heq] at hk
        exact hk
    have hbefore : Owed history wrote j k due := by
      by_cases heq : j = i
      · subst heq
        rcases owed_snoc hlength howed with hbefore | ⟨_, _, hlast⟩
        · exact hbefore
        · omega
      · exact hother heq howed
    rw [hold hbefore]
    exact (h.sent j k due hbefore hsent).grew honward.grew honward.grown

theorem step {first : Store} {more : List (List (Write Bytes Bytes))}
    {asked : Option Asked} (h : Promised history wrote chart marks v)
    (hok : Service.Ok first start inputs history wrote chart marks v)
    (hfirst : first.dir.disk.synced first.writer.fileId = first.writer.offset)
    (hstep : v.Step asked v') (hmore : more.length = asked.toList.length)
    (honward : Onward v.threads.store wrote chart marks v'.threads.store chart' marks')
    (hok' : Service.Ok first start inputs (history ++ asked.toList) (wrote ++ more)
      chart' marks' v') :
    Promised (history ++ asked.toList) (wrote ++ more) chart' marks' v' := by
  have hidle : forall {more : List (List (Write Bytes Bytes))},
      more.length = ([] : List Asked).length ->
      Promised history wrote chart' marks' v' ->
      Promised (history ++ []) (wrote ++ more) chart' marks' v' := by
    intro more hmore hv
    rw [List.length_eq_zero_iff.mp hmore, List.append_nil, List.append_nil]
    exact hv
  cases hstep with
  | command os idle hreading hstage hread _ hgranted hdispatch =>
      rcases List.length_eq_one_iff.mp hmore with ⟨writes, hwrites⟩
      subst hwrites
      exact h.command hok hreading hstage hdispatch honward hok'
  | blank hreading hread =>
      exact hidle hmore (h.put honward (Or.inl (Nat.le_refl _)))
  | garbage hreading hread =>
      exact hidle hmore (h.put honward (Or.inl (Nat.le_refl _)))
  | leave hreading => exact hidle hmore (h.put honward (Or.inl (Nat.le_refl _)))
  | wait hsending hstage =>
      refine hidle hmore (h.keep first honward (fun j => Or.inl ?_)
        (fun _ => Or.inl (Nat.le_refl _)))
      refine Threads.pending_enter ?_ j
      rw [hstage]
      rfl
  | waits hwaits hstep hmoved =>
      exact hidle hmore (h.keep first honward
        (fun j => Or.inl (Threads.pending_waits hwaits hstep hmoved j))
        (fun _ => Or.inl (Nat.le_refl _)))
  | @waited i point hstage =>
      refine hidle hmore (h.keep first honward (fun j => ?_)
        (fun _ => Or.inl (Nat.le_refl _)))
      by_cases heq : j = i
      · subst heq
        right
        have hholds := hok.threads.stages j
        rw [hstage] at hholds
        refine ⟨by simp [Threads.enter, Stage.pending], point, ?_⟩
        rw [hstage]
        rcases hholds with hopened | ⟨reached, hcovered, hreached⟩
        · refine ⟨appendPoint first, rfl, ⟨Nat.le_refl _, hok.threads.grew.newer, ?_⟩,
            hopened⟩
          have hsynced := hok.threads.grew.synced first.writer.fileId
          rw [hfirst] at hsynced
          exact hsynced
        · exact ⟨reached, rfl, hcovered, hreached⟩
      · left
        simp [Threads.enter, Function.update_of_ne heq]
  | send hsending hstage =>
      refine hidle hmore (h.put honward (Or.inr ?_))
      rw [hstage]
      rfl
  | broken hsending hstage hgone =>
      refine hidle hmore (h.put honward (Or.inr ?_))
      rw [hstage]
      rfl
  | failed hsending hstage hsaid =>
      exact hidle hmore (h.put honward (Or.inl (Nat.le_refl _)))

end Promised

/-- Every run keeps its promises. -/
theorem Service.Run.promised {s : Store} {start : Keyspace}
    (hondisk : OnDisk s start.value) (hpolicy : s.opts.sync = SyncPolicy.everyWrite)
    {inputs : Nat -> Bytes} (hlines : forall i, ShortLines (inputs i))
    {history : List Asked} {v : Service} (hrun : Service.Run s inputs history v) :
    exists wrote chart marks, Ok s start inputs history wrote chart marks v ∧
      Promised history wrote chart marks v := by
  induction hrun with
  | listen =>
      rcases Ok.listen hondisk.1 inputs with ⟨chart, hok⟩
      exact ⟨[], chart, _, hok,
        Promised.listen hok.kept.ok hok.kept.charted hondisk.2 hpolicy inputs⟩
  | step _ hstep ih =>
      rcases ih with ⟨wrote, chart, marks, hok, hpromised⟩
      rcases hok.step hlines hstep with ⟨more, chart', marks', hmore, honward, hnext⟩
      exact ⟨wrote ++ more, chart', marks', hnext,
        hpromised.step hok hondisk.2 hstep hmore honward hnext⟩

/-- Whenever the power is cut, a store opens on what is left, and holds what the
keyspace held after some of the writes that its commands were made of, in the order in
which they took the lock.  Every command that wrote something, and whose reply was sent,
is among those it has.  The store is fit to be served again. -/
theorem acknowledged_commands_survive {s : Store} {start : Keyspace}
    (hondisk : OnDisk s start.value) (hpolicy : s.opts.sync = SyncPolicy.everyWrite)
    {inputs : Nat -> Bytes} (hlines : forall i, ShortLines (inputs i))
    {history : List Asked} {v : Service} (hrun : Service.Run s inputs history v)
    {disk : Disk}
    (hcut : Disk.Cut v.threads.store.writer.fileId v.threads.store.dir.disk disk)
    (opts : Options) :
    exists wrote finish most left s',
      start.Carried history wrote finish ∧
      Keyspace.value left = replay start.value (wrote.flatten.take most) ∧
      Store.openWith { disk := disk } opts = Except.ok s' ∧ OnDisk s' left.value ∧
      forall n a writes, history[n]? = some a -> wrote[n]? = some writes ->
        writes ≠ [] ->
        (askedBy a.client (history.take (n + 1))).length <=
          (v.connections a.client).sent.length ->
        (wrote.take (n + 1)).flatten.length <= most := by
  rcases hrun.promised hondisk hpolicy hlines with ⟨wrote, chart, marks, hok, hpromised⟩
  rcases hok.carried with ⟨finish, hcarried⟩
  rcases hok.kept.reopen hpromised.base hcut opts with
    ⟨s', most, hopen, hreopened, hmost⟩
  rcases exists_keyspace hreopened.1 with ⟨left, hleft⟩
  rw [← hleft] at hreopened
  refine ⟨wrote, finish, most, left, s', hcarried, hleft, hopen, hreopened, ?_⟩
  intro n a writes ha hwrites hne hsent
  have howed : Owed history wrote a.client
      (askedBy a.client (history.take (n + 1))).length
      (wrote.take (n + 1)).flatten.length :=
    ⟨n, a, writes, ha, hwrites, hne, rfl, rfl, rfl⟩
  exact hmost _ howed.le (hpromised.sent _ _ _ howed hsent)

def leftOf (disk : Disk) (id : FileId) (n : Nat) : Disk :=
  { disk with
    data := disk.data.insert id
      { bytes := (disk.contents id).take n, synced := ((disk.contents id).take n).length,
        synced_le := Nat.le_refl _ } }

theorem contents_leftOf (disk : Disk) (id : FileId) (n : Nat) :
    (leftOf disk id n).contents id = (disk.contents id).take n := by
  unfold Disk.contents leftOf
  rw [AList.lookup_insert]
  rfl

theorem cut_leftOf {disk : Disk} {id : FileId} {n : Nat} (hn : disk.synced id <= n) :
    Disk.Cut id disk (leftOf disk id n) where
  others _ hne := AList.lookup_insert_ne hne
  linked := (AList.mem_insert _).mpr (Or.inl rfl)
  kept := ⟨n, hn, contents_leftOf disk id n⟩
  settled := by
    rw [contents_leftOf]
    unfold Disk.synced leftOf
    rw [AList.lookup_insert]
    rfl
  hints _ _ h := h

def tornDel : Disk :=
  leftOf afterDel.syncHandle.2.dir.disk afterDel.syncHandle.2.writer.fileId
    (afterDel.syncHandle.2.dir.disk.synced afterDel.syncHandle.2.writer.fileId + 1)

/-- The first client was sent its reply, and the power is cut while the second client's
record is on its way to the disk. -/
theorem acknowledged_commands_survive_set :
    exists v, Service.Run (newStore {}) setAndDel setThenDel v ∧
      (v.connections 0).sent = [Reply.ok] ∧ (v.connections 1).sent = [] ∧
      Disk.Cut v.threads.store.writer.fileId v.threads.store.dir.disk tornDel ∧
      tornDel.contents v.threads.store.writer.fileId ≠
        v.threads.store.dir.disk.contents v.threads.store.writer.fileId ∧
      exists wrote finish most left s',
        Keyspace.nothing.Carried setThenDel wrote finish ∧
        Keyspace.value left =
          replay Keyspace.nothing.value (wrote.flatten.take most) ∧
        Store.openWith { disk := tornDel } {} = Except.ok s' ∧ OnDisk s' left.value ∧
        forall n a writes, setThenDel[n]? = some a -> wrote[n]? = some writes ->
          writes ≠ [] ->
          (askedBy a.client (setThenDel.take (n + 1))).length <=
            (v.connections a.client).sent.length ->
          (wrote.take (n + 1)).flatten.length <= most := by
  rcases run_setThenDel with ⟨v, hrun, hstore, hsent, hunsent, _⟩
  have hcut : Disk.Cut v.threads.store.writer.fileId v.threads.store.dir.disk
      tornDel := by
    rw [hstore]
    exact cut_leftOf (Nat.le_succ _)
  refine ⟨v, hrun, hsent, hunsent, hcut, ?_, acknowledged_commands_survive
    (onDisk_newStore {}) rfl shortLines_setAndDel hrun hcut {}⟩
  rw [hstore]
  decide +kernel

end Server
end Minicask
