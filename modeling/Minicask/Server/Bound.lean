import Minicask.Server.GroupCommit

/-!
# What a server is bound with

A server takes whatever its store opened with to be on the disk.  After the process
before it was killed that need not be so: what was handed to the kernel is read back,
and is as durable as it was.
-/

namespace Minicask
namespace Server

def Persisted (s : Store) : Prop :=
  forall id, id <= s.writer.fileId ->
    (s.contents id).length <= s.dir.disk.synced id

/-- Of a `wait` that has returned, every byte that was appended before its point is on
the disk, where it was appended, in the active file and in all before it. -/
def Acknowledges (past : List Threads) (now : Threads) : Prop :=
  forall i point, now.stage i = Stage.acknowledged point ->
    forall earlier, earlier ∈ now :: past ->
      forall (id : FileId) (offset : Nat) (byte : UInt8),
        id <= earlier.store.writer.fileId ->
        (earlier.store.contents id)[offset]? = some byte ->
        Point.Before (id, offset) point ->
        (now.store.dir.disk.durable id)[offset]? = some byte

/-!
# What was appended since
-/

/-- A byte that was appended since the server was bound, or was on the disk then, is on
the disk when a `wait` for it has returned. -/
theorem Run.durable {s : Store} (hok : s.writer.Ok s.dir) {past : List Threads}
    {now : Threads} (hrun : Run s past now) {i : Nat} {point : Point}
    (hstage : now.stage i = Stage.acknowledged point) {earlier : Threads}
    (hearlier : earlier ∈ now :: past) {id : FileId} {offset : Nat} {byte : UInt8}
    (hid : id <= earlier.store.writer.fileId)
    (hbyte : (earlier.store.contents id)[offset]? = some byte)
    (hbefore : Point.Before (id, offset) point)
    (hsince : ¬Point.Before (id, offset) (appendPoint s) ∨
      offset < s.dir.disk.synced id) :
    (now.store.dir.disk.durable id)[offset]? = some byte := by
  rcases hrun.ok hok with ⟨hnow, hpast⟩
  have hgrew := hpast earlier hearlier
  have hheld : (now.store.contents id)[offset]? = some byte := by
    rcases List.getElem?_eq_some_iff.mp hbyte with ⟨hlt, heq⟩
    rw [(hgrew.contents hid).getElem hlt] at heq
    exact List.getElem?_eq_some_iff.mpr ⟨_, heq⟩
  have hlength : offset < (now.store.contents id).length :=
    (List.getElem?_eq_some_iff.mp hheld).1
  have hsynced : offset < now.store.dir.disk.synced id := by
    rcases hsince with hsince | hfirst
    · have hholds := hnow.stages i
      rw [hstage] at hholds
      rcases hholds with hopened | ⟨reached, hcovered, hreached⟩
      · exact absurd (Point.Before.trans_le hbefore hopened) hsince
      · exact hcovered.durable hnow.grew hlength
          (Point.Before.trans_le hbefore hreached) hsince
    · exact Nat.lt_of_lt_of_le hfirst (hnow.grew.synced id)
  rw [getElem?_durable hsynced, hheld]

/-- What lies before the append point of a store that a run has gone on from is still
where it was. -/
theorem Run.before {s : Store} (hok : s.writer.Ok s.dir) {past : List Threads}
    {now : Threads} (hrun : Run s past now) {earlier : Threads}
    (hearlier : earlier ∈ now :: past) {id : FileId} {offset : Nat} {byte : UInt8}
    (hid : id <= earlier.store.writer.fileId)
    (hbyte : (earlier.store.contents id)[offset]? = some byte)
    (hbefore : Point.Before (id, offset) (appendPoint s)) :
    id <= s.writer.fileId ∧ offset < (s.contents id).length := by
  rcases hrun.ok hok with ⟨hnow, hpast⟩
  have hlength : offset < (now.store.contents id).length :=
    Nat.lt_of_lt_of_le (List.getElem?_eq_some_iff.mp hbyte).1
      ((hpast earlier hearlier).contents hid).length_le
  rcases hbefore with hlt | ⟨heq, hlt⟩
  · have hbelow : id < s.writer.fileId := hlt
    have hnever := hnow.grew.below id hbelow
    rw [Store.contents_of_lt (Nat.lt_of_lt_of_le hbelow hnow.grew.newer),
      hnever] at hlength
    rw [Store.contents_of_lt hbelow]
    exact ⟨Nat.le_of_lt hbelow, hlength⟩
  · have hactive : id = s.writer.fileId := heq
    rw [hactive, Store.contents, if_pos rfl, hok.length_contents]
    exact ⟨Nat.le_refl _, hlt⟩

/-!
# A server that does not wait
-/

theorem run_waits (os : Answers) (s : Store) (name : String) (verb : Verb)
    (args : List Bytes) :
    (run os s none name verb args).2.2 = none ∨
      (run os s none name verb args).2.2 =
        mustReach (run os s none name verb args).2.1 none := by
  cases verb with
  | set =>
      rcases args with _ | ⟨key, _ | ⟨value, options⟩⟩
      · exact Or.inl rfl
      · exact Or.inl rfl
      · exact Or.inr rfl
  | del =>
      rcases args with _ | ⟨key, keys⟩
      · exact Or.inl rfl
      · exact Or.inr rfl
  | mset =>
      rcases args with _ | ⟨key, pairs⟩
      · exact Or.inl rfl
      · unfold run
        dsimp only
        split
        · exact Or.inl rfl
        · exact Or.inr rfl
  | flush => exact Or.inr rfl
  | ping => rcases args with _ | ⟨msg, _ | ⟨_, _⟩⟩ <;> exact Or.inl rfl
  | echo => rcases args with _ | ⟨msg, _ | ⟨_, _⟩⟩ <;> exact Or.inl rfl
  | get => rcases args with _ | ⟨key, _ | ⟨_, _⟩⟩ <;> exact Or.inl rfl
  | «exists» => rcases args with _ | ⟨key, keys⟩ <;> exact Or.inl rfl
  | mget => rcases args with _ | ⟨key, keys⟩ <;> exact Or.inl rfl
  | keys => rcases args with _ | ⟨pattern, _ | ⟨_, _⟩⟩ <;> exact Or.inl rfl
  | dbsize => rcases args with _ | ⟨_, _⟩ <;> exact Or.inl rfl
  | select => rcases args with _ | ⟨db, _ | ⟨_, _⟩⟩ <;> exact Or.inl rfl
  | command => exact Or.inl rfl
  | client => exact Or.inl rfl
  | quit => exact Or.inl rfl

/-- A command's reply waits for nothing, or for where the appends have got to. -/
theorem dispatch_waits (os : Answers) (s : Store) (command : Bytes)
    (args : List Bytes) :
    (dispatch os s none command args).2.2 = none ∨
      (dispatch os s none command args).2.2 =
        mustReach (dispatch os s none command args).2.1 none := by
  unfold dispatch
  dsimp only
  cases verbs.lookup (commandName command) with
  | none => exact Or.inl rfl
  | some verb =>
      have hrun := run_waits os s (commandName command) verb args
      dsimp only
      rcases hresult : run os s none (commandName command) verb args with
        ⟨result, s', durableBy⟩
      rw [hresult] at hrun
      cases result with
      | ok reply => exact hrun
      | error e => exact hrun

theorem opts_refuse (s : Store) (bytes : Bytes) (reach : Reach)
    (refusal : Refusal) : (s.refuse bytes reach refusal).opts = s.opts := by
  cases refusal with
  | flushing => rfl
  | sealing => rfl
  | creating => rfl
  | opening => rfl
  | appending =>
      unfold Store.refuse
      dsimp only
      split
      · exact Store.opts_rollIfNeeded s _
      · exact Store.opts_rollIfNeeded s _

theorem mustReach_lax {s : Store} (hpolicy : s.opts.sync ≠ SyncPolicy.everyWrite) :
    mustReach s none = none :=
  if_neg hpolicy

/-- A server whose store does not sync every write never waits. -/
structure Lax (t : Threads) : Prop where
  policy : t.store.opts.sync ≠ SyncPolicy.everyWrite
  serving : forall i, t.stage i = Stage.serving none

namespace Lax

variable {t t' : Threads}

theorem enter (h : Lax t) {s : Store} (hopts : s.opts = t.store.opts) {i : Nat} :
    Lax ({ t with store := s }.enter i (Stage.serving none)) := by
  constructor
  · show s.opts.sync ≠ _
    rw [hopts]
    exact h.policy
  · intro j
    unfold Threads.enter
    by_cases heq : j = i
    · rw [heq]
      simp
    · simpa [Function.update_of_ne heq] using h.serving j

theorem step (h : Lax t) (hstep : t.Step t') : Lax t' := by
  have hnever : forall {i : Nat} {stage : Stage}, t.stage i = stage ->
      stage = Stage.serving none := by
    intro i stage hstage
    rw [← hstage]
    exact h.serving i
  cases hstep with
  | @command i durableBy os command args hstage hgranted =>
      have hfree := hnever hstage
      cases hfree
      have hopts := (writes_dispatch hgranted t.store none command args).opts
      have hnone : (dispatch os t.store none command args).2.2 = none := by
        rcases dispatch_waits os t.store command args with hnone | hreach
        · exact hnone
        · rw [hreach]
          apply mustReach_lax
          rw [hopts]
          exact h.policy
      rw [hnone]
      exact h.enter hopts
  | @refused i durableBy s bytes reach refusal hstage hwrites =>
      have hfree := hnever hstage
      cases hfree
      have hopts : (s.refuse bytes reach refusal).opts = t.store.opts :=
        (opts_refuse s bytes reach refusal).trans hwrites.opts
      rw [mustReach_lax (by
        rw [hopts]
        exact h.policy)]
      exact h.enter hopts
  | send hstage => cases hnever hstage
  | lock hstage => cases hnever hstage
  | handle hstage => cases hnever hstage
  | handleRefused flushed why hstage => cases hnever hstage
  | enterFsync hstage => cases hnever hstage
  | leaveFsync hstage => cases hnever hstage
  | fsyncRefused why hstage => cases hnever hstage
  | note hstage => cases hnever hstage
  | skip hstage => cases hnever hstage
  | settle hstage => cases hnever hstage
  | reply hstage => cases hnever hstage

theorem run {s : Store} (hpolicy : s.opts.sync ≠ SyncPolicy.everyWrite)
    {past : List Threads} {now : Threads} (hrun : Run s past now) : Lax now := by
  induction hrun with
  | bind => exact ⟨hpolicy, fun _ => rfl⟩
  | step _ hstep ih => exact ih.step hstep

end Lax

/-!
# A reply that does not wait for an fsync
-/

/-- A write that changes nothing waits for what the server was bound with, and that
`wait` returns at once. -/
theorem acknowledged_at_once {s : Store} {os : Answers} {command : Bytes}
    {args : List Bytes} (hgranted : forall turn, os.refused turn = none)
    (hstore : (dispatch os s none command args).2.1 = s)
    (hpoint : (dispatch os s none command args).2.2 = some (appendPoint s)) :
    exists past now, Run s past now ∧ bind s ∈ past ∧ now.store = s ∧
      now.stage 0 = Stage.acknowledged (appendPoint s) := by
  let free : Durable := { point := appendPoint s, syncing := false }
  let point := appendPoint s
  have hbind : bind s = lone s free (Stage.serving none) := by
    unfold bind lone
    rw [Function.update_eq_self_iff.mpr rfl]
  have hbound : Run s [] (lone s free (Stage.serving none)) := hbind ▸ Run.bind
  have hserved : lone (dispatch os s none command args).2.1 free
      (Stage.serving (dispatch os s none command args).2.2) =
        lone s free (Stage.serving (some point)) := by
    rw [hpoint, hstore]
  have hturn : turn free point = (free, Stage.acknowledged point) :=
    if_pos (Point.not_before_self point)
  have hlocked : lone s (turn free point).1 (turn free point).2 =
      lone s free (Stage.acknowledged point) := by
    rw [hturn]
  have hwritten : Run s _ (lone s free (Stage.serving (some point))) :=
    hbound.lone (Threads.Step.command os command args rfl hgranted)
      ((lone_enter _ _ _ _).trans hserved)
  have hwaiting : Run s _ (lone s free (Stage.waiting point)) :=
    hwritten.lone (Threads.Step.send rfl) (lone_enter _ _ _ _)
  have hdone : Run s _ (lone s free (Stage.acknowledged point)) :=
    hwaiting.lone (Threads.Step.lock rfl) ((lone_enter s _ _ _).trans hlocked)
  refine ⟨_, _, hdone, ?_, rfl, rfl⟩
  rw [hbind]
  simp

theorem dispatch_refused_set (s : Store)
    (hpolicy : s.opts.sync = SyncPolicy.everyWrite) :
    (dispatch quiet s none [115, 101, 116] [[107], [118], [120]]).2.1 = s ∧
      (dispatch quiet s none [115, 101, 116] [[107], [118], [120]]).2.2 =
        some (appendPoint s) := by
  have hlookup : verbs.lookup (commandName [115, 101, 116]) = some Verb.set := by
    decide +kernel
  unfold dispatch
  dsimp only
  rw [hlookup]
  refine ⟨rfl, ?_⟩
  show mustReach s none = some (appendPoint s)
  exact if_pos hpolicy

/-- One connection at most syncs at a time.  A byte that was appended since the server
was bound, or was on the disk then, is on the disk once a `wait` for it has returned.
And every byte is, in every run, if and only if nothing waits or all that the server was
bound with was on the disk. -/
theorem acknowledged_is_durable {s : Store} (hok : s.writer.Ok s.dir) :
    (forall past now, Run s past now ->
      (forall i j, (now.stage i).Moves -> (now.stage j).Moves -> i = j) ∧
      forall i point, now.stage i = Stage.acknowledged point ->
        forall earlier, earlier ∈ now :: past ->
          forall (id : FileId) (offset : Nat) (byte : UInt8),
            id <= earlier.store.writer.fileId ->
            (earlier.store.contents id)[offset]? = some byte ->
            Point.Before (id, offset) point ->
            ¬Point.Before (id, offset) (appendPoint s) ∨
              offset < s.dir.disk.synced id ->
            (now.store.dir.disk.durable id)[offset]? = some byte) ∧
    ((forall past now, Run s past now -> Acknowledges past now) ↔
      (s.opts.sync = SyncPolicy.everyWrite -> Persisted s)) := by
  refine ⟨?_, ?_, ?_⟩
  · intro past now hrun
    refine ⟨(hrun.ok hok).1.alone, ?_⟩
    intro i point hstage earlier hearlier id offset byte hid hbyte hbefore hsince
    exact hrun.durable hok hstage hearlier hid hbyte hbefore hsince
  · intro hall hpolicy id hid
    rcases dispatch_refused_set s hpolicy with ⟨hstore, hpoint⟩
    rcases acknowledged_at_once (fun _ => rfl) hstore hpoint with
      ⟨past, now, hrun, hbound, hsame, hstage⟩
    by_contra hshort
    have hlt : s.dir.disk.synced id < (s.contents id).length :=
      Nat.lt_of_not_le hshort
    have hbefore : Point.Before (id, s.dir.disk.synced id) (appendPoint s) := by
      rcases Nat.lt_or_eq_of_le hid with hbelow | hactive
      · exact Or.inl hbelow
      · refine Or.inr ⟨hactive, ?_⟩
        rw [hactive, Store.contents, if_pos rfl, hok.length_contents] at hlt
        rw [hactive]
        exact hlt
    have hdurable := hall past now hrun 0 _ hstage (bind s)
      (List.mem_cons_of_mem _ hbound) id _ _ hid
      (List.getElem?_eq_getElem hlt) hbefore
    rw [hsame] at hdurable
    have hwithin := (List.getElem?_eq_some_iff.mp hdurable).1
    rw [Disk.durable, List.length_take] at hwithin
    omega
  · intro hpersisted past now hrun
    by_cases hpolicy : s.opts.sync = SyncPolicy.everyWrite
    · intro i point hstage earlier hearlier id offset byte hid hbyte hbefore
      apply hrun.durable hok hstage hearlier hid hbyte hbefore
      by_cases hsince : Point.Before (id, offset) (appendPoint s)
      · rcases hrun.before hok hearlier hid hbyte hsince with ⟨hfirst, hlt⟩
        exact Or.inr (Nat.lt_of_lt_of_le hlt (hpersisted hpolicy id hfirst))
      · exact Or.inl hsince
    · intro i point hstage
      rw [(Lax.run hpolicy hrun).serving i] at hstage
      cases hstage

/-- A connection on its own runs the fsync that its write waits for. -/
theorem syncing_alone {s s' : Store} {os : Answers} {command : Bytes}
    {args : List Bytes} (hgranted : forall turn, os.refused turn = none)
    (hstore : (dispatch os s none command args).2.1 = s')
    (hpoint : (dispatch os s none command args).2.2 = some (appendPoint s'))
    (hwrote : Point.Before (appendPoint s) (appendPoint s')) :
    exists past, Run s past (lone s'.syncHandle.2
        { point := appendPoint s, syncing := true }
        (Stage.syncing (appendPoint s') s'.syncHandle.1
          (s'.syncHandle.2.dir.disk.contents s'.syncHandle.1.file).length)) ∧
      exists earlier, earlier ∈ past ∧ earlier.store = s' := by
  let free : Durable := { point := appendPoint s, syncing := false }
  let taken : Durable := { point := appendPoint s, syncing := true }
  let point := appendPoint s'
  let handle := s'.syncHandle.1
  let flushed := s'.syncHandle.2
  have hturn : turn free point = (taken, Stage.elected point) := by
    unfold turn
    rw [if_neg (not_not_intro hwrote)]
    rfl
  have hlocked : lone s' (turn free point).1 (turn free point).2 =
      lone s' taken (Stage.elected point) := by
    rw [hturn]
  have hbound : Run s [] (lone s free (Stage.serving none)) := by
    have hbind := Run.bind (s := s)
    unfold bind at hbind
    unfold lone
    rw [Function.update_eq_self_iff.mpr rfl]
    exact hbind
  have hwritten : Run s _ (lone s' free (Stage.serving (some point))) :=
    hbound.lone (Threads.Step.command os command args rfl hgranted)
      ((lone_enter _ _ _ _).trans (by rw [← hstore, ← hpoint]; rfl))
  have hwaiting : Run s _ (lone s' free (Stage.waiting point)) :=
    hwritten.lone (Threads.Step.send rfl) (lone_enter _ _ _ _)
  have helected : Run s _ (lone s' taken (Stage.elected point)) :=
    hwaiting.lone (Threads.Step.lock rfl)
      ((lone_enter s' _ _ _).trans hlocked)
  have hholding : Run s _ (lone flushed taken (Stage.holding point handle)) :=
    helected.lone (Threads.Step.handle rfl) (lone_enter _ _ _ _)
  have hsyncing : Run s _ (lone flushed taken (Stage.syncing point handle
      (flushed.dir.disk.contents handle.file).length)) :=
    hholding.lone (Threads.Step.enterFsync rfl) (lone_enter _ _ _ _)
  refine ⟨_, hsyncing, lone s' free (Stage.waiting point), ?_, rfl⟩
  simp

theorem acknowledged_alone {s s' : Store} {os : Answers} {command : Bytes}
    {args : List Bytes} (hgranted : forall turn, os.refused turn = none)
    (hstore : (dispatch os s none command args).2.1 = s')
    (hpoint : (dispatch os s none command args).2.2 = some (appendPoint s'))
    (hwrote : Point.Before (appendPoint s) (appendPoint s')) :
    exists past now, Run s past now ∧
      now.stage 0 = Stage.acknowledged (appendPoint s') ∧
      exists earlier, earlier ∈ past ∧ earlier.store = s' := by
  let taken : Durable := { point := appendPoint s, syncing := true }
  let point := appendPoint s'
  let handle := s'.syncHandle.1
  let flushed := s'.syncHandle.2
  let extent := (flushed.dir.disk.contents handle.file).length
  let fsynced : Store :=
    { flushed with dir := flushed.dir.syncUpTo handle.file extent }
  have hhandle : handle.point = point := by
    show ((s'.writer.flush s'.dir).1.fileId, (s'.writer.flush s'.dir).1.offset) =
      (s'.writer.fileId, s'.writer.offset)
    unfold LogWriter.flush
    split <;> rfl
  have hsettle : settle taken point (Except.ok handle.point) =
      ({ point := point, syncing := false }, Stage.acknowledged point) := by
    unfold settle
    rw [hhandle]
    dsimp only
    rw [if_pos hwrote, turn, if_pos (Point.not_before_self point)]
  have hsettled : lone (fsynced.noteSynced handle.point)
      (settle taken point (Except.ok handle.point)).1
      (settle taken point (Except.ok handle.point)).2 =
        lone (fsynced.noteSynced handle.point)
          { point := point, syncing := false } (Stage.acknowledged point) := by
    rw [hsettle]
  rcases syncing_alone hgranted hstore hpoint hwrote with
    ⟨past, hsyncing, earlier, hearlier, hearlierStore⟩
  have hsynced : Run s _
      (lone fsynced taken (Stage.synced point (Except.ok handle.point))) :=
    hsyncing.lone (Threads.Step.leaveFsync rfl) (lone_enter _ _ _ _)
  have hnoted : Run s _ (lone (fsynced.noteSynced handle.point) taken
      (Stage.noted point (Except.ok handle.point))) :=
    hsynced.lone (Threads.Step.note rfl) (lone_enter _ _ _ _)
  have hdone := hnoted.lone (Threads.Step.settle rfl)
    ((lone_enter (fsynced.noteSynced handle.point) _ _ _).trans hsettled)
  refine ⟨_, _, hdone, rfl, earlier, ?_, hearlierStore⟩
  simp only [List.mem_cons]
  exact Or.inr (Or.inr (Or.inr hearlier))

theorem writer_openWith {dir : Dir} {opts : Options} {s : Store}
    (h : Store.openWith dir opts = Except.ok s) : s.writer.Ok s.dir := by
  unfold Store.openWith at h
  dsimp only at h
  split at h
  · cases h
  · cases h
    exact LogWriter.ok_openFile

def firstWrite (s : Store) : Store :=
  (dispatch quiet s none [115, 101, 116] [[107], [118]]).2.1

theorem firstWrite_values :
    blank.map (fun s =>
      (appendPoint s,
        (dispatch quiet s none [115, 101, 116] [[107], [118]]).2.2,
        appendPoint (firstWrite s), ((firstWrite s).contents 1)[22]?)) =
      some ((1, 0), some (1, 23), (1, 23), some 118) := by
  decide +kernel

theorem blank_eq_some {s : Store} (h : blank = some s) :
    Store.openWith {} {} = Except.ok s := by
  unfold blank at h
  cases hresult : Store.openWith {} {} with
  | error e =>
      rw [hresult] at h
      cases h
  | ok opened =>
      rw [hresult] at h
      cases h
      rfl

/-- The last byte of a record that was put into the buffer, once its reply is sent. -/
theorem acknowledged_is_durable_set :
    exists s past now, blank = some s ∧ Run s past now ∧
      now.stage 0 = Stage.acknowledged (1, 23) ∧
      (now.store.dir.disk.durable 1)[22]? = some 118 := by
  rcases Option.map_eq_some_iff.mp firstWrite_values with ⟨s, hs, hvalue⟩
  simp only [Prod.mk.injEq] at hvalue
  rcases hvalue with ⟨hfirst, hpoint, hlast, hbyte⟩
  have hwrote : Point.Before (appendPoint s) (appendPoint (firstWrite s)) := by
    rw [hfirst, hlast]
    decide
  have hwritten : (dispatch quiet s none [115, 101, 116] [[107], [118]]).2.1 =
      firstWrite s := rfl
  rcases acknowledged_alone (fun _ => rfl) hwritten
      (hpoint.trans (congrArg some hlast.symm)) hwrote with
    ⟨past, now, hrun, hstage, earlier, hearlier, hstore⟩
  rw [hlast] at hstage
  refine ⟨s, past, now, hs, hrun, hstage, ?_⟩
  have hactive : (1 : FileId) <= earlier.store.writer.fileId := by
    rw [hstore]
    exact Nat.le_of_eq (congrArg Prod.fst hlast).symm
  refine ((acknowledged_is_durable (writer_openWith (blank_eq_some hs))).1 past now
    hrun).2 0 (1, 23) hstage earlier (List.mem_cons_of_mem _ hearlier) 1 22 118
    hactive ?_ (by decide) (Or.inl ?_)
  · rw [hstore]
    exact hbyte
  · rw [hfirst]
    decide

theorem reopened_values :
    blank.bind (fun s =>
      (Store.openWith { disk := (firstWrite s).syncHandle.2.dir.disk }
        {}).toOption.map (fun s' => (s'.opts.sync, appendPoint s',
          (s'.contents 1)[22]?, s'.dir.disk.synced 1))) =
      some (SyncPolicy.everyWrite, (1, 23), some 118, 0) := by
  decide +kernel

/-- A server is killed inside the fsync of its first write.  The next one, bound to
what is left, tells a client at once that it need not wait. -/
theorem bound_bytes_not_durable :
    exists (s s' : Store) (past past' : List Threads) (killed now : Threads)
      (handle : SyncHandle) (extent : Nat),
      blank = some s ∧ Run s past killed ∧
      killed.stage 0 = Stage.syncing (1, 23) handle extent ∧
      Store.openWith { disk := killed.store.dir.disk } {} = Except.ok s' ∧
      Run s' past' now ∧ now.stage 0 = Stage.acknowledged (1, 23) ∧
      ¬ Acknowledges past' now := by
  rcases Option.map_eq_some_iff.mp firstWrite_values with ⟨s, hs, hvalue⟩
  simp only [Prod.mk.injEq] at hvalue
  rcases hvalue with ⟨hfirst, hpoint, hlast, _⟩
  have hwrote : Point.Before (appendPoint s) (appendPoint (firstWrite s)) := by
    rw [hfirst, hlast]
    decide
  have hwritten : (dispatch quiet s none [115, 101, 116] [[107], [118]]).2.1 =
      firstWrite s := rfl
  rcases syncing_alone (fun _ => rfl) hwritten
      (hpoint.trans (congrArg some hlast.symm)) hwrote with ⟨past, hkilled, _⟩
  rw [hlast] at hkilled
  have hvalues := reopened_values
  rw [hs, Option.bind_some] at hvalues
  rcases Option.map_eq_some_iff.mp hvalues with ⟨s', hs', hvalue'⟩
  simp only [Prod.mk.injEq] at hvalue'
  rcases hvalue' with ⟨hpolicy, hbound, hbyte, hsynced⟩
  have hopen : Store.openWith { disk := (firstWrite s).syncHandle.2.dir.disk } {} =
      Except.ok s' := by
    cases hresult : Store.openWith
        { disk := (firstWrite s).syncHandle.2.dir.disk } {} with
    | error e =>
        rw [hresult] at hs'
        cases hs'
    | ok opened =>
        rw [hresult] at hs'
        cases hs'
        rfl
  rcases dispatch_refused_set s' hpolicy with ⟨hstore, hreach⟩
  rcases acknowledged_at_once (fun _ => rfl) hstore hreach with
    ⟨past', now, hrun, hbind, hsame, hstage⟩
  refine ⟨s, s', past, past', _, now, _, _, hs, hkilled, rfl, hopen, hrun, ?_, ?_⟩
  · rw [hstage, hbound]
  · intro hall
    have hdurable := hall 0 _ hstage (bind s') (List.mem_cons_of_mem _ hbind) 1 22
      118 (Nat.le_of_eq (congrArg Prod.fst hbound).symm) hbyte (by
        rw [hbound]
        decide)
    rw [hsame, Disk.durable, hsynced] at hdurable
    cases hdurable

end Server
end Minicask
