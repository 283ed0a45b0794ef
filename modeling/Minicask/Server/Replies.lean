import Minicask.Server.Dispatch
import Minicask.Server.RoundTrips

/-!
# Every command gets one reply

When the reply to a command is something that the protocol can carry.
-/

namespace Minicask
namespace Server

open Resp

/-!
# Errors
-/

/-- An error that reads as one line. -/
def OneLine (e : Error) : Prop :=
  '\n' ∉ e.display.toList

def textOf : Error -> String
  | Error.io why => why
  | Error.corrupt _ _ detail => detail
  | Error.invalidKey why => why
  | Error.valueTooLarge _ => ""

theorem newline_notMem_append {s t : String} (hs : '\n' ∉ s.toList)
    (ht : '\n' ∉ t.toList) : '\n' ∉ (s ++ t).toList := by
  rw [String.toList_append]
  intro hin
  rcases List.mem_append.mp hin with hin | hin
  · exact hs hin
  · exact ht hin

theorem newline_notMem_toString_nat (n : Nat) : '\n' ∉ (toString n).toList :=
  Text.newline_notMem_toString n

theorem oneLine_of_textOf {e : Error} (h : '\n' ∉ (textOf e).toList) :
    OneLine e := by
  cases e with
  | io why => exact newline_notMem_append (by decide) h
  | corrupt fileId offset detail =>
      have hid : '\n' ∉
          (String.ofList ((toString fileId).toList.leftpad 10 '0')).toList := by
        rw [String.toList_ofList, List.leftpad]
        intro hin
        rcases List.mem_append.mp hin with hin | hin
        · exact absurd (List.eq_of_mem_replicate hin) (by decide)
        · exact newline_notMem_toString_nat fileId hin
      refine newline_notMem_append (newline_notMem_append (newline_notMem_append
        (newline_notMem_append (newline_notMem_append ?_ hid) ?_)
          (newline_notMem_toString_nat offset)) ?_) h
      · decide
      · decide
      · decide
  | invalidKey why => exact newline_notMem_append (by decide) h
  | valueTooLarge len =>
      exact newline_notMem_append (newline_notMem_append (by decide)
        (newline_notMem_toString_nat len)) (by decide)

theorem oneLine_of_encode {key : Bytes} {value : Option Bytes} {now : UInt64}
    {e : Error} (h : encode key value now = Except.error e) : OneLine e := by
  apply oneLine_of_textOf
  unfold encode at h
  split at h
  · rw [← Except.error.inj h]
    dsimp only [textOf, notOpen]
    decide
  · split at h
    · rw [← Except.error.inj h]
      dsimp only [textOf, notOpen]
      decide
    · dsimp only at h
      split at h
      · rw [← Except.error.inj h]
        dsimp only [textOf, notOpen]
        decide
      · cases h

theorem oneLine_of_decodeValue {bytes : Bytes} {loc : Location} {e : Error}
    (h : decodeValue bytes loc = Except.error e) : OneLine e := by
  apply oneLine_of_textOf
  unfold decodeValue at h
  dsimp only at h
  split at h
  · rw [← Except.error.inj h]
    dsimp only [textOf, notOpen]
    decide
  · split at h
    · rw [← Except.error.inj h]
      dsimp only [textOf, notOpen]
      decide
    · split at h
      · rw [← Except.error.inj h]
        dsimp only [textOf, notOpen]
        decide
      · cases h

theorem oneLine_of_readRecord {readers : List FileId} {dir : Dir}
    {loc : Location} {e : Error}
    (h : readRecord readers dir loc = Except.error e) : OneLine e := by
  apply oneLine_of_textOf
  unfold readRecord Dir.readAt at h
  dsimp only at h
  split at h
  · split at h
    · cases h
    · rw [← Except.error.inj h]
      dsimp only [textOf, notOpen]
      decide
  · rw [← Except.error.inj h]
    dsimp only [textOf, notOpen]
    decide

theorem error_of_map {α β : Type} {result : Except Error α} {f : α -> β}
    {e : Error} (h : result.map f = Except.error e) :
    result = Except.error e := by
  cases result with
  | error why => exact congrArg Except.error (Except.error.inj h)
  | ok a => cases h

theorem oneLine_of_get {s : Store} {key : Bytes} {e : Error}
    (h : s.get key = Except.error e) : OneLine e := by
  unfold Store.get at h
  split at h
  · cases h
  · next loc _ =>
      dsimp only at h
      split at h
      · exact oneLine_of_decodeValue (error_of_map h)
      · have h := error_of_map h
        unfold readValue at h
        cases hbytes : readRecord s.readers s.dir loc with
        | error why =>
            rw [hbytes] at h
            rw [← Except.error.inj h]
            exact oneLine_of_readRecord hbytes
        | ok bytes =>
            rw [hbytes] at h
            exact oneLine_of_decodeValue h

theorem oneLine_restoreInProgress : OneLine restoreInProgress :=
  oneLine_of_textOf (by decide)

theorem oneLine_of_putWith {s : Store} {key value : Bytes} {reach : Reach}
    {now later : UInt64} {e : Error}
    (h : s.putWith key value reach now later = Except.error e) : OneLine e := by
  unfold Store.putWith at h
  split at h
  · rw [← Except.error.inj h]
    exact oneLine_restoreInProgress
  · split at h
    · next why hencode =>
        rw [← Except.error.inj h]
        exact oneLine_of_encode hencode
    · cases h

theorem oneLine_of_deleteWith {s : Store} {key : Bytes} {reach : Reach}
    {now later : UInt64} {e : Error}
    (h : s.deleteWith key reach now later = Except.error e) : OneLine e := by
  unfold Store.deleteWith at h
  split at h
  · rw [← Except.error.inj h]
    exact oneLine_restoreInProgress
  · split at h
    · cases h
    · split at h
      · next why hencode =>
          rw [← Except.error.inj h]
          exact oneLine_of_encode hencode
      · cases h

namespace Answers

/-- The messages of the operating system are lines of text. -/
def Plain (os : Answers) : Prop :=
  forall turn why left, os.refused turn = some (why, left) ->
    '\n' ∉ why.toList

theorem Plain.oneLine_of_get {os : Answers} (h : os.Plain) {turn : Nat}
    {s : Store} {key : Bytes} {e : Error}
    (hget : os.get turn s key = Except.error e) : OneLine e := by
  unfold Answers.get at hget
  split at hget
  · next why left hrefused =>
      rw [← Except.error.inj hget]
      exact oneLine_of_textOf (h turn why left hrefused)
  · exact Server.oneLine_of_get hget

theorem Plain.oneLine_of_put {os : Answers} (h : os.Plain) {turn : Nat}
    {s : Store} {key value : Bytes} {e : Error}
    (hput : (os.put turn s key value).1 = Except.error e) : OneLine e := by
  unfold Answers.put at hput
  split at hput
  · next why left hrefused =>
      rw [← Except.error.inj hput]
      exact oneLine_of_textOf (h turn why left hrefused)
  · dsimp only at hput
    split at hput
    · next why hwhy =>
        rw [← Except.error.inj hput]
        split at hwhy
        · exact oneLine_of_putWith hwhy
        · exact oneLine_of_putWith hwhy
    · cases hput

theorem Plain.oneLine_of_delete {os : Answers} (h : os.Plain) {turn : Nat}
    {s : Store} {key : Bytes} {e : Error}
    (hdelete : (os.delete turn s key).1 = Except.error e) : OneLine e := by
  unfold Answers.delete at hdelete
  split at hdelete
  · next why left hrefused =>
      rw [← Except.error.inj hdelete]
      exact oneLine_of_textOf (h turn why left hrefused)
  · dsimp only at hdelete
    split at hdelete
    · next why hwhy =>
        rw [← Except.error.inj hdelete]
        split at hwhy
        · exact oneLine_of_deleteWith hwhy
        · exact oneLine_of_deleteWith hwhy
    · cases hdelete

theorem Plain.oneLine_of_deleteAll {os : Answers} (h : os.Plain) {turn : Nat}
    {s : Store} {keys : List Bytes} {e : Error}
    (hdelete : (deleteAll os turn s keys).1 = Except.error e) : OneLine e := by
  induction keys generalizing turn s with
  | nil => cases hdelete
  | cons key keys ih =>
      rw [deleteAll] at hdelete
      split at hdelete
      · next why left hwhy =>
          have herror : (os.delete turn s key).1 = Except.error e := by
            rw [hwhy]
            exact congrArg Except.error (Except.error.inj hdelete)
          exact h.oneLine_of_delete herror
      · exact ih (error_of_map hdelete)

theorem Plain.oneLine_of_putAll {os : Answers} (h : os.Plain) {turn : Nat}
    {s : Store} {pairs : List Bytes} {e : Error}
    (hput : (putAll os turn s pairs).1 = Except.error e) : OneLine e := by
  induction turn, s, pairs using putAll.induct os with
  | case1 turn s key value pairs why left hwhy =>
      rw [putAll, hwhy] at hput
      have herror : (os.put turn s key value).1 = Except.error e := by
        rw [hwhy]
        exact hput
      exact h.oneLine_of_put herror
  | case2 turn s key value pairs left hleft ih =>
      rw [putAll, hleft] at hput
      exact ih hput
  | case3 turn s pairs hpairs =>
      unfold putAll at hput
      split at hput
      · exact absurd rfl (hpairs _ _ _)
      · cases hput

end Answers

/-!
# Replies
-/

theorem fits_ok : Reply.Fits Reply.ok :=
  Reply.Fits.simple (by decide)

theorem fits_err_iff (message : String) :
    (Reply.err message).Fits ↔ '\n' ∉ message.toList := by
  constructor
  · intro h
    cases h with
    | error h =>
        intro hin
        rw [String.toList_append] at h
        exact h (List.mem_append_right _ hin)
  · intro h
    exact Reply.Fits.error (newline_notMem_append (by decide) h)

theorem fits_bulk_iff (bytes : Bytes) :
    (Reply.bulk bytes).Fits ↔ bytes.length <= maxBulkLen := by
  constructor
  · intro h
    cases h with
    | bulk h => exact h
  · exact Reply.Fits.bulk

theorem fits_array_iff (items : List Reply) :
    (Reply.array items).Fits ↔
      items.length <= maxArrayLen ∧ forall i, i ∈ items -> i.Fits := by
  constructor
  · intro h
    cases h with
    | array h hitems => exact ⟨h, hitems⟩
  · intro h
    exact Reply.Fits.array h.1 h.2

theorem fits_bulkOrNull_iff (value : Option Bytes) :
    (bulkOrNull value).Fits ↔
      forall bytes, value = some bytes -> bytes.length <= maxBulkLen := by
  cases value with
  | none => exact ⟨fun _ => nofun, fun _ => Reply.Fits.null⟩
  | some bytes =>
      rw [bulkOrNull, fits_bulk_iff]
      constructor
      · intro h bytes' heq
        rw [← Option.some.inj heq]
        exact h
      · intro h
        exact h bytes rfl

theorem newline_notMem_of_lookup {name : String} {verb : Verb}
    (h : verbs.lookup name = some verb) : '\n' ∉ name.toList := by
  have hall : forall p, p ∈ verbs -> '\n' ∉ p.1.toList := by decide
  rcases List.lookup_eq_some_iff.mp h with ⟨before, after, hverbs, _⟩
  apply hall (name, verb)
  rw [hverbs]
  exact List.mem_append_right before List.mem_cons_self

theorem fits_wrongArity {name : String} (h : '\n' ∉ name.toList) :
    (wrongArity name).Fits := by
  rw [wrongArity, fits_err_iff]
  refine newline_notMem_append (newline_notMem_append (by decide) ?_) (by decide)
  rw [Text.newline_mem_toAsciiLowercase]
  exact h

def replyOf : Except Error Reply -> Reply
  | Except.ok reply => reply
  | Except.error e => Reply.err e.display

theorem fits_replyOf_map {α : Type} {result : Except Error α}
    {f : α -> Reply} (herror : forall e, result = Except.error e -> OneLine e) :
    (replyOf (result.map f)).Fits ↔
      forall a, result = Except.ok a -> (f a).Fits := by
  cases result with
  | error e =>
      constructor
      · intro _
        nofun
      · intro _
        exact (fits_err_iff _).mpr (herror e rfl)
  | ok a =>
      constructor
      · intro h a' heq
        rw [← Except.ok.inj heq]
        exact h
      · intro h
        exact h a rfl

/-- The arguments of a known command do not ask for more than a reply can hold. -/
def Carried (os : Answers) (s : Store) : Verb -> List Bytes -> Prop
  | Verb.ping, [msg] => msg.length <= maxBulkLen
  | Verb.echo, [msg] => msg.length <= maxBulkLen
  | Verb.get, [key] =>
      forall value, os.get 0 s key = Except.ok (some value) ->
        value.length <= maxBulkLen
  | Verb.mget, keys =>
      forall values : List (Option Bytes),
        keys.mapIdx (fun turn key => os.get turn s key) = values.map Except.ok ->
          values.length <= maxArrayLen ∧
            forall value, some value ∈ values -> value.length <= maxBulkLen
  | Verb.keys, [pattern] =>
      forall key, key ∈ s.keys -> globMatch pattern key = true ->
        key.length <= maxBulkLen
  | _, _ => True

/-- A command that can be answered: one that is known and does not ask for too much, or
one without a line feed in its name. -/
def Answerable (os : Answers) (s : Store) (command : Bytes)
    (args : List Bytes) : Prop :=
  match verbs.lookup (commandName command) with
  | none => (10 : UInt8) ∉ command
  | some verb => Carried os s verb args

theorem collect_eq_ok_iff {α : Type} {answers : List (Except Error α)}
    {values : List α} :
    collect answers = Except.ok values ↔ answers = values.map Except.ok := by
  induction answers generalizing values with
  | nil =>
      constructor
      · intro h
        rw [← Except.ok.inj h]
        rfl
      · intro h
        rw [List.map_eq_nil_iff.mp h.symm]
        rfl
  | cons answer answers ih =>
      cases answer with
      | error e =>
          constructor
          · nofun
          · intro h
            cases values with
            | nil => cases h
            | cons value values => cases (List.cons.inj h).1
      | ok a =>
          rw [collect]
          constructor
          · intro h
            cases hrest : collect answers with
            | error e =>
                rw [hrest] at h
                cases h
            | ok rest =>
                rw [hrest] at h
                rw [← Except.ok.inj h, ih.mp hrest]
                rfl
          · intro h
            cases values with
            | nil => cases h
            | cons value values =>
                have hrest := ih.mpr (List.cons.inj h).2
                rw [hrest, Except.ok.inj (List.cons.inj h).1]
                rfl

theorem error_mem_of_collect {α : Type} {answers : List (Except Error α)}
    {e : Error} (h : collect answers = Except.error e) :
    Except.error e ∈ answers := by
  induction answers with
  | nil => cases h
  | cons answer answers ih =>
      cases answer with
      | error why =>
          rw [← Except.error.inj h]
          exact List.mem_cons_self
      | ok a => exact List.mem_cons_of_mem _ (ih (error_of_map h))

section

variable {os : Answers} {s : Store} {name : String}

theorem fits_set (hos : os.Plain) (key value : Bytes) (options : List Bytes) :
    (replyOf (set os s key value options).1).Fits := by
  have hsyntax : (Reply.err "syntax error").Fits :=
    (fits_err_iff _).mpr (by decide)
  unfold set
  split
  · exact hsyntax
  · dsimp only
    split
    · exact hsyntax
    · split
      · exact Reply.Fits.null
      · exact (fits_replyOf_map (fun e he => hos.oneLine_of_put he)).mpr
          (fun _ _ => fits_ok)

theorem fits_mget (hos : os.Plain) (keys : List Bytes) :
    (replyOf ((collect (keys.mapIdx (fun turn key => os.get turn s key))).map
      (fun values => Reply.array (values.map bulkOrNull)))).Fits ↔
      Carried os s Verb.mget keys := by
  have herror : forall e,
      collect (keys.mapIdx (fun turn key => os.get turn s key)) =
        Except.error e -> OneLine e := by
    intro e he
    rcases List.mem_mapIdx.mp (error_mem_of_collect he) with ⟨turn, hturn, hget⟩
    exact hos.oneLine_of_get hget
  rw [fits_replyOf_map herror]
  constructor
  · intro h values hvalues
    obtain ⟨hlength, hitems⟩ :=
      (fits_array_iff _).mp (h values (collect_eq_ok_iff.mpr hvalues))
    rw [List.length_map] at hlength
    refine ⟨hlength, ?_⟩
    intro value hvalue
    exact (fits_bulk_iff value).mp
      (hitems _ (List.mem_map_of_mem (f := bulkOrNull) hvalue))
  · intro h values hvalues
    obtain ⟨hlength, hitems⟩ := h values (collect_eq_ok_iff.mp hvalues)
    refine (fits_array_iff _).mpr ⟨by rw [List.length_map]; exact hlength, ?_⟩
    intro i hi
    rcases List.mem_map.mp hi with ⟨value, hvalue, heq⟩
    rw [← heq, fits_bulkOrNull_iff]
    intro bytes hbytes
    exact hitems bytes (hbytes ▸ hvalue)

theorem fits_keys (hkeys : s.keys.length <= maxArrayLen) (pattern : Bytes) :
    (Reply.array (((s.keys.filter (globMatch pattern)).mergeSort
      (fun a b => decide (a <= b))).map Reply.bulk)).Fits ↔
      Carried os s Verb.keys [pattern] := by
  rw [fits_array_iff]
  constructor
  · intro h key hkey hmatch
    apply (fits_bulk_iff key).mp (h.2 _ _)
    exact List.mem_map_of_mem (List.mem_mergeSort.mpr
      (List.mem_filter.mpr ⟨hkey, hmatch⟩))
  · intro h
    constructor
    · rw [List.length_map, List.length_mergeSort]
      exact Nat.le_trans (List.length_filter_le _ _) hkeys
    · intro i hi
      rcases List.mem_map.mp hi with ⟨key, hkey, heq⟩
      obtain ⟨hin, hmatch⟩ := List.mem_filter.mp (List.mem_mergeSort.mp hkey)
      rw [← heq, fits_bulk_iff]
      exact h key hin hmatch

theorem fits_run (hos : os.Plain) (hkeys : s.keys.length <= maxArrayLen)
    (hname : '\n' ∉ name.toList) (durableBy : Option (FileId × Nat))
    (verb : Verb) (args : List Bytes) :
    (replyOf (run os s durableBy name verb args).1).Fits ↔
      Carried os s verb args := by
  have harity : (replyOf (Except.ok (wrongArity name))).Fits :=
    fits_wrongArity hname
  have hdelete : forall (keys : List Bytes) (f : Nat -> Reply),
      (forall n, (f n).Fits) ->
        (replyOf ((deleteAll os 0 s keys).1.map f)).Fits :=
    fun keys f hf =>
      (fits_replyOf_map (fun e he => hos.oneLine_of_deleteAll he)).mpr
        (fun n _ => hf n)
  cases verb with
  | ping =>
      match args with
      | [] => exact iff_of_true (Reply.Fits.simple (by decide)) trivial
      | [msg] => exact fits_bulk_iff msg
      | _ :: _ :: _ => exact iff_of_true harity trivial
  | echo =>
      match args with
      | [] => exact iff_of_true harity trivial
      | [msg] => exact fits_bulk_iff msg
      | _ :: _ :: _ => exact iff_of_true harity trivial
  | get =>
      match args with
      | [] => exact iff_of_true harity trivial
      | [key] =>
          refine (fits_replyOf_map (fun e he => hos.oneLine_of_get he)).trans ?_
          constructor
          · intro h value hget
            exact (fits_bulkOrNull_iff _).mp (h _ hget) value rfl
          · intro h found hget
            refine (fits_bulkOrNull_iff found).mpr ?_
            intro value heq
            exact h value (heq ▸ hget)
      | _ :: _ :: _ => exact iff_of_true harity trivial
  | set =>
      match args with
      | [] => exact iff_of_true harity trivial
      | [_] => exact iff_of_true harity trivial
      | key :: value :: options =>
          exact iff_of_true (fits_set hos key value options) trivial
  | del =>
      match args with
      | [] => exact iff_of_true harity trivial
      | key :: keys =>
          exact iff_of_true
            (hdelete (key :: keys) _ (fun _ => Reply.Fits.integer _)) trivial
  | «exists» =>
      match args with
      | [] => exact iff_of_true harity trivial
      | key :: keys => exact iff_of_true (Reply.Fits.integer _) trivial
  | mget =>
      match args with
      | [] =>
          refine iff_of_true harity ?_
          intro values hvalues
          rw [List.map_eq_nil_iff.mp hvalues.symm]
          exact ⟨Nat.zero_le _, nofun⟩
      | key :: keys => exact fits_mget hos (key :: keys)
  | mset =>
      match args with
      | [] => exact iff_of_true harity trivial
      | first :: rest =>
          refine iff_of_true ?_ trivial
          rw [run]
          · split
            · exact harity
            · exact (fits_replyOf_map (fun e he => hos.oneLine_of_putAll he)).mpr
                (fun _ _ => fits_ok)
          · nofun
  | keys =>
      match args with
      | [] => exact iff_of_true harity trivial
      | [pattern] => exact fits_keys hkeys pattern
      | _ :: _ :: _ => exact iff_of_true harity trivial
  | dbsize =>
      match args with
      | [] => exact iff_of_true (Reply.Fits.integer _) trivial
      | _ :: _ => exact iff_of_true harity trivial
  | flush => exact iff_of_true (hdelete s.keys _ (fun _ => fits_ok)) trivial
  | select =>
      match args with
      | [] => exact iff_of_true harity trivial
      | [db] =>
          refine iff_of_true ?_ trivial
          show (if db = [48] then Reply.ok
            else Reply.err "DB index is out of range").Fits
          split
          · exact fits_ok
          · exact (fits_err_iff _).mpr (by decide)
      | _ :: _ :: _ => exact iff_of_true harity trivial
  | command =>
      exact iff_of_true (Reply.Fits.array (Nat.zero_le _) nofun) trivial
  | client => exact iff_of_true fits_ok trivial
  | quit => exact iff_of_true fits_ok trivial

theorem fits_unknown (command : Bytes) :
    (Reply.err ("unknown command '" ++
      Text.toAsciiLowercase (commandName command) ++ "'")).Fits ↔
      (10 : UInt8) ∉ command := by
  have hname : '\n' ∈ (Text.toAsciiLowercase (commandName command)).toList ↔
      (10 : UInt8) ∈ command := by
    rw [Text.newline_mem_toAsciiLowercase, commandName,
      Text.newline_mem_toAsciiUppercase, Text.newline_mem_fromUtf8Lossy]
  rw [fits_err_iff]
  constructor
  · intro h hin
    apply h
    rw [String.toList_append, String.toList_append]
    exact List.mem_append_left _ (List.mem_append_right _ (hname.mpr hin))
  · intro h
    exact newline_notMem_append (newline_notMem_append (by decide)
      (fun hin => h (hname.mp hin))) (by decide)

end

/-- The reply to a command is read back as that one reply, with nothing left over, if
and only if the command can be answered. -/
theorem one_reply_iff {os : Answers} (hos : os.Plain) {s : Store}
    (hkeys : s.keys.length <= maxArrayLen)
    (durableBy : Option (FileId × Nat)) (command : Bytes) (args : List Bytes) :
    readReply (dispatch os s durableBy command args).1.writeTo =
        Except.ok ((dispatch os s durableBy command args).1, []) ↔
      Answerable os s command args := by
  rw [Reply.fits_iff_readReply, Answerable, dispatch]
  cases hverb : verbs.lookup (commandName command) with
  | none => exact fits_unknown command
  | some verb =>
      have hrun := fits_run hos hkeys (newline_notMem_of_lookup hverb)
        durableBy verb args
      dsimp only
      rw [← hrun]
      cases run os s durableBy (commandName command) verb args with
      | mk result left =>
          cases result with
          | ok reply => exact Iff.rfl
          | error e => exact Iff.rfl

def quiet : Answers where
  clock := fun _ => 0
  refused := fun _ => none

def blank : Option Store :=
  (Store.openWith {} {}).toOption

theorem plain_quiet : quiet.Plain :=
  fun _ _ _ h => nomatch h

theorem blank_opens : exists s, blank = some s ∧ s.keys = [] := by
  have hkeys : blank.map (fun s => s.keys) = some [] := by
    decide +kernel
  rcases Option.map_eq_some_iff.mp hkeys with ⟨s, hs, heq⟩
  exact ⟨s, hs, heq⟩

/-- An error message repeats a name that the client made up, and with it the end of the
line: the rest of the name is left over in front of the next reply. -/
theorem line_feed_in_a_command_name :
    exists s, blank = some s ∧ s.keys = [] ∧
      readReply (dispatch quiet s none [97, 10, 98] []).1.writeTo =
        Except.ok (Reply.error "ERR unknown command 'a", [98, 39, 13, 10]) ∧
      ¬ readReply (dispatch quiet s none [97, 10, 98] []).1.writeTo =
        Except.ok ((dispatch quiet s none [97, 10, 98] []).1, []) := by
  rcases blank_opens with ⟨s, hs, hkeys⟩
  have hname : commandName [97, 10, 98] = "A\nB" := by decide +kernel
  have hverb : verbs.lookup "A\nB" = none := by decide +kernel
  have hlower : "unknown command '" ++ Text.toAsciiLowercase "A\nB" ++ "'" =
      "unknown command 'a\nb'" := by decide +kernel
  have hreply : (dispatch quiet s none [97, 10, 98] []).1 =
      Reply.err "unknown command 'a\nb'" := by
    rw [dispatch, hname, hverb, hlower]
  have hread : readReply (Reply.err "unknown command 'a\nb'").writeTo =
      Except.ok (Reply.error "ERR unknown command 'a", [98, 39, 13, 10]) := by
    rfl
  refine ⟨s, hs, hkeys, ?_, ?_⟩
  · rw [hreply, hread]
  rw [hreply, hread]
  intro heq
  cases (Prod.mk.inj (Except.ok.inj heq)).2

/-- A message that is not text is sent back as it is. -/
theorem one_reply_iff_ping :
    exists s, blank = some s ∧ s.keys.length <= maxArrayLen ∧ quiet.Plain ∧
      readReply
          (dispatch quiet s none [112, 105, 110, 103] [[13, 10, 255]]).1.writeTo =
        Except.ok
          ((dispatch quiet s none [112, 105, 110, 103] [[13, 10, 255]]).1, []) := by
  rcases blank_opens with ⟨s, hs, hkeys⟩
  have hlength : s.keys.length <= maxArrayLen := by
    rw [hkeys]
    exact Nat.zero_le _
  have hverb : verbs.lookup (commandName [112, 105, 110, 103]) =
      some Verb.ping := by decide +kernel
  have hcan : Answerable quiet s [112, 105, 110, 103] [[13, 10, 255]] := by
    rw [Answerable, hverb]
    show ([13, 10, 255] : Bytes).length <= maxBulkLen
    decide
  exact ⟨s, hs, hlength, plain_quiet,
    (one_reply_iff plain_quiet hlength none _ _).mpr hcan⟩

end Server
end Minicask
