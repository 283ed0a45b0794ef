import Minicask.Server.RoundTrips

/-!
# Commands that were cut off

A client hangs up in the middle of a command.  An array is never taken for a shorter
one, wherever it is cut: a line in it that the stream ends in has no payload behind
it, and a payload has its own length.  An inline line has no such mark, and what came
of it is run as if the end of the stream ended the line.
-/

namespace Minicask
namespace Resp

/-!
# What is read before the end of the stream

Where something is left behind a line, the line was ended by a line feed, and more
bytes behind it change nothing.
-/

theorem readUntil_more {input : Bytes} (h : (readUntil input).2 ≠ [])
    (more : Bytes) :
    readUntil (input ++ more) =
      ((readUntil input).1, (readUntil input).2 ++ more) := by
  induction input with
  | nil => exact absurd rfl h
  | cons byte input ih =>
      rw [List.cons_append, readUntil]
      rw [readUntil] at h ⊢
      by_cases hbyte : byte = 10
      · rw [if_pos hbyte, if_pos hbyte]
      · rw [if_neg hbyte] at h
        rw [if_neg hbyte, if_neg hbyte, ih h]

theorem readLine_more {input rest : Bytes} {found : Option Bytes}
    (h : readLine input = (found, rest)) (hrest : rest ≠ []) (more : Bytes) :
    readLine (input ++ more) = (found, rest ++ more) := by
  have hleft : (readLine input).2 = (readUntil input).2 := by
    unfold readLine
    dsimp only
    split <;> rfl
  have hread : (readUntil input).2 ≠ [] := by
    rw [← hleft, h]
    exact hrest
  have hmore := readUntil_more hread more
  unfold readLine at h ⊢
  rw [hmore]
  dsimp only at h ⊢
  split at h
  · next hempty =>
      rw [if_pos hempty]
      cases h
      rfl
  · next hempty =>
      rw [if_neg hempty]
      cases h
      rfl

theorem readBulk_more {len : Nat} {input bytes rest : Bytes}
    (h : readBulk len input = Except.ok (bytes, rest)) (more : Bytes) :
    input ≠ [] ∧
      readBulk len (input ++ more) = Except.ok (bytes, rest ++ more) := by
  unfold readBulk at h
  split at h
  · cases h
  · next hlong =>
      split at h
      · cases h
      · next hend =>
          cases h
          constructor
          · intro hnil
            rw [hnil] at hlong
            exact hlong (Nat.zero_lt_succ _)
          · unfold readBulk
            rw [if_neg (by rw [List.length_append]; omega),
              List.drop_append_of_le_length (by omega),
              List.take_append_of_le_length (by rw [List.length_drop]; omega),
              if_neg hend, List.take_append_of_le_length (by omega),
              List.drop_append_of_le_length (by omega)]

theorem readArgument_more {input arg rest : Bytes}
    (h : readArgument input = Except.ok (arg, rest)) (more : Bytes) :
    input ≠ [] ∧
      readArgument (input ++ more) = Except.ok (arg, rest ++ more) := by
  have hinput : input ≠ [] := by
    intro hnil
    rw [hnil] at h
    cases h
  unfold readArgument at h
  rcases hline : readLine input with ⟨_ | header, middle⟩
  · rw [hline] at h
    cases h
  · rw [hline] at h
    dsimp only at h
    split at h
    · cases h
    · next hkind =>
        cases hlen : parseLen (header.drop 1) maxBulkLen with
        | error e =>
            rw [hlen] at h
            cases h
        | ok found =>
            rw [hlen] at h
            cases found with
            | none => cases h
            | some len =>
                rcases readBulk_more h more with ⟨hmiddle, hbulk⟩
                constructor
                · exact hinput
                · unfold readArgument
                  rw [readLine_more hline hmiddle]
                  dsimp only
                  rw [if_neg hkind, hlen]
                  exact hbulk

theorem readItems_more {item : Type}
    {read : Bytes -> Except ReadError (item × Bytes)} {more : Bytes}
    (hread : forall {input found rest}, read input = Except.ok (found, rest) ->
      read (input ++ more) = Except.ok (found, rest ++ more))
    {count : Nat} {input : Bytes} {items : List item} {rest : Bytes}
    (h : readItems read count input = Except.ok (items, rest)) :
    readItems read count (input ++ more) = Except.ok (items, rest ++ more) := by
  induction count generalizing input items rest with
  | zero =>
      cases h
      rfl
  | succ count ih =>
      rw [readItems] at h ⊢
      cases hfirst : read input with
      | error e =>
          rw [hfirst] at h
          cases h
      | ok first =>
          rcases first with ⟨found, middle⟩
          rw [hfirst] at h
          dsimp only at h
          cases hothers : readItems read count middle with
          | error e =>
              rw [hothers] at h
              cases h
          | ok others =>
              rw [hothers] at h
              cases h
              rw [hread hfirst]
              dsimp only
              rw [ih hothers]

theorem head?_popIf_of {byte other : UInt8} {line : Bytes}
    (h : line.head? = some other) (hne : other ≠ byte) :
    (popIf byte line).head? = some other := by
  unfold popIf
  split
  · next hlast =>
      cases line with
      | nil => cases h
      | cons first line =>
          cases line with
          | nil =>
              cases h
              exact absurd (Option.some.inj hlast) hne
          | cons second line => exact h
  · exact h

theorem head?_readLine {input line rest : Bytes}
    (h : readLine input = (some line, rest)) {byte : UInt8}
    (hhead : input.head? = some byte) (hlf : byte ≠ 10) (hcr : byte ≠ 13) :
    line.head? = some byte := by
  cases input with
  | nil => cases hhead
  | cons first input =>
      cases hhead
      unfold readLine at h
      rw [readUntil, if_neg hlf] at h
      cases h
      exact head?_popIf_of (head?_popIf_of rfl hlf) hcr

/-- What an array made of the front of a stream, it makes of more of the stream,
unless it came to the end and found nothing to run. -/
theorem readCommand_more {input rest : Bytes} {args : List Bytes}
    (hstar : input.head? = some 42)
    (h : readCommand input = Except.ok (some args, rest))
    (hleft : args ≠ [] ∨ rest ≠ []) (more : Bytes) :
    readCommand (input ++ more) = Except.ok (some args, rest ++ more) := by
  unfold readCommand at h
  rcases hline : readLine input with ⟨_ | line, middle⟩
  · rw [hline] at h
    cases h
  · have hhead := head?_readLine hline hstar (by decide) (by decide)
    have hfull : line.isEmpty ≠ true := by
      intro hempty
      rw [List.isEmpty_iff.mp hempty] at hhead
      cases hhead
    rw [hline] at h
    dsimp only at h
    rw [if_neg hfull, if_neg (not_not.mpr hhead)] at h
    -- The line was ended, as something is behind it.
    have hline' : middle ≠ [] ->
        readLine (input ++ more) = (some line, middle ++ more) :=
      fun hmiddle => readLine_more hline hmiddle more
    unfold readCommand
    cases hcount : parseLen (line.drop 1) maxArrayLen with
    | error e =>
        rw [hcount] at h
        cases h
    | ok found =>
        rw [hcount] at h
        cases found with
        | none =>
            cases h
            have hmiddle := hleft.resolve_left (fun hne => hne rfl)
            rw [hline' hmiddle]
            dsimp only
            rw [if_neg hfull, if_neg (not_not.mpr hhead), hcount]
        | some count =>
            rcases map_eq_ok h with ⟨⟨items, rest'⟩, hitems, hpair⟩
            cases hpair
            have hmiddle : middle ≠ [] := by
              cases count with
              | zero =>
                  cases hitems
                  exact hleft.resolve_left (fun hne => hne rfl)
              | succ count =>
                  rw [readItems] at hitems
                  cases hfirst : readArgument middle with
                  | error e =>
                      rw [hfirst] at hitems
                      cases hitems
                  | ok first => exact (readArgument_more hfirst more).1
            rw [hline' hmiddle]
            dsimp only
            rw [if_neg hfull, if_neg (not_not.mpr hhead), hcount]
            dsimp only
            rw [readItems_more (fun hread => (readArgument_more hread more).2)
              hitems]
            rfl

/-!
# What is left of a command
-/

/-- A command that ends where its bytes end. -/
inductive Whole : Bytes -> Prop where
  | array {bytes : Bytes} {args : List Bytes} (hstar : bytes.head? = some 42)
      (hread : readCommand bytes = Except.ok (some args, [])) : Whole bytes
  | inline {line ending : Bytes} (hstar : line.head? ≠ some 42)
      (hline : (10 : UInt8) ∉ line) (hending : ending = [10] ∨ ending = crlf) :
      Whole (line ++ ending)

theorem Command.Fits.whole {command : Command} (h : command.Fits) :
    Whole command.bytes := by
  cases command with
  | array args =>
      have hread := readCommand_array h.1 h.2 []
      rw [List.append_nil] at hread
      exact Whole.array rfl hread
  | inline line ending => exact Whole.inline h.1 h.2.1 h.2.2

/-- No command comes of these bytes when the stream ends behind them. -/
structure NotRun (bytes : Bytes) : Prop where
  read : forall args rest,
    readCommand bytes = Except.ok (some args, rest) -> args = []
  served : forall commands, Served bytes commands ->
    forall args, args ∈ commands -> args = []

/-- A stream that is at its end, or of which one line without words is left. -/
theorem notRun_of_read {bytes : Bytes}
    (h : forall args rest,
      readCommand bytes = Except.ok (some args, rest) -> args = [] ∧ rest = []) :
    NotRun bytes := by
  constructor
  · intro args rest hread
    exact (h args rest hread).1
  · intro commands hserved args hargs
    cases hserved with
    | closed hread => cases hargs
    | command hread hothers =>
        rcases h _ _ hread with ⟨hnone, hend⟩
        subst hnone hend
        cases hargs with
        | head => rfl
        | tail _ hargs =>
            cases hothers with
            | closed hread' => cases hargs
            | command hread' hothers' => cases hread'

theorem cut_array_notRun {cut more : Bytes} {args : List Bytes}
    (hmore : more ≠ []) (hstar : (cut ++ more).head? = some 42)
    (hread : readCommand (cut ++ more) = Except.ok (some args, [])) :
    NotRun cut := by
  apply notRun_of_read
  intro found rest hfound
  have hcut : cut.head? = some 42 := by
    cases cut with
    | nil => cases hfound
    | cons byte cut => exact hstar
  by_contra hleft
  have hleft : found ≠ [] ∨ rest ≠ [] := by
    by_contra hnone
    rw [not_or, not_not, not_not] at hnone
    exact hleft hnone
  rw [readCommand_more hcut hfound hleft more] at hread
  have hend := (Prod.mk.inj (Except.ok.inj hread)).2
  exact hmore (List.append_eq_nil_iff.mp hend).2

theorem readUntil_all {line : Bytes} (h : (10 : UInt8) ∉ line) :
    readUntil line = (line, []) := by
  induction line with
  | nil => rfl
  | cons byte line ih =>
      rw [List.mem_cons, not_or] at h
      rw [readUntil, if_neg (Ne.symm h.1), ih h.2]

theorem readCommand_unended {line : Bytes} (hline : (10 : UInt8) ∉ line)
    (hstar : line.head? ≠ some 42) (hne : line ≠ []) :
    readCommand line = Except.ok (some (splitWords line), []) := by
  have hpop : popIf 10 line = line := by
    unfold popIf
    rw [if_neg]
    intro hlast
    exact hline (List.mem_of_getLast? hlast)
  have hread : readLine line = (some (popIf 13 line), []) := by
    unfold readLine
    rw [readUntil_all hline]
    dsimp only
    rw [if_neg (by simpa using hne), hpop]
  rw [readCommand_of_line hread (head?_popIf hstar), splitWords_popIf]

theorem splitWords_eq_nil_iff (line : Bytes) :
    splitWords line = [] ↔
      forall byte, byte ∈ line -> isAsciiWhitespace byte = true := by
  rcases runs_total line with ⟨words, hruns⟩
  rw [hruns.words_eq]
  induction hruns with
  | nil => exact ⟨fun _ byte hbyte => absurd hbyte List.not_mem_nil, fun _ => rfl⟩
  | space hbyte hrest ih => rw [ih, List.forall_mem_cons, and_iff_right hbyte]
  | @word word rest words hne hword hend hrest ih =>
      constructor
      · intro h
        cases h
      · intro h
        cases word with
        | nil => exact absurd rfl hne
        | cons byte word =>
            have hspace := h byte List.mem_cons_self
            rw [hword byte List.mem_cons_self] at hspace
            cases hspace

theorem cut_inline_notRun_iff {line ending cut more : Bytes}
    (hstar : line.head? ≠ some 42) (hline : (10 : UInt8) ∉ line)
    (hending : ending = [10] ∨ ending = crlf)
    (hcut : line ++ ending = cut ++ more) (hmore : more ≠ []) :
    NotRun cut ↔ forall byte, byte ∈ cut -> isAsciiWhitespace byte = true := by
  -- Without its line feed, a line has no line feed.
  obtain ⟨body, hbody, hnewline, hhead⟩ : exists body,
      line ++ ending = body ++ [10] ∧ (10 : UInt8) ∉ body ∧
        body.head? ≠ some 42 := by
    rcases hending with rfl | rfl
    · exact ⟨line, rfl, hline, hstar⟩
    · exists line ++ [13]
      constructor
      · rw [List.append_assoc]
        rfl
      · constructor
        · simpa using hline
        · cases line with
          | nil => decide
          | cons byte line => exact hstar
  rw [hbody, ← List.dropLast_append_getLast hmore, ← List.append_assoc] at hcut
  have hbefore := (List.append_inj' hcut rfl).1
  rw [hbefore, List.mem_append, not_or] at hnewline
  by_cases hne : cut = []
  · subst hne
    constructor
    · intro _ byte hbyte
      cases hbyte
    · intro _
      apply notRun_of_read
      intro args rest hread
      cases hread
  · have hhead' : cut.head? ≠ some 42 := by
      cases cut with
      | nil => exact absurd rfl hne
      | cons byte cut =>
          rw [hbefore] at hhead
          exact hhead
    have hread := readCommand_unended hnewline.1 hhead' hne
    rw [← splitWords_eq_nil_iff]
    constructor
    · intro hnotRun
      exact hnotRun.read _ _ hread
    · intro hwords
      apply notRun_of_read
      intro args rest hfound
      rw [hread] at hfound
      cases hfound
      exact ⟨hwords, rfl⟩

/-- What is left of a command that was cut off is not run if and only if the command
is an array, or nothing but white space is left of it. -/
theorem cut_command_not_run_iff {cut more : Bytes} (hwhole : Whole (cut ++ more))
    (hmore : more ≠ []) :
    NotRun cut ↔ (cut ++ more).head? = some 42 ∨
      forall byte, byte ∈ cut -> isAsciiWhitespace byte = true := by
  generalize hbytes : cut ++ more = bytes at hwhole
  cases hwhole with
  | array hstar hread =>
      rw [← hbytes] at hstar hread ⊢
      exact iff_of_true (cut_array_notRun hmore hstar hread) (Or.inl hstar)
  | @inline line ending hstar hline hending =>
      rw [cut_inline_notRun_iff hstar hline hending hbytes.symm hmore]
      constructor
      · exact Or.inr
      · intro h
        cases h with
        | inr hspace => exact hspace
        | inl hhead =>
            cases line with
            | nil => rcases hending with rfl | rfl <;> cases hhead
            | cons byte line => exact absurd hhead hstar

/-- An array that is cut in its last payload. -/
theorem cut_command_not_run_iff_payload :
    Whole ([42, 49, 13, 10, 36, 50, 13, 10, 71] ++ [72, 13, 10]) ∧
      NotRun [42, 49, 13, 10, 36, 50, 13, 10, 71] := by
  have hfits : Command.Fits (Command.array [[71, 72]]) := by
    unfold Command.Fits
    decide
  have hwhole : Whole ([42, 49, 13, 10, 36, 50, 13, 10, 71] ++ [72, 13, 10]) :=
    hfits.whole
  constructor
  · exact hwhole
  · exact (cut_command_not_run_iff hwhole (by decide)).mpr (Or.inl rfl)

/-- Of `DEL foobar`, a line, a stream that ends early leaves `DEL foo`, and it is
run. -/
theorem cut_inline_is_run :
    Whole ([68, 69, 76, 32, 102, 111, 111] ++ [98, 97, 114, 13, 10]) ∧
      readCommand [68, 69, 76, 32, 102, 111, 111] =
        Except.ok (some [[68, 69, 76], [102, 111, 111]], []) ∧
      Served [68, 69, 76, 32, 102, 111, 111] [[[68, 69, 76], [102, 111, 111]]] ∧
      ¬ NotRun [68, 69, 76, 32, 102, 111, 111] := by
  have hread : readCommand [68, 69, 76, 32, 102, 111, 111] =
      Except.ok (some [[68, 69, 76], [102, 111, 111]], []) := by
    decide +kernel
  have hfits : Command.Fits
      (Command.inline [68, 69, 76, 32, 102, 111, 111, 98, 97, 114] crlf) := by
    unfold Command.Fits
    decide
  constructor
  · exact hfits.whole
  · constructor
    · exact hread
    · constructor
      · exact Served.command hread (Served.closed rfl)
      · intro hnotRun
        cases hnotRun.read _ _ hread

end Resp
end Minicask
