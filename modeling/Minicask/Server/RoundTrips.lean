import Minicask.Server.Resp

/-!
# What is written is read

Replies and commands come back as they were written, whatever follows them.
-/

namespace Minicask
namespace Resp

/-!
# Lines and lengths
-/

theorem readUntil_append {line : Bytes} (h : (10 : UInt8) ∉ line)
    (rest : Bytes) : readUntil (line ++ 10 :: rest) = (line ++ [10], rest) := by
  induction line with
  | nil => rfl
  | cons byte line ih =>
      have hbyte : byte ≠ 10 := fun heq => h (heq ▸ List.mem_cons_self)
      have hline : (10 : UInt8) ∉ line :=
        fun hin => h (List.mem_cons_of_mem byte hin)
      rw [List.cons_append, readUntil, if_neg hbyte, ih hline]
      rfl

theorem popIf_append (byte : UInt8) (line : Bytes) :
    popIf byte (line ++ [byte]) = line := by
  rw [popIf, if_pos List.getLast?_concat, List.dropLast_concat]

theorem readLine_lf {line : Bytes} (h : (10 : UInt8) ∉ line) (rest : Bytes) :
    readLine (line ++ 10 :: rest) = (some (popIf 13 line), rest) := by
  rw [readLine, readUntil_append h]
  dsimp only
  rw [if_neg (by simp), popIf_append]

theorem readLine_crlf {line : Bytes} (h : (10 : UInt8) ∉ line) (rest : Bytes) :
    readLine (line ++ crlf ++ rest) = (some line, rest) := by
  have hline : (10 : UInt8) ∉ line ++ [13] := by
    intro hin
    rcases List.mem_append.mp hin with hin | hin
    · exact h hin
    · exact absurd hin (by decide)
  have hsplit : line ++ crlf ++ rest = line ++ [13] ++ 10 :: rest := by
    simp [crlf]
  rw [hsplit, readLine_lf hline, popIf_append]

theorem text_asBytes (s : String) : text (Text.asBytes s) = Except.ok s := by
  rw [text, Text.fromUtf8_asBytes]

theorem newline_notMem_decimal (n : Int) : (10 : UInt8) ∉ decimal n := by
  rw [decimal, Text.mem_asBytes_newline]
  exact Text.newline_notMem_toString n

theorem parseLen_decimal {n max : Nat} (h : n <= max) (hmax : max < 2 ^ 63) :
    parseLen (decimal n) max = Except.ok (some n) := by
  have hparsed : Text.parseI64 (toString (n : Int)) = some (Int64.ofInt n) :=
    Text.parseI64_toString_nat (Nat.lt_of_le_of_lt h hmax)
  have hint : (Int64.ofInt n).toInt = n :=
    Int64.toInt_ofInt_of_le (by omega) (by omega)
  have hminus : ¬ Int64.ofInt n = -1 := by
    intro heq
    rw [heq] at hint
    exact absurd hint (by simp)
  have hnegative : ¬ Int64.ofInt n < 0 := by
    rw [Int64.lt_iff_toInt_lt, hint]
    simp
  rw [parseLen, decimal, text_asBytes]
  dsimp only
  rw [hparsed]
  dsimp only
  rw [if_neg hminus, if_neg hnegative, hint, Int.toNat_natCast,
    if_neg (by omega)]

theorem parseLen_minus_one (max : Nat) :
    parseLen [45, 49] max = Except.ok none := by
  have hbytes : ([45, 49] : Bytes) = Text.asBytes (toString (-1 : Int)) := by
    decide +kernel
  have hparsed : Text.parseI64 (toString (-1 : Int)) = some (-1) :=
    Text.parseI64_toString (-1)
  rw [parseLen, hbytes, text_asBytes]
  dsimp only
  rw [hparsed]
  dsimp only
  rw [if_pos rfl]

theorem readBulk_append (bytes rest : Bytes) :
    readBulk bytes.length (bytes ++ crlf ++ rest) = Except.ok (bytes, rest) := by
  have hlength : ¬ (bytes ++ crlf ++ rest).length < bytes.length + 2 := by
    simp [crlf]
  have hend : ((bytes ++ crlf ++ rest).drop bytes.length).take 2 = crlf := by
    rw [List.append_assoc, List.drop_left]
    rfl
  have hbytes : (bytes ++ crlf ++ rest).take bytes.length = bytes := by
    rw [List.append_assoc, List.take_left]
  have hrest : (bytes ++ crlf ++ rest).drop (bytes.length + 2) = rest := by
    rw [← List.drop_drop, List.append_assoc, List.drop_left]
    rfl
  rw [readBulk, if_neg hlength, hend, if_neg (fun hne => hne rfl), hbytes, hrest]

theorem readItems_append {item : Type}
    {read : Bytes -> Except ReadError (item × Bytes)} (write : item -> Bytes)
    {items : List item}
    (h : forall i, i ∈ items -> forall rest,
      read (write i ++ rest) = Except.ok (i, rest)) (rest : Bytes) :
    readItems read items.length (items.flatMap write ++ rest) =
      Except.ok (items, rest) := by
  induction items with
  | nil => rfl
  | cons i items ih =>
      have htail := ih (fun i' hi' => h i' (List.mem_cons_of_mem i hi'))
      rw [List.flatMap_cons, List.append_assoc, List.length_cons, readItems,
        h i List.mem_cons_self]
      dsimp only
      rw [htail]

/-!
# Replies
-/

/-- A reply that the protocol can carry. -/
inductive Reply.Fits : Reply -> Prop where
  | simple {s : String} (h : '\n' ∉ s.toList) : Fits (Reply.simple s)
  | error {s : String} (h : '\n' ∉ s.toList) : Fits (Reply.error s)
  | integer (n : Int64) : Fits (Reply.integer n)
  | bulk {bytes : Bytes} (h : bytes.length <= maxBulkLen) :
      Fits (Reply.bulk bytes)
  | null : Fits Reply.null
  | array {items : List Reply} (h : items.length <= maxArrayLen)
      (hitems : forall i, i ∈ items -> Fits i) : Fits (Reply.array items)

theorem Reply.writeAll_eq (items : List Reply) :
    Reply.writeAll items = items.flatMap Reply.writeTo := by
  induction items with
  | nil => rfl
  | cons i items ih => rw [Reply.writeAll, ih, List.flatMap_cons]

theorem Reply.length_writeTo_le {items : List Reply} {i : Reply}
    (h : i ∈ items) : i.writeTo.length <= (Reply.writeAll items).length := by
  induction items with
  | nil => cases h
  | cons first items ih =>
      rw [Reply.writeAll, List.length_append]
      rcases List.mem_cons.mp h with heq | hin
      · rw [heq]
        exact Nat.le_add_right _ _
      · exact Nat.le_trans (ih hin) (Nat.le_add_left _ _)

theorem readLine_header {kind : UInt8} (hkind : kind ≠ 10) {body : Bytes}
    (h : (10 : UInt8) ∉ body) (rest : Bytes) :
    readLine (kind :: (body ++ crlf ++ rest)) = (some (kind :: body), rest) := by
  have hline : (10 : UInt8) ∉ kind :: body := by
    intro hin
    rcases List.mem_cons.mp hin with heq | hin
    · exact hkind heq.symm
    · exact h hin
  have hread := readLine_crlf hline rest
  rw [List.cons_append, List.cons_append] at hread
  exact hread

theorem readReplyLoop_writeTo {reply : Reply} (h : reply.Fits) {turns : Nat}
    (hturns : reply.writeTo.length <= turns) (rest : Bytes) :
    readReplyLoop turns (reply.writeTo ++ rest) = Except.ok (reply, rest) := by
  induction h generalizing turns rest with
  | @simple s h =>
      cases turns with
      | zero => exact absurd hturns (Nat.not_succ_le_zero _)
      | succ turns =>
          have hbody : (10 : UInt8) ∉ Text.asBytes s :=
            fun hin => h (Text.mem_asBytes_newline.mp hin)
          rw [Reply.writeTo, List.cons_append, readReplyLoop,
            readLine_header (by decide) hbody]
          dsimp only
          rw [if_pos rfl, text_asBytes]
          rfl
  | @error s h =>
      cases turns with
      | zero => exact absurd hturns (Nat.not_succ_le_zero _)
      | succ turns =>
          have hbody : (10 : UInt8) ∉ Text.asBytes s :=
            fun hin => h (Text.mem_asBytes_newline.mp hin)
          rw [Reply.writeTo, List.cons_append, readReplyLoop,
            readLine_header (by decide) hbody]
          dsimp only
          rw [if_neg (by decide), if_pos rfl, text_asBytes]
          rfl
  | integer n =>
      cases turns with
      | zero => exact absurd hturns (Nat.not_succ_le_zero _)
      | succ turns =>
          rw [Reply.writeTo, List.cons_append, readReplyLoop,
            readLine_header (by decide) (newline_notMem_decimal _)]
          dsimp only
          rw [if_neg (by decide), if_neg (by decide), if_pos rfl, decimal,
            text_asBytes]
          dsimp only
          rw [Text.parseI64_toString]
  | @bulk bytes h =>
      cases turns with
      | zero => exact absurd hturns (Nat.not_succ_le_zero _)
      | succ turns =>
          rw [Reply.writeTo, List.cons_append, readReplyLoop, List.append_assoc,
            readLine_header (by decide) (newline_notMem_decimal _)]
          dsimp only
          rw [if_neg (by decide), if_neg (by decide), if_neg (by decide),
            if_pos rfl, parseLen_decimal h (by decide)]
          dsimp only
          rw [readBulk_append]
          rfl
  | null =>
      cases turns with
      | zero => exact absurd hturns (Nat.not_succ_le_zero _)
      | succ turns =>
          rw [Reply.writeTo, List.cons_append, readReplyLoop,
            readLine_header (by decide) (by decide)]
          dsimp only
          rw [if_neg (by decide), if_neg (by decide), if_neg (by decide),
            if_pos rfl, parseLen_minus_one]
  | @array items h hitems ih =>
      cases turns with
      | zero => exact absurd hturns (Nat.not_succ_le_zero _)
      | succ turns =>
          have hshorter : forall i, i ∈ items -> i.writeTo.length <= turns := by
            intro i hi
            have hle := Reply.length_writeTo_le hi
            rw [Reply.writeTo, List.length_cons, List.length_append] at hturns
            omega
          have hread := readItems_append Reply.writeTo
            (fun i hi rest' => ih i hi (hshorter i hi) rest') rest
          rw [Reply.writeTo, List.cons_append, readReplyLoop, List.append_assoc,
            readLine_header (by decide) (newline_notMem_decimal _)]
          dsimp only
          rw [if_neg (by decide), if_neg (by decide), if_neg (by decide),
            if_neg (by decide), if_pos rfl, parseLen_decimal h (by decide)]
          dsimp only
          rw [Reply.writeAll_eq, hread]
          rfl

/-- A reply comes back as it was written, and nothing of what follows is taken. -/
theorem reply_round_trips {reply : Reply} (h : reply.Fits) (rest : Bytes) :
    readReply (reply.writeTo ++ rest) = Except.ok (reply, rest) := by
  apply readReplyLoop_writeTo h
  rw [List.length_append]
  omega

/-- Delimiters inside of a bulk string, a null and a number inside of an array, and
another reply behind. -/
theorem reply_round_trips_nested :
    Reply.Fits (Reply.array [Reply.bulk [13, 10],
        Reply.array [Reply.null, Reply.integer (-7)]]) ∧
      readReply ([42, 50, 13, 10, 36, 50, 13, 10, 13, 10, 13, 10, 42, 50, 13, 10,
          36, 45, 49, 13, 10, 58, 45, 55, 13, 10] ++ [43, 79, 75, 13, 10]) =
        Except.ok (Reply.array [Reply.bulk [13, 10],
          Reply.array [Reply.null, Reply.integer (-7)]],
          [43, 79, 75, 13, 10]) := by
  have hinner : Reply.Fits
      (Reply.array [Reply.null, Reply.integer (-7)]) := by
    refine Reply.Fits.array (by decide) ?_
    intro i hi
    rcases List.mem_cons.mp hi with heq | hi
    · rw [heq]
      exact Reply.Fits.null
    · rw [List.mem_singleton.mp hi]
      exact Reply.Fits.integer (-7)
  have hfits : Reply.Fits (Reply.array [Reply.bulk [13, 10],
      Reply.array [Reply.null, Reply.integer (-7)]]) := by
    refine Reply.Fits.array (by decide) ?_
    intro i hi
    rcases List.mem_cons.mp hi with heq | hi
    · rw [heq]
      exact Reply.Fits.bulk (by decide)
    · rw [List.mem_singleton.mp hi]
      exact hinner
  exact ⟨hfits, reply_round_trips hfits [43, 79, 75, 13, 10]⟩

/-!
# What can be read
-/

theorem readUntil_cases (input : Bytes) :
    (10 : UInt8) ∉ (readUntil input).1 ∨
      exists line, (10 : UInt8) ∉ line ∧ (readUntil input).1 = line ++ [10] := by
  induction input with
  | nil => exact Or.inl (by decide)
  | cons byte rest ih =>
      rw [readUntil]
      split
      · next hbyte =>
          right
          exact ⟨[], by decide, by rw [hbyte]; rfl⟩
      · next hbyte =>
          rcases ih with hnone | ⟨line, hline, heq⟩
          · left
            intro hin
            rcases List.mem_cons.mp hin with heq | hin
            · exact hbyte heq.symm
            · exact hnone hin
          · right
            refine ⟨byte :: line, ?_, ?_⟩
            · intro hin
              rcases List.mem_cons.mp hin with heq | hin
              · exact hbyte heq.symm
              · exact hline hin
            · show byte :: (readUntil rest).1 = _
              rw [heq]
              rfl

theorem mem_of_mem_popIf {byte other : UInt8} {line : Bytes}
    (h : other ∈ popIf byte line) : other ∈ line := by
  unfold popIf at h
  split at h
  · exact (List.dropLast_sublist line).mem h
  · exact h

theorem newline_notMem_of_readLine {input line rest : Bytes}
    (h : readLine input = (some line, rest)) : (10 : UInt8) ∉ line := by
  unfold readLine at h
  rw [show readUntil input = ((readUntil input).1, (readUntil input).2) from rfl] at h
  dsimp only at h
  split at h
  · cases h
  · have hline := Option.some.inj (Prod.mk.inj h).1
    rw [← hline]
    intro hin
    have hin := mem_of_mem_popIf hin
    rcases readUntil_cases input with hnone | ⟨found, hfound, heq⟩
    · exact hnone (mem_of_mem_popIf hin)
    · rw [heq, popIf_append] at hin
      exact hfound hin

theorem newline_notMem_of_text {bytes : Bytes} {s : String}
    (h : text bytes = Except.ok s) (hbytes : (10 : UInt8) ∉ bytes) :
    '\n' ∉ s.toList := by
  unfold text at h
  split at h
  · next found hfound =>
      rw [← Except.ok.inj h, ← Text.mem_asBytes_newline,
        Text.asBytes_of_fromUtf8 hfound]
      exact hbytes
  · cases h

theorem parseLen_le {digits : Bytes} {max n : Nat}
    (h : parseLen digits max = Except.ok (some n)) : n <= max := by
  unfold parseLen at h
  split at h
  · cases h
  · split at h
    · cases h
    · split at h
      · cases h
      · split at h
        · cases h
        · split at h
          · cases h
          · next hle =>
              rw [← Option.some.inj (Except.ok.inj h)]
              exact Nat.le_of_not_lt hle

theorem length_of_readBulk {len : Nat} {input bytes rest : Bytes}
    (h : readBulk len input = Except.ok (bytes, rest)) : bytes.length <= len := by
  unfold readBulk at h
  split at h
  · cases h
  · split at h
    · cases h
    · rw [← (Prod.mk.inj (Except.ok.inj h)).1]
      exact List.length_take_le _ _

theorem readItems_forall {item : Type} {P : item -> Prop}
    {read : Bytes -> Except ReadError (item × Bytes)}
    (hread : forall {input found rest},
      read input = Except.ok (found, rest) -> P found)
    {count : Nat} {input : Bytes} {items : List item} {rest : Bytes}
    (h : readItems read count input = Except.ok (items, rest)) :
    items.length = count ∧ forall i, i ∈ items -> P i := by
  induction count generalizing input items rest with
  | zero =>
      rw [← (Prod.mk.inj (Except.ok.inj h)).1]
      exact ⟨rfl, nofun⟩
  | succ count ih =>
      rw [readItems] at h
      split at h
      · cases h
      · next first after hfirst =>
          split at h
          · cases h
          · next others left hothers =>
              obtain ⟨hlength, hforall⟩ := ih hothers
              rw [← (Prod.mk.inj (Except.ok.inj h)).1]
              refine ⟨by rw [List.length_cons, hlength], ?_⟩
              intro i hi
              rcases List.mem_cons.mp hi with heq | hin
              · rw [heq]
                exact hread hfirst
              · exact hforall i hin

theorem map_eq_ok {α β : Type} {e : Except ReadError α} {f : α -> β} {b : β}
    (h : e.map f = Except.ok b) : exists a, e = Except.ok a ∧ f a = b := by
  cases e with
  | error why => cases h
  | ok a => exact ⟨a, rfl, Except.ok.inj h⟩

/-- Whatever is read is something that the protocol can carry. -/
theorem Reply.fits_of_readReplyLoop {turns : Nat} {input : Bytes} {reply : Reply}
    {rest : Bytes} (h : readReplyLoop turns input = Except.ok (reply, rest)) :
    reply.Fits := by
  induction turns generalizing input reply rest with
  | zero => cases h
  | succ turns ih =>
      rw [readReplyLoop] at h
      split at h
      · cases h
      · cases h
      · next kind body after hline =>
          have hbody : (10 : UInt8) ∉ body := fun hin =>
            newline_notMem_of_readLine hline (List.mem_cons_of_mem kind hin)
          split at h
          · rcases map_eq_ok h with ⟨s, hs, heq⟩
            rw [← (Prod.mk.inj heq).1]
            exact Reply.Fits.simple (newline_notMem_of_text hs hbody)
          · split at h
            · rcases map_eq_ok h with ⟨s, hs, heq⟩
              rw [← (Prod.mk.inj heq).1]
              exact Reply.Fits.error (newline_notMem_of_text hs hbody)
            · split at h
              · split at h
                · cases h
                · split at h
                  · rw [← (Prod.mk.inj (Except.ok.inj h)).1]
                    exact Reply.Fits.integer _
                  · cases h
              · split at h
                · split at h
                  · cases h
                  · rw [← (Prod.mk.inj (Except.ok.inj h)).1]
                    exact Reply.Fits.null
                  · next len hlen =>
                      rcases map_eq_ok h with ⟨⟨bytes, left⟩, hbytes, heq⟩
                      rw [← (Prod.mk.inj heq).1]
                      exact Reply.Fits.bulk (Nat.le_trans
                        (length_of_readBulk hbytes) (parseLen_le hlen))
                · split at h
                  · split at h
                    · cases h
                    · rw [← (Prod.mk.inj (Except.ok.inj h)).1]
                      exact Reply.Fits.null
                    · next count hcount =>
                        rcases map_eq_ok h with ⟨⟨items, left⟩, hitems, heq⟩
                        obtain ⟨hlength, hforall⟩ := readItems_forall ih hitems
                        rw [← (Prod.mk.inj heq).1]
                        exact Reply.Fits.array (hlength ▸ parseLen_le hcount) hforall
                  · cases h

/-- A reply comes back if and only if the protocol can carry it. -/
theorem Reply.fits_iff_readReply {reply : Reply} :
    readReply reply.writeTo = Except.ok (reply, []) ↔ reply.Fits := by
  constructor
  · exact Reply.fits_of_readReplyLoop
  · intro h
    have hread := readReplyLoop_writeTo h (Nat.le_succ _) []
    rw [List.append_nil] at hread
    exact hread

/-!
# Commands
-/

/-- The maximal runs of bytes that are not white space. -/
inductive Runs : Bytes -> List Bytes -> Prop where
  | nil : Runs [] []
  | space {byte : UInt8} {rest : Bytes} {words : List Bytes}
      (hbyte : isAsciiWhitespace byte = true) (hrest : Runs rest words) :
      Runs (byte :: rest) words
  | word {word rest : Bytes} {words : List Bytes} (hne : word ≠ [])
      (hword : forall byte, byte ∈ word -> isAsciiWhitespace byte = false)
      (hend : forall byte, rest.head? = some byte ->
        isAsciiWhitespace byte = true) (hrest : Runs rest words) :
      Runs (word ++ rest) (word :: words)

def splitWords (line : Bytes) : List Bytes :=
  (line.splitOnP isAsciiWhitespace).filter (fun word => !word.isEmpty)

theorem splitWords_space {byte : UInt8} (h : isAsciiWhitespace byte = true)
    (rest : Bytes) : splitWords (byte :: rest) = splitWords rest := by
  rw [splitWords, List.splitOnP_cons_eq_if_modifyHead, if_pos h]
  rfl

theorem splitWords_word {word : Bytes} (hne : word ≠ [])
    (hword : forall byte, byte ∈ word -> isAsciiWhitespace byte = false)
    {rest : Bytes} (hend : forall byte, rest.head? = some byte ->
      isAsciiWhitespace byte = true) :
    splitWords (word ++ rest) = word :: splitWords rest := by
  have hkept : forall words : List Bytes,
      (word :: words).filter (fun word => !word.isEmpty) =
        word :: words.filter (fun word => !word.isEmpty) := by
    intro words
    cases word with
    | nil => exact absurd rfl hne
    | cons byte word => rfl
  cases rest with
  | nil =>
      rw [List.append_nil, splitWords, List.splitOnP_eq_singleton hword,
        hkept]
      rfl
  | cons byte rest =>
      have hbyte := hend byte rfl
      rw [splitWords_space hbyte, splitWords,
        List.splitOnP_append_cons_of_forall_mem hword byte hbyte rest,
        hkept]
      rfl

theorem Runs.words_eq {line : Bytes} {words : List Bytes} (h : Runs line words) :
    splitWords line = words := by
  induction h with
  | nil => rfl
  | space hbyte _ ih => rw [splitWords_space hbyte, ih]
  | word hne hword hend _ ih => rw [splitWords_word hne hword hend, ih]

theorem runs_total (line : Bytes) : exists words, Runs line words := by
  induction line with
  | nil => exact ⟨[], Runs.nil⟩
  | cons byte rest ih =>
      rcases ih with ⟨words, hwords⟩
      cases hbyte : isAsciiWhitespace byte with
      | true => exact ⟨words, Runs.space hbyte hwords⟩
      | false =>
          have hsingle : forall other, other ∈ [byte] ->
              isAsciiWhitespace other = false := by
            intro other hother
            rw [List.mem_singleton.mp hother]
            exact hbyte
          -- A word begins here, or the word that begins at the next byte is longer.
          cases hwords with
          | nil =>
              exact ⟨[[byte]], Runs.word (List.cons_ne_nil byte []) hsingle
                nofun Runs.nil⟩
          | @space other rest words hother hrest =>
              refine ⟨[byte] :: words, Runs.word (List.cons_ne_nil byte [])
                hsingle ?_ (Runs.space hother hrest)⟩
              intro first hfirst
              rw [← Option.some.inj hfirst]
              exact hother
          | @word word rest words hne hword hend hrest =>
              refine ⟨(byte :: word) :: words,
                Runs.word (List.cons_ne_nil byte word) ?_ hend hrest⟩
              intro other hother
              rcases List.mem_cons.mp hother with heq | hin
              · rw [heq]
                exact hbyte
              · exact hword other hin

theorem splitWords_append_cr (line : Bytes) :
    splitWords (line ++ [13]) = splitWords line := by
  rw [splitWords, List.splitOnP_append_cons line [] (by decide),
    List.filter_append]
  exact List.append_nil _

theorem splitWords_popIf (line : Bytes) :
    splitWords (popIf 13 line) = splitWords line := by
  unfold popIf
  split
  · next hlast =>
      have hline : line.dropLast ++ [13] = line :=
        List.dropLast_append_getLast? 13 hlast
      rw [← splitWords_append_cr, hline]
  · rfl

/-- A command as a client sends it. -/
inductive Command where
  | array (args : List Bytes)
  | inline (line : Bytes) (ending : Bytes)

namespace Command

def bytes : Command -> Bytes
  | array args => (Reply.array (args.map Reply.bulk)).writeTo
  | inline line ending => line ++ ending

def Fits : Command -> Prop
  | array args =>
      args.length <= maxArrayLen ∧
        forall arg, arg ∈ args -> arg.length <= maxBulkLen
  | inline line ending =>
      line.head? ≠ some 42 ∧ (10 : UInt8) ∉ line ∧
        (ending = [10] ∨ ending = crlf)

def Means : Command -> List Bytes -> Prop
  | array args, words => words = args
  | inline line _, words => Runs line words

end Command

/-- The commands that a connection reads until the client hangs up. -/
inductive Served : Bytes -> List (List Bytes) -> Prop where
  | closed {input rest : Bytes}
      (h : readCommand input = Except.ok (none, rest)) : Served input []
  | command {input rest : Bytes} {args : List Bytes}
      {commands : List (List Bytes)}
      (h : readCommand input = Except.ok (some args, rest))
      (hrest : Served rest commands) : Served input (args :: commands)

theorem readArgument_append {arg : Bytes} (h : arg.length <= maxBulkLen)
    (rest : Bytes) :
    readArgument ((Reply.bulk arg).writeTo ++ rest) =
      Except.ok (arg, rest) := by
  rw [Reply.writeTo, List.cons_append, readArgument, List.append_assoc,
    readLine_header (by decide) (newline_notMem_decimal _)]
  dsimp only
  rw [if_neg (fun hne => hne rfl), List.drop_one, List.tail_cons,
    parseLen_decimal h (by decide)]
  dsimp only
  exact readBulk_append arg rest

theorem readCommand_array {args : List Bytes}
    (hcount : args.length <= maxArrayLen)
    (hargs : forall arg, arg ∈ args -> arg.length <= maxBulkLen)
    (rest : Bytes) :
    readCommand ((Command.array args).bytes ++ rest) =
      Except.ok (some args, rest) := by
  have hitems := readItems_append (fun arg => (Reply.bulk arg).writeTo)
    (fun arg harg rest' => readArgument_append (hargs arg harg) rest') rest
  rw [Command.bytes, Reply.writeTo, List.cons_append, readCommand,
    List.append_assoc, readLine_header (by decide) (newline_notMem_decimal _)]
  dsimp only
  rw [if_neg (by simp), if_neg (fun hne => hne rfl), List.drop_one,
    List.tail_cons, List.length_map, parseLen_decimal hcount (by decide)]
  dsimp only
  rw [Reply.writeAll_eq, List.flatMap_map, hitems]
  rfl

theorem readCommand_line {line ending : Bytes} (hline : (10 : UInt8) ∉ line)
    (hending : ending = [10] ∨ ending = crlf) (rest : Bytes) :
    readLine (line ++ ending ++ rest) = (some (popIf 13 line), rest) ∨
      readLine (line ++ ending ++ rest) = (some line, rest) := by
  rcases hending with rfl | rfl
  · left
    rw [List.append_assoc]
    exact readLine_lf hline rest
  · right
    exact readLine_crlf hline rest

theorem readCommand_of_line {input line rest : Bytes}
    (h : readLine input = (some line, rest)) (hstar : line.head? ≠ some 42) :
    readCommand input = Except.ok (some (splitWords line), rest) := by
  rw [readCommand, h]
  dsimp only
  cases line with
  | nil => rfl
  | cons byte line =>
      rw [if_neg (by simp), if_pos hstar]
      rfl

theorem head?_popIf {line : Bytes} {byte other : UInt8}
    (h : line.head? ≠ some byte) : (popIf other line).head? ≠ some byte := by
  unfold popIf
  split
  · intro hhead
    cases line with
    | nil => cases hhead
    | cons first line =>
        cases line with
        | nil => cases hhead
        | cons second line => exact h hhead
  · exact h

theorem readCommand_inline {line ending : Bytes} {words : List Bytes}
    (hstar : line.head? ≠ some 42) (hline : (10 : UInt8) ∉ line)
    (hending : ending = [10] ∨ ending = crlf) (hwords : Runs line words)
    (rest : Bytes) :
    readCommand ((Command.inline line ending).bytes ++ rest) =
      Except.ok (some words, rest) := by
  rw [Command.bytes, ← hwords.words_eq]
  rcases readCommand_line hline hending rest with hread | hread
  · rw [readCommand_of_line hread (head?_popIf hstar), splitWords_popIf]
  · exact readCommand_of_line hread hstar

/-- Each command is read whole, and not one byte of the next. -/
theorem readCommand_append {command : Command} (h : command.Fits) (rest : Bytes) :
    exists args, command.Means args ∧
      readCommand (command.bytes ++ rest) = Except.ok (some args, rest) := by
  cases command with
  | array args => exact ⟨args, rfl, readCommand_array h.1 h.2 rest⟩
  | inline line ending =>
      rcases runs_total line with ⟨words, hwords⟩
      exact ⟨words, hwords, readCommand_inline h.1 h.2.1 h.2.2 hwords rest⟩

/-- Commands that were sent one after another are read one by one, each with its own
arguments, and then there is nothing more to read. -/
theorem pipelined_commands {commands : List Command}
    (h : forall c, c ∈ commands -> c.Fits) :
    exists args, List.Forall₂ Command.Means commands args ∧
      Served (commands.flatMap Command.bytes) args := by
  induction commands with
  | nil => exact ⟨[], List.Forall₂.nil, Served.closed rfl⟩
  | cons command commands ih =>
      rcases ih (fun c hc => h c (List.mem_cons_of_mem command hc)) with
        ⟨args, hmeans, hserved⟩
      rcases readCommand_append (h command List.mem_cons_self)
        (commands.flatMap Command.bytes) with ⟨first, hfirst, hread⟩
      refine ⟨first :: args, List.Forall₂.cons hfirst hmeans, ?_⟩
      rw [List.flatMap_cons]
      exact Served.command hread hserved

/-- An argument that looks like the start of a command, and a line of two words. -/
theorem pipelined_commands_mixed :
    (forall c, c ∈ [Command.array [[13, 10, 42, 49]],
        Command.inline [32, 71, 9, 107, 13] [10]] -> c.Fits) ∧
      (exists args,
        List.Forall₂ Command.Means [Command.array [[13, 10, 42, 49]],
          Command.inline [32, 71, 9, 107, 13] [10]] args ∧
        Served ([Command.array [[13, 10, 42, 49]],
          Command.inline [32, 71, 9, 107, 13] [10]].flatMap Command.bytes)
          args) := by
  have hfits : forall c, c ∈ [Command.array [[13, 10, 42, 49]],
      Command.inline [32, 71, 9, 107, 13] [10]] -> c.Fits := by
    intro c hc
    rcases List.mem_cons.mp hc with heq | hc
    · rw [heq]
      refine ⟨by decide, ?_⟩
      intro arg harg
      rw [List.mem_singleton.mp harg]
      decide
    · rw [List.mem_singleton.mp hc]
      exact ⟨by decide, by decide, Or.inl rfl⟩
  exact ⟨hfits, pipelined_commands hfits⟩

end Resp
end Minicask
