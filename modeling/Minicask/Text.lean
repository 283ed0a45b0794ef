import Mathlib.Data.Int.Basic
import Mathlib.Data.List.Basic
import Minicask.Bytes

/-!
# Text as bytes

Strings in UTF-8, and the decimal numbers of 64 bits that are printed into them and
read back.
-/

namespace Minicask
namespace Text

def asBytes (s : String) : Bytes :=
  s.toList.flatMap String.utf8EncodeChar

/-- The string that some bytes are, if they are one. -/
def fromUtf8 (bytes : Bytes) : Option String :=
  String.fromUTF8? bytes.toByteArray

theorem fromUtf8_asBytes (s : String) : fromUtf8 (asBytes s) = some s := by
  have hbytes : (asBytes s).toByteArray = s.toByteArray := by
    rw [← String.utf8Encode_toList]
    rfl
  rw [fromUtf8, hbytes, String.fromUTF8?, dif_pos s.isValidUTF8]
  rfl

theorem toNat_of_mem_utf8EncodeChar {c : Char} {byte : UInt8}
    (h : byte ∈ String.utf8EncodeChar c) (hbyte : byte.toNat < 128) :
    c.val.toNat = byte.toNat := by
  have hmod : forall n, (UInt8.ofNat n).toNat = n % 256 := fun n =>
    UInt8.toNat_ofNat'
  unfold String.utf8EncodeChar at h
  dsimp only at h
  split at h
  · rw [List.mem_singleton.mp h, hmod]
    omega
  · -- Of a longer character every byte has its highest bit set.
    exfalso
    split at h
    · rw [List.mem_pair] at h
      rcases h with heq | heq
      all_goals
        rw [heq, hmod] at hbyte
        omega
    · split at h
      · rw [List.mem_cons, List.mem_pair] at h
        rcases h with heq | heq | heq
        all_goals
          rw [heq, hmod] at hbyte
          omega
      · rw [List.mem_cons, List.mem_cons, List.mem_pair] at h
        rcases h with heq | heq | heq | heq
        all_goals
          rw [heq, hmod] at hbyte
          omega

theorem mem_asBytes_newline {s : String} : (10 : UInt8) ∈ asBytes s ↔ '\n' ∈ s.toList := by
  constructor
  · intro h
    rcases List.mem_flatMap.mp h with ⟨c, hc, hbyte⟩
    have hval := toNat_of_mem_utf8EncodeChar hbyte (by decide)
    have heq : c = '\n' := Char.ext (UInt32.toNat_inj.mp hval)
    rw [← heq]
    exact hc
  · intro h
    exact List.mem_flatMap.mpr ⟨'\n', h, by decide⟩

/-- Bytes that are a string are the bytes of that string. -/
theorem asBytes_of_fromUtf8 {bytes : Bytes} {s : String}
    (h : fromUtf8 bytes = some s) : asBytes s = bytes := by
  unfold fromUtf8 String.fromUTF8? at h
  split at h
  · next hvalid =>
      have hbytes : (asBytes s).toByteArray = bytes.toByteArray := by
        rw [← Option.some.inj h]
        exact String.utf8Encode_toList
      exact List.toByteArray_inj.mp hbytes
  · cases h

/-!
# Text that may not be text
-/

def isContinuation (byte : UInt8) : Bool :=
  byte &&& 192 = 128

/-- The second bytes that may follow a first byte of three or four. -/
def followsFirst (first second : UInt8) : Bool :=
  if first = 0xE0 then 0xA0 <= second && second <= 0xBF
  else if first = 0xED then 0x80 <= second && second <= 0x9F
  else if first = 0xF0 then 0x90 <= second && second <= 0xBF
  else if first = 0xF4 then 0x80 <= second && second <= 0x8F
  else 0x80 <= second && second <= 0xBF

def extend (code : Nat) (byte : UInt8) : Nat :=
  code * 64 + byte.toNat % 64

def replacement : Char := Char.ofNat 0xFFFD

/-- The remaining bytes of a character, or a replacement for as much of it as there
is. -/
def decodeRest : Nat -> Nat -> Bytes -> Char × Bytes
  | 0, code, rest => (Char.ofNat code, rest)
  | _ + 1, _, [] => (replacement, [])
  | missing + 1, code, byte :: rest =>
      if isContinuation byte then decodeRest missing (extend code byte) rest
      else (replacement, byte :: rest)

/-- The first character of some bytes that are not empty, and what follows it. -/
def decodeChar (first : UInt8) (rest : Bytes) : Char × Bytes :=
  if first < 0x80 then (Char.ofNat first.toNat, rest)
  else if 0xC2 <= first && first <= 0xDF then
    decodeRest 1 (first.toNat % 32) rest
  else if 0xE0 <= first && first <= 0xF4 then
    match rest with
    | [] => (replacement, [])
    | second :: rest =>
        if !followsFirst first second then (replacement, second :: rest)
        else if first <= 0xEF then
          decodeRest 1 (extend (first.toNat % 16) second) rest
        else decodeRest 2 (extend (first.toNat % 8) second) rest
  else (replacement, rest)

def lossyLoop : Nat -> Bytes -> List Char
  | 0, _ => []
  | _ + 1, [] => []
  | turns + 1, first :: rest =>
      let (c, rest) := decodeChar first rest
      c :: lossyLoop turns rest

/-- `String::from_utf8_lossy`.  Each turn takes at least one byte. -/
def fromUtf8Lossy (bytes : Bytes) : String :=
  String.ofList (lossyLoop bytes.length bytes)

def toAsciiUppercase (s : String) : String :=
  String.ofList (s.toList.map Char.toUpper)

def toAsciiLowercase (s : String) : String :=
  String.ofList (s.toList.map Char.toLower)

theorem ofNat_eq_newline {code : Nat} : Char.ofNat code = '\n' ↔ code = 10 := by
  constructor
  · intro heq
    unfold Char.ofNat at heq
    by_cases hvalid : code.isValidChar
    · rw [dif_pos hvalid] at heq
      exact congrArg Char.toNat heq
    · rw [dif_neg hvalid] at heq
      exact absurd heq (by decide)
  · intro heq
    rw [heq]

/-- What decoding one character does to line feeds: it makes none and takes none. -/
structure KeepsLines (bytes : Bytes) (found : Char × Bytes) : Prop where
  char : found.1 ≠ '\n'
  kept : (10 : UInt8) ∈ found.2 ↔ (10 : UInt8) ∈ bytes
  length : found.2.length <= bytes.length

theorem keepsLines_replacement (rest : Bytes) :
    KeepsLines rest (replacement, rest) :=
  ⟨show replacement ≠ '\n' by decide, Iff.rfl, Nat.le_refl _⟩

theorem KeepsLines.cons {byte : UInt8} {rest : Bytes} {found : Char × Bytes}
    (h : KeepsLines rest found) (hbyte : byte ≠ 10) :
    KeepsLines (byte :: rest) found := by
  refine ⟨h.char, ?_, Nat.le_succ_of_le h.length⟩
  rw [h.kept, List.mem_cons]
  constructor
  · exact Or.inr
  · intro hin
    rcases hin with heq | hin
    · exact absurd heq.symm hbyte
    · exact hin

theorem keepsLines_decodeRest {missing code : Nat} (rest : Bytes)
    (h : 10 < code * 64 ^ missing) :
    KeepsLines rest (decodeRest missing code rest) := by
  induction missing generalizing code rest with
  | zero =>
      rw [Nat.pow_zero, Nat.mul_one] at h
      rw [decodeRest]
      exact ⟨fun heq => absurd (ofNat_eq_newline.mp heq) (Nat.ne_of_gt h), Iff.rfl,
        Nat.le_refl _⟩
  | succ missing ih =>
      cases rest with
      | nil => exact keepsLines_replacement []
      | cons byte rest =>
          rw [decodeRest]
          split
          · next hbyte =>
              have hcode : 10 < extend code byte * 64 ^ missing := by
                refine Nat.lt_of_lt_of_le h ?_
                rw [Nat.pow_succ', ← Nat.mul_assoc]
                exact Nat.mul_le_mul_right _ (Nat.le_add_right _ _)
              refine (ih rest hcode).cons ?_
              intro heq
              rw [heq] at hbyte
              exact absurd hbyte (by decide)
          · exact keepsLines_replacement (byte :: rest)

theorem toNat_of_within {low byte high : UInt8}
    (h : (decide (low <= byte) && decide (byte <= high)) = true) :
    low.toNat <= byte.toNat ∧ byte.toNat <= high.toNat := by
  rw [Bool.and_eq_true, decide_eq_true_eq, decide_eq_true_eq] at h
  exact h

theorem bounds_of_followsFirst {first second : UInt8}
    (h : followsFirst first second = true) :
    128 <= second.toNat ∧ second.toNat <= 191 ∧
      (first = 0xE0 -> 160 <= second.toNat) ∧
      (first = 0xF0 -> 144 <= second.toNat) := by
  unfold followsFirst at h
  split at h
  · next hfirst =>
      have hbounds : 160 <= second.toNat ∧ second.toNat <= 191 :=
        toNat_of_within h
      exact ⟨by omega, hbounds.2, fun _ => hbounds.1, fun _ => by omega⟩
  · next hthree =>
      split at h
      · next hfirst =>
          have hbounds : 128 <= second.toNat ∧ second.toNat <= 159 :=
            toNat_of_within h
          refine ⟨hbounds.1, by omega, fun heq => absurd heq hthree, ?_⟩
          intro heq
          rw [heq] at hfirst
          exact absurd hfirst (by decide)
      · split at h
        · next hfirst =>
            have hbounds : 144 <= second.toNat ∧ second.toNat <= 191 :=
              toNat_of_within h
            exact ⟨by omega, hbounds.2, fun heq => absurd heq hthree,
              fun _ => hbounds.1⟩
        · next hfour =>
            have hbounds : 128 <= second.toNat ∧ second.toNat <= 191 := by
              split at h
              · have hbounds : 128 <= second.toNat ∧ second.toNat <= 143 :=
                  toNat_of_within h
                exact ⟨hbounds.1, by omega⟩
              · exact toNat_of_within h
            exact ⟨hbounds.1, hbounds.2, fun heq => absurd heq hthree,
              fun heq => absurd heq hfour⟩

theorem keepsLines_decodeChar {first : UInt8} (hfirst : 0x80 <= first)
    (rest : Bytes) : KeepsLines rest (decodeChar first rest) := by
  have hne : forall {low : UInt8}, first ≠ low -> first.toNat ≠ low.toNat :=
    fun h heq => h (UInt8.toNat_inj.mp heq)
  unfold decodeChar
  rw [if_neg (UInt8.not_lt.mpr hfirst)]
  split
  · next htwo =>
      have hbounds : 194 <= first.toNat ∧ first.toNat <= 223 :=
        toNat_of_within htwo
      exact keepsLines_decodeRest rest (by omega)
  · split
    · next hmore =>
        have hbounds : 224 <= first.toNat ∧ first.toNat <= 244 :=
          toNat_of_within hmore
        cases rest with
        | nil => exact keepsLines_replacement []
        | cons second rest =>
            dsimp only
            split
            · exact keepsLines_replacement (second :: rest)
            · next hsecond =>
                rw [Bool.not_eq_true, Bool.not_eq_false'] at hsecond
                obtain ⟨hlow, hhigh, hthree, hfour⟩ :=
                  bounds_of_followsFirst hsecond
                have hline : second ≠ 10 := by
                  intro heq
                  rw [heq] at hlow
                  exact absurd hlow (by decide)
                split
                · next hlast =>
                    have hlast : first.toNat <= 239 := hlast
                    refine (keepsLines_decodeRest rest ?_).cons hline
                    unfold extend
                    by_cases hfirst : first = 0xE0
                    · have hthree := hthree hfirst
                      omega
                    · have hfirst : first.toNat ≠ 224 := hne hfirst
                      omega
                · next hlast =>
                    have hlast : ¬ first.toNat <= 239 := hlast
                    refine (keepsLines_decodeRest rest ?_).cons hline
                    unfold extend
                    by_cases hfirst : first = 0xF0
                    · have hfour := hfour hfirst
                      omega
                    · have hfirst : first.toNat ≠ 240 := hne hfirst
                      omega
    · exact keepsLines_replacement rest

theorem decodeChar_ascii {first : UInt8} (h : first < 0x80) (rest : Bytes) :
    decodeChar first rest = (Char.ofNat first.toNat, rest) := by
  unfold decodeChar
  rw [if_pos h]

theorem newline_mem_lossyLoop {bytes : Bytes} {turns : Nat}
    (h : bytes.length <= turns) :
    '\n' ∈ lossyLoop turns bytes ↔ (10 : UInt8) ∈ bytes := by
  induction turns generalizing bytes with
  | zero =>
      rw [List.length_eq_zero_iff.mp (Nat.le_zero.mp h)]
      exact ⟨nofun, nofun⟩
  | succ turns ih =>
      cases bytes with
      | nil => exact ⟨nofun, nofun⟩
      | cons first rest =>
          have hrest : rest.length <= turns := Nat.le_of_succ_le_succ h
          rw [lossyLoop, List.mem_cons, List.mem_cons]
          by_cases hfirst : first < 0x80
          · have hchar : '\n' = Char.ofNat first.toNat ↔ 10 = first := by
              rw [eq_comm, ofNat_eq_newline, eq_comm (a := (10 : UInt8))]
              exact UInt8.toNat_inj (b := 10)
            rw [decodeChar_ascii hfirst]
            dsimp only
            rw [ih hrest, hchar]
          · have hkeeps := keepsLines_decodeChar (UInt8.not_lt.mp hfirst) rest
            have hline : ¬ 10 = first := by
              intro heq
              exact hfirst (heq ▸ by decide)
            rw [ih (Nat.le_trans hkeeps.length hrest), hkeeps.kept]
            constructor
            · intro hin
              rcases hin with heq | hin
              · exact absurd heq.symm hkeeps.char
              · exact Or.inr hin
            · intro hin
              rcases hin with heq | hin
              · exact absurd heq hline
              · exact Or.inr hin

theorem newline_mem_fromUtf8Lossy (bytes : Bytes) :
    '\n' ∈ (fromUtf8Lossy bytes).toList ↔ (10 : UInt8) ∈ bytes := by
  rw [fromUtf8Lossy, String.toList_ofList]
  exact newline_mem_lossyLoop (Nat.le_refl _)

theorem toUpper_eq_newline {c : Char} : c.toUpper = '\n' ↔ c = '\n' := by
  unfold Char.toUpper
  split
  · next hlower =>
      have hlow : 97 <= c.val.toNat := hlower.1
      have hhigh : c.val.toNat <= 122 := hlower.2
      constructor
      · intro heq
        have hval := congrArg (fun c : Char => c.val.toNat) heq
        dsimp only at hval
        rw [UInt32.toNat_add, show ('A'.val - 'a'.val).toNat = 4294967264 from rfl,
          show '\n'.val.toNat = 10 from rfl] at hval
        omega
      · intro heq
        rw [heq] at hlow
        exact absurd hlow (by decide)
  · exact Iff.rfl

theorem toLower_eq_newline {c : Char} : c.toLower = '\n' ↔ c = '\n' := by
  unfold Char.toLower
  split
  · next hupper =>
      have hlow : 65 <= c.val.toNat := hupper.1
      have hhigh : c.val.toNat <= 90 := hupper.2
      constructor
      · intro heq
        have hval := congrArg (fun c : Char => c.val.toNat) heq
        dsimp only at hval
        rw [UInt32.toNat_add, show ('a'.val - 'A'.val).toNat = 32 from rfl,
          show '\n'.val.toNat = 10 from rfl] at hval
        omega
      · intro heq
        rw [heq] at hlow
        exact absurd hlow (by decide)
  · exact Iff.rfl

theorem newline_mem_map {f : Char -> Char}
    (h : forall {c}, f c = '\n' ↔ c = '\n') (s : String) :
    '\n' ∈ (String.ofList (s.toList.map f)).toList ↔ '\n' ∈ s.toList := by
  rw [String.toList_ofList, List.mem_map]
  constructor
  · intro hin
    rcases hin with ⟨c, hc, heq⟩
    rw [← h.mp heq]
    exact hc
  · intro hin
    exact ⟨'\n', hin, h.mpr rfl⟩

theorem newline_mem_toAsciiUppercase (s : String) :
    '\n' ∈ (toAsciiUppercase s).toList ↔ '\n' ∈ s.toList :=
  newline_mem_map toUpper_eq_newline s

theorem newline_mem_toAsciiLowercase (s : String) :
    '\n' ∈ (toAsciiLowercase s).toList ↔ '\n' ∈ s.toList :=
  newline_mem_map toLower_eq_newline s

/-!
# Numbers
-/

/-- One or more decimal digits. -/
def parseDigits (digits : List Char) : Option Nat :=
  if digits.isEmpty || !digits.all Char.isDigit then none
  else some (Nat.ofDigitChars 10 digits 0)

/-- A sign, if there is one, and digits. -/
def parseSigned : List Char -> Option Int
  | '-' :: digits => (parseDigits digits).map (fun n => -(Int.ofNat n))
  | '+' :: digits => (parseDigits digits).map Int.ofNat
  | digits => (parseDigits digits).map Int.ofNat

def parseI64 (s : String) : Option Int64 :=
  (parseSigned s.toList).bind (fun n =>
    if -2 ^ 63 <= n ∧ n < 2 ^ 63 then some (Int64.ofInt n) else none)

theorem parseDigits_toDigits (n : Nat) :
    parseDigits (Nat.toDigits 10 n) = some n := by
  have hall : (Nat.toDigits 10 n).all Char.isDigit = true := by
    rw [List.all_eq_true]
    intro c hc
    exact Nat.isDigit_of_mem_toDigits (by decide) (Nat.le_refl 10) hc
  have hempty : (Nat.toDigits 10 n).isEmpty = false := by
    rw [List.isEmpty_eq_false_iff]
    exact Nat.toDigits_ne_nil
  rw [parseDigits, hall, hempty,
    Nat.ofDigitChars_toDigits (by decide) (Nat.le_refl 10)]
  rfl

theorem toDigits_cases (n : Nat) : exists c rest,
    Nat.toDigits 10 n = c :: rest ∧ c ≠ '-' ∧ c ≠ '+' := by
  cases hdigits : Nat.toDigits 10 n with
  | nil => exact absurd hdigits Nat.toDigits_ne_nil
  | cons c rest =>
      have hc : c.isDigit = true :=
        Nat.isDigit_of_mem_toDigits (by decide) (Nat.le_refl 10)
          (hdigits ▸ List.mem_cons_self)
      refine ⟨c, rest, rfl, ?_, ?_⟩
      · intro heq
        rw [heq] at hc
        cases hc
      · intro heq
        rw [heq] at hc
        cases hc

theorem toList_toString_ofNat (n : Nat) :
    (toString (n : Int)).toList = Nat.toDigits 10 n := by
  show (Nat.repr n).toList = _
  exact Nat.toList_repr

theorem toList_toString_negSucc (n : Nat) :
    (toString (Int.negSucc n)).toList = '-' :: Nat.toDigits 10 (n + 1) := by
  show ("-" ++ Nat.repr (n + 1)).toList = _
  rw [String.toList_append, Nat.toList_repr]
  rfl

theorem newline_notMem_toString (n : Int) : '\n' ∉ (toString n).toList := by
  have hdigits : forall m, '\n' ∉ Nat.toDigits 10 m := by
    intro m hin
    exact absurd (Nat.isDigit_of_mem_toDigits (by decide) (Nat.le_refl 10) hin)
      (by decide)
  cases n with
  | ofNat m =>
      rw [show toString (Int.ofNat m) = toString (m : Int) from rfl,
        toList_toString_ofNat]
      exact hdigits m
  | negSucc m =>
      rw [toList_toString_negSucc]
      intro hin
      rcases List.mem_cons.mp hin with heq | hin
      · exact absurd heq (by decide)
      · exact hdigits _ hin

theorem parseSigned_toString (n : Int) :
    parseSigned (toString n).toList = some n := by
  cases n with
  | ofNat m =>
      rw [show toString (Int.ofNat m) = toString (m : Int) from rfl,
        toList_toString_ofNat]
      rcases toDigits_cases m with ⟨c, rest, hdigits, hminus, hplus⟩
      have hparsed := parseDigits_toDigits m
      rw [hdigits] at hparsed ⊢
      unfold parseSigned
      split
      · next heq => exact absurd (List.cons.inj heq).1 hminus
      · next heq => exact absurd (List.cons.inj heq).1 hplus
      · rw [hparsed]
        rfl
  | negSucc m =>
      rw [toList_toString_negSucc, parseSigned, parseDigits_toDigits]
      rfl

/-- A number that is printed is read back. -/
theorem parseI64_toString (n : Int64) :
    parseI64 (toString n.toInt) = some n := by
  rw [parseI64, parseSigned_toString, Option.bind_some,
    if_pos ⟨n.le_toInt, n.toInt_lt⟩, Int64.ofInt_toInt]

theorem parseI64_toString_nat {n : Nat} (h : n < 2 ^ 63) :
    parseI64 (toString n) = some (Int64.ofInt n) := by
  have hsigned : parseSigned (toString n).toList = some (n : Int) :=
    parseSigned_toString n
  rw [parseI64, hsigned, Option.bind_some, if_pos (by omega)]

end Text
end Minicask
