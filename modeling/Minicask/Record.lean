import Minicask.Crc

/-!
# The on-disk record format

`record.rs`: a fixed header of twenty-one bytes, then the key, then the value.
The checksum covers everything after itself.  A tombstone is a record with a flag
set and no value.
-/

namespace Minicask

abbrev FileId := Nat

/-- Everything that can go wrong inside the store. -/
inductive Error where
  | io (why : String)
  | corrupt (fileId : FileId) (offset : Nat) (detail : String)
  | invalidKey (why : String)
  | valueTooLarge (len : Nat)
deriving Repr, DecidableEq

def headerLen : Nat := 21

def flagTombstone : UInt8 := 0b00000001

def u32Max : Nat := 2 ^ 32 - 1

structure Header where
  crc : UInt32
  tstamp : UInt64
  keyLen : UInt32
  valueLen : UInt32
  flags : UInt8
deriving Repr, DecidableEq

namespace Header

def recordLen (h : Header) : Nat :=
  headerLen + h.keyLen.toNat + h.valueLen.toNat

def isTombstone (h : Header) : Bool :=
  h.flags &&& flagTombstone != 0

def decode (buf : Bytes) : Header where
  crc := UInt32.ofNat (fromLe (slice buf 0 4))
  tstamp := UInt64.ofNat (fromLe (slice buf 4 12))
  keyLen := UInt32.ofNat (fromLe (slice buf 12 16))
  valueLen := UInt32.ofNat (fromLe (slice buf 16 20))
  flags := buf.getD 20 0

def encode (h : Header) : Bytes :=
  leBytes 4 h.crc.toNat ++ leBytes 8 h.tstamp.toNat ++
    leBytes 4 h.keyLen.toNat ++ leBytes 4 h.valueLen.toNat ++ [h.flags]

/-- Recompute the checksum over the header tail plus the payload and compare it
with the stored one. -/
def verify (h : Header) (key value : Bytes) : Bool :=
  h.crc == Crc.crc32Parts [h.encode.drop 4, key, value]

@[simp] theorem length_encode (h : Header) : h.encode.length = headerLen := by
  simp [encode, headerLen]

theorem drop_encode (h : Header) :
    h.encode.drop 4 = leBytes 8 h.tstamp.toNat ++ leBytes 4 h.keyLen.toNat ++
      leBytes 4 h.valueLen.toNat ++ [h.flags] := by
  simp [encode]

theorem decode_encode (h : Header) : decode h.encode = h := by
  have hcrc : slice h.encode 0 4 = leBytes 4 h.crc.toNat := by
    simp [slice, encode]
  have htstamp : slice h.encode 4 12 = leBytes 8 h.tstamp.toNat := by
    simp [slice, drop_encode]
  have hkeyLen : slice h.encode 12 16 = leBytes 4 h.keyLen.toNat := by
    have := slice_append (leBytes 4 h.crc.toNat ++ leBytes 8 h.tstamp.toNat)
      (leBytes 4 h.keyLen.toNat) (leBytes 4 h.valueLen.toNat ++ [h.flags])
      (by simp : _ = 12) (by simp : _ = 16)
    simpa [encode] using this
  have hvalueLen : slice h.encode 16 20 = leBytes 4 h.valueLen.toNat := by
    have := slice_append (leBytes 4 h.crc.toNat ++ leBytes 8 h.tstamp.toNat ++
      leBytes 4 h.keyLen.toNat) (leBytes 4 h.valueLen.toNat) [h.flags]
      (by simp : _ = 16) (by simp : _ = 20)
    simpa [encode] using this
  have hflags : h.encode.getD 20 0 = h.flags := by
    simp [encode, List.getD]
  unfold decode
  rw [hcrc, htstamp, hkeyLen, hvalueLen, hflags]
  simp [fromLe_leBytes]

theorem toNat_decode (buf : Bytes) :
    (decode buf).crc.toNat = fromLe (slice buf 0 4) ∧
      (decode buf).tstamp.toNat = fromLe (slice buf 4 12) ∧
      (decode buf).keyLen.toNat = fromLe (slice buf 12 16) ∧
      (decode buf).valueLen.toNat = fromLe (slice buf 16 20) := by
  unfold decode
  refine ⟨?_, ?_, ?_, ?_⟩
  · rw [UInt32.toNat_ofNat']
    exact Nat.mod_eq_of_lt (fromLe_slice_lt buf 0 4)
  · rw [UInt64.toNat_ofNat']
    exact Nat.mod_eq_of_lt (fromLe_slice_lt buf 4 12)
  · rw [UInt32.toNat_ofNat']
    exact Nat.mod_eq_of_lt (fromLe_slice_lt buf 12 16)
  · rw [UInt32.toNat_ofNat']
    exact Nat.mod_eq_of_lt (fromLe_slice_lt buf 16 20)

theorem encode_decode {buf : Bytes} (h : buf.length = headerLen) :
    (decode buf).encode = buf := by
  rcases toNat_decode buf with ⟨hcrc, htstamp, hkeyLen, hvalueLen⟩
  have hlength : buf.length = 21 := h
  have hlast : [buf.getD 20 0] = slice buf 20 21 := by
    have hlt : 20 < buf.length := by omega
    show _ = (buf.drop 20).take 1
    rw [List.drop_eq_getElem_cons hlt, List.take_succ_cons, List.take_zero,
      List.getD_eq_getElem?_getD, List.getElem?_eq_getElem hlt,
      Option.getD_some]
  have hflags : (decode buf).flags = buf.getD 20 0 := rfl
  have hcrcAt : leBytes 4 (fromLe (slice buf 0 4)) = slice buf 0 4 :=
    leBytes_slice buf 0 4 (by omega) (by omega)
  have htstampAt : leBytes 8 (fromLe (slice buf 4 12)) = slice buf 4 12 :=
    leBytes_slice buf 4 12 (by omega) (by omega)
  have hkeyLenAt : leBytes 4 (fromLe (slice buf 12 16)) = slice buf 12 16 :=
    leBytes_slice buf 12 16 (by omega) (by omega)
  have hvalueLenAt : leBytes 4 (fromLe (slice buf 16 20)) = slice buf 16 20 :=
    leBytes_slice buf 16 20 (by omega) (by omega)
  unfold encode
  rw [hcrc, htstamp, hkeyLen, hvalueLen, hflags, hlast, hcrcAt, htstampAt,
    hkeyLenAt, hvalueLenAt]
  rw [slice_append_slice buf (by omega) (by omega),
    slice_append_slice buf (by omega) (by omega),
    slice_append_slice buf (by omega) (by omega),
    slice_append_slice buf (by omega) (by omega)]
  unfold slice
  rw [List.drop_zero, List.take_of_length_le (by omega)]

end Header

def encode (key : Bytes) (value : Option Bytes) (tstamp : UInt64) :
    Except Error Bytes :=
  if key.isEmpty then Except.error (Error.invalidKey "keys may not be empty")
  else if key.length > u32Max then
    Except.error (Error.invalidKey "key exceeds the u32 length prefix")
  else
    let payload := value.getD []
    if payload.length > u32Max then
      Except.error (Error.valueTooLarge payload.length)
    else
      let header : Header :=
        { crc := 0
          tstamp := tstamp
          keyLen := UInt32.ofNat key.length
          valueLen := UInt32.ofNat payload.length
          flags := if value.isNone then flagTombstone else 0 }
      let draft := header.encode
      let header := { header with
        crc := Crc.crc32Parts [draft.drop 4, key, payload] }
      Except.ok (header.encode ++ key ++ payload)

/-!
# Records that can be written
-/

/-- A record whose lengths fit their fields, the record's own included. -/
structure Rec where
  key : Bytes
  value : Option Bytes
  tstamp : UInt64
  nonempty : key ≠ []
  short : headerLen + key.length + (value.getD []).length < 2 ^ 32
deriving DecidableEq

namespace Rec

def payload (r : Rec) : Bytes :=
  r.value.getD []

def draft (r : Rec) : Header where
  crc := 0
  tstamp := r.tstamp
  keyLen := UInt32.ofNat r.key.length
  valueLen := UInt32.ofNat r.payload.length
  flags := if r.value.isNone then flagTombstone else 0

def header (r : Rec) : Header :=
  { r.draft with
    crc := Crc.crc32Parts [r.draft.encode.drop 4, r.key, r.payload] }

def bytes (r : Rec) : Bytes :=
  r.header.encode ++ r.key ++ r.payload

theorem keyLen_toNat (r : Rec) : r.header.keyLen.toNat = r.key.length := by
  have := r.short
  simp only [header, draft, UInt32.toNat_ofNat']
  exact Nat.mod_eq_of_lt (by omega)

theorem valueLen_toNat (r : Rec) :
    r.header.valueLen.toNat = r.payload.length := by
  have hshort := r.short
  have : r.payload.length < 2 ^ 32 := by
    unfold payload
    omega
  simp only [header, draft, UInt32.toNat_ofNat']
  exact Nat.mod_eq_of_lt this

theorem length_bytes (r : Rec) :
    r.bytes.length = headerLen + r.key.length + r.payload.length := by
  simp [bytes, Nat.add_assoc]

theorem recordLen_header (r : Rec) : r.header.recordLen = r.bytes.length := by
  rw [Header.recordLen, keyLen_toNat, valueLen_toNat, length_bytes]

theorem length_bytes_lt (r : Rec) : r.bytes.length < 2 ^ 32 := by
  rw [length_bytes]
  exact r.short

theorem bytes_ne_nil (r : Rec) : r.bytes ≠ [] := by
  intro h
  have hlength := r.length_bytes
  rw [h, headerLen] at hlength
  simp at hlength
  omega

/-- The record's length as its index entry holds it. -/
theorem toNat_length_bytes (r : Rec) :
    (UInt32.ofNat r.bytes.length).toNat = r.bytes.length := by
  rw [UInt32.toNat_ofNat']
  exact Nat.mod_eq_of_lt r.length_bytes_lt

theorem verify_header (r : Rec) : r.header.verify r.key r.payload = true := by
  have hdrop : r.header.encode.drop 4 = r.draft.encode.drop 4 := by
    rw [Header.drop_encode, Header.drop_encode]
    rfl
  rw [Header.verify, hdrop]
  exact beq_self_eq_true _

theorem isTombstone_header (r : Rec) :
    r.header.isTombstone = r.value.isNone := by
  have hflags : r.header.flags = if r.value.isNone then flagTombstone else 0 :=
    rfl
  rw [Header.isTombstone, hflags]
  cases r.value.isNone <;> decide

theorem take_bytes (r : Rec) (rest : Bytes) :
    (r.bytes ++ rest).take headerLen = r.header.encode := by
  simp [bytes]

theorem drop_bytes (r : Rec) (rest : Bytes) :
    (r.bytes ++ rest).drop headerLen = r.key ++ (r.payload ++ rest) := by
  simp [bytes]

def join (rs : List Rec) : Bytes :=
  rs.flatMap bytes

@[simp] theorem join_nil : join [] = [] := rfl

@[simp] theorem join_cons (r : Rec) (rs : List Rec) :
    join (r :: rs) = r.bytes ++ join rs := by
  simp [join]

@[simp] theorem join_append (rs more : List Rec) :
    join (rs ++ more) = join rs ++ join more := by
  simp [join]

theorem value_eq_some (r : Rec) {value : Bytes} (h : r.value = some value) :
    r.payload = value := by
  rw [payload, h, Option.getD_some]

theorem bytes_injective {r r' : Rec} (h : r.bytes = r'.bytes) : r = r' := by
  have hheader : r.header = r'.header := by
    have htake := r.take_bytes []
    rw [h, r'.take_bytes []] at htake
    rw [← Header.decode_encode r.header, ← htake, Header.decode_encode]
  have hbody : r.key ++ r.payload = r'.key ++ r'.payload := by
    have hdrop := r.drop_bytes []
    rw [h, r'.drop_bytes []] at hdrop
    simpa using hdrop.symm
  have hlength : r.key.length = r'.key.length := by
    rw [← r.keyLen_toNat, ← r'.keyLen_toNat, hheader]
  rcases List.append_inj hbody hlength with ⟨hkey, hpayload⟩
  have htstamp : r.tstamp = r'.tstamp := congrArg Header.tstamp hheader
  have hnone : r.value.isNone = r'.value.isNone := by
    rw [← r.isTombstone_header, ← r'.isTombstone_header, hheader]
  have hvalue : r.value = r'.value := by
    unfold payload at hpayload
    cases hv : r.value with
    | none =>
        cases hv' : r'.value with
        | none => rfl
        | some value' => simp [hv, hv'] at hnone
    | some value =>
        cases hv' : r'.value with
        | none => simp [hv, hv'] at hnone
        | some value' =>
            rw [hv, hv'] at hpayload
            exact congrArg some hpayload
  cases r
  cases r'
  simp_all

end Rec

/-- What is written is a record, if its length fits. -/
theorem encode_eq_ok {key : Bytes} {value : Option Bytes} {tstamp : UInt64}
    {bytes : Bytes} (h : encode key value tstamp = Except.ok bytes)
    (hshort : bytes.length < 2 ^ 32) :
    exists r : Rec, r.key = key ∧ r.value = value ∧ r.tstamp = tstamp ∧
      r.bytes = bytes := by
  unfold encode at h
  by_cases hkey : key.isEmpty = true
  · rw [if_pos hkey] at h
    cases h
  by_cases hlong : key.length > u32Max
  · rw [if_neg hkey, if_pos hlong] at h
    cases h
  by_cases hlarge : (value.getD []).length > u32Max
  · rw [if_neg hkey, if_neg hlong] at h
    simp only [if_pos hlarge] at h
    cases h
  · rw [if_neg hkey, if_neg hlong] at h
    simp only [if_neg hlarge] at h
    cases h
    have hlength : headerLen + key.length + (value.getD []).length < 2 ^ 32 := by
      simpa [Nat.add_assoc] using hshort
    exact ⟨⟨key, value, tstamp, by simpa using hkey, hlength⟩,
      rfl, rfl, rfl, rfl⟩

/-- Whatever is accepted, of whatever length, is a header that fits and the two
strings after it. -/
theorem encode_parts {key : Bytes} {value : Option Bytes} {tstamp : UInt64}
    {bytes : Bytes} (h : encode key value tstamp = Except.ok bytes) :
    exists header : Header, bytes = header.encode ++ (key ++ value.getD []) ∧
      header.keyLen.toNat = key.length ∧
      header.valueLen.toNat = (value.getD []).length ∧
      header.verify key (value.getD []) = true ∧
      header.isTombstone = value.isNone := by
  unfold encode at h
  split at h
  · cases h
  · split at h
    · cases h
    · next hlong =>
        dsimp only at h
        split at h
        · cases h
        · next hlarge =>
            cases h
            refine ⟨_, List.append_assoc _ _ _, ?_, ?_, ?_, ?_⟩
            · unfold u32Max at hlong
              rw [UInt32.toNat_ofNat']
              exact Nat.mod_eq_of_lt (by omega)
            · unfold u32Max at hlarge
              rw [UInt32.toNat_ofNat']
              exact Nat.mod_eq_of_lt (by omega)
            · rw [Header.verify, Header.drop_encode, Header.drop_encode]
              exact beq_self_eq_true _
            · unfold Header.isTombstone
              dsimp only
              cases value.isNone <;> decide

theorem encode_rec (r : Rec) :
    encode r.key r.value r.tstamp = Except.ok r.bytes := by
  have hshort := r.short
  unfold encode
  rw [if_neg (by simpa using r.nonempty),
    if_neg (by unfold u32Max; omega), if_neg (by unfold u32Max; omega)]
  rfl

theorem encode_nil (value : Option Bytes) (tstamp : UInt64) :
    encode [] value tstamp =
      Except.error (Error.invalidKey "keys may not be empty") := by
  rfl

end Minicask
