import Mathlib.Algebra.Order.Ring.Nat
import Mathlib.Data.List.Basic
import Mathlib.Data.Nat.Basic

/-!
# Byte strings and little-endian numbers

Every format of the repository is fixed width and little endian.  A number is
written in as many bytes as its type has, which drops what does not fit, exactly
as a cast to that type would.
-/

namespace Minicask

abbrev Bytes := List UInt8

/-- The `width` low bytes of a number, least significant first. -/
def leBytes : Nat -> Nat -> Bytes
  | 0, _ => []
  | width + 1, n => UInt8.ofNat n :: leBytes width (n / 256)

/-- The number a byte string stands for, least significant byte first. -/
def fromLe : Bytes -> Nat
  | [] => 0
  | byte :: rest => byte.toNat + 256 * fromLe rest

@[simp] theorem length_leBytes (width n : Nat) :
    (leBytes width n).length = width := by
  induction width generalizing n with
  | zero => rfl
  | succ width ih => simp [leBytes, ih]

@[simp] theorem drop_leBytes {width start : Nat} (n : Nat)
    (h : width <= start) : (leBytes width n).drop start = [] := by
  rw [List.drop_eq_nil_iff, length_leBytes]
  exact h

@[simp] theorem take_leBytes {width stop : Nat} (n : Nat)
    (h : width <= stop) : (leBytes width n).take stop = leBytes width n := by
  apply List.take_of_length_le
  rw [length_leBytes]
  exact h

theorem fromLe_leBytes (width n : Nat) :
    fromLe (leBytes width n) = n % 256 ^ width := by
  induction width generalizing n with
  | zero =>
      simp [leBytes, fromLe, Nat.mod_one]
  | succ width ih =>
      simp only [leBytes, fromLe, ih, UInt8.toNat_ofNat']
      rw [Nat.pow_succ' (m := 256), Nat.mod_mul]

theorem fromLe_leBytes_of_lt {width n : Nat} (h : n < 256 ^ width) :
    fromLe (leBytes width n) = n := by
  rw [fromLe_leBytes, Nat.mod_eq_of_lt h]

theorem fromLe_lt (bytes : Bytes) : fromLe bytes < 256 ^ bytes.length := by
  induction bytes with
  | nil => exact Nat.one_pos
  | cons byte bytes ih =>
      have hbyte := byte.toNat_lt
      rw [fromLe, List.length_cons, Nat.pow_succ]
      omega

theorem leBytes_fromLe (bytes : Bytes) :
    leBytes bytes.length (fromLe bytes) = bytes := by
  induction bytes with
  | nil => rfl
  | cons byte bytes ih =>
      have hbyte := byte.toNat_lt
      have hdiv : (byte.toNat + 256 * fromLe bytes) / 256 = fromLe bytes := by
        omega
      rw [List.length_cons, leBytes, fromLe, hdiv, ih]
      congr 1
      apply UInt8.toNat_inj.mp
      rw [UInt8.toNat_ofNat']
      omega

theorem fromLe_inj {a b : Bytes} (hlength : a.length = b.length)
    (h : fromLe a = fromLe b) : a = b := by
  rw [← leBytes_fromLe a, ← leBytes_fromLe b, h, hlength]

/-!
# Slices
-/

/-- The bytes from `start` up to `stop`, fewer if the string ends before. -/
def slice (bytes : Bytes) (start stop : Nat) : Bytes :=
  (bytes.drop start).take (stop - start)

theorem slice_append (before middle after : Bytes) {start stop : Nat}
    (hstart : before.length = start)
    (hstop : start + middle.length = stop) :
    slice (before ++ middle ++ after) start stop = middle := by
  subst hstart hstop
  simp [slice]

theorem length_slice {bytes : Bytes} {start stop : Nat} (hle : start <= stop)
    (h : stop <= bytes.length) : (slice bytes start stop).length = stop - start := by
  simp only [slice, List.length_take, List.length_drop]
  omega

theorem slice_append_of_le {bytes : Bytes} (more : Bytes) {start stop : Nat}
    (h : stop <= bytes.length) :
    slice (bytes ++ more) start stop = slice bytes start stop := by
  unfold slice
  rcases Nat.le_total start bytes.length with hstart | hstart
  · rw [List.drop_append_of_le_length hstart, List.take_append_of_le_length]
    rw [List.length_drop]
    omega
  · have hzero : stop - start = 0 := by omega
    simp [hzero]

theorem slice_append_of_ge (bytes : Bytes) {more : Bytes} {start stop : Nat}
    (h : bytes.length <= start) :
    slice (bytes ++ more) start stop =
      slice more (start - bytes.length) (stop - bytes.length) := by
  unfold slice
  rw [List.drop_append, List.drop_eq_nil_of_le h, List.nil_append]
  congr 1
  omega

theorem slice_take {bytes : Bytes} {start stop n : Nat} (h : stop <= n) :
    slice (bytes.take n) start stop = slice bytes start stop := by
  unfold slice
  rw [List.drop_take, List.take_take]
  congr 1
  omega

theorem slice_append_slice (bytes : Bytes) {start middle stop : Nat}
    (hstart : start <= middle) (hstop : middle <= stop) :
    slice bytes start middle ++ slice bytes middle stop =
      slice bytes start stop := by
  unfold slice
  have hdrop : bytes.drop middle = (bytes.drop start).drop (middle - start) := by
    rw [List.drop_drop]
    congr 1
    omega
  rw [hdrop, ← List.take_add]
  congr 1
  omega

theorem leBytes_slice (bytes : Bytes) (start stop : Nat) (hle : start <= stop)
    (h : stop <= bytes.length) :
    leBytes (stop - start) (fromLe (slice bytes start stop)) =
      slice bytes start stop := by
  have hround := leBytes_fromLe (slice bytes start stop)
  rwa [length_slice hle h] at hround

theorem fromLe_slice_lt (bytes : Bytes) (start stop : Nat) :
    fromLe (slice bytes start stop) < 256 ^ (stop - start) := by
  have hlt := fromLe_lt (slice bytes start stop)
  have hlength : (slice bytes start stop).length <= stop - start := by
    unfold slice
    exact List.length_take_le ..
  exact Nat.lt_of_lt_of_le hlt (Nat.pow_le_pow_right (by decide) hlength)

end Minicask
