import Mathlib.Data.List.Basic

/-!
# Shift registers

A reflected cyclic redundancy check of any width and polynomial, over bits.  A turn
of the register is linear in exclusive or, so a block of bits can be taken in at
once: what the low end of the register becomes is looked up, and the rest of it only
moves down.
-/

namespace Minicask
namespace ShiftRegister

variable {w : Nat} (poly : BitVec w)

/-- One place down; a one that falls out brings the polynomial in. -/
def shift (reg : BitVec w) : BitVec w :=
  if reg.getLsbD 0 then (reg >>> 1) ^^^ poly else reg >>> 1

/-- One bit of the message taken in: the polynomial comes in where the bit differs
from the one that falls out. -/
def feed (reg : BitVec w) (bit : Bool) : BitVec w :=
  if reg.getLsbD 0 = bit then reg >>> 1 else (reg >>> 1) ^^^ poly

def shifts : Nat -> BitVec w -> BitVec w
  | 0, reg => reg
  | n + 1, reg => shifts n (shift poly reg)

/-- A block of bits as a register holds it, the first at the low end. -/
def block (bits : List Bool) : BitVec w :=
  (BitVec.ofBoolListLE bits).setWidth w

/-- The low end of a register. -/
def low (n : Nat) (reg : BitVec w) : BitVec w :=
  (reg.setWidth n).setWidth w

/-- The high end of a register is zero. -/
def Clear (n : Nat) (reg : BitVec w) : Prop :=
  forall i, w <= i + n -> reg.getLsbD i = false

/-!
# Turns are linear
-/

theorem shift_xor (a b : BitVec w) :
    shift poly (a ^^^ b) = shift poly a ^^^ shift poly b := by
  unfold shift
  rw [BitVec.getLsbD_xor, BitVec.ushiftRight_xor_distrib]
  cases a.getLsbD 0 with
  | false =>
      cases b.getLsbD 0 with
      | false => rfl
      | true => exact BitVec.xor_assoc _ _ _
  | true =>
      cases b.getLsbD 0 with
      | false =>
          show (a >>> 1 ^^^ b >>> 1) ^^^ poly = (a >>> 1 ^^^ poly) ^^^ b >>> 1
          ac_rfl
      | true =>
          have hcancel : (a >>> 1 ^^^ poly) ^^^ (b >>> 1 ^^^ poly) =
              (a >>> 1 ^^^ b >>> 1) ^^^ (poly ^^^ poly) := by
            ac_rfl
          show a >>> 1 ^^^ b >>> 1 = (a >>> 1 ^^^ poly) ^^^ (b >>> 1 ^^^ poly)
          rw [hcancel, BitVec.xor_self, BitVec.xor_zero]

theorem shifts_xor (n : Nat) (a b : BitVec w) :
    shifts poly n (a ^^^ b) = shifts poly n a ^^^ shifts poly n b := by
  induction n generalizing a b with
  | zero => rfl
  | succ n ih =>
      show shifts poly n (shift poly (a ^^^ b)) = _
      rw [shift_xor]
      exact ih _ _

theorem shift_shiftLeft {reg : BitVec w} (h : Clear 1 reg) :
    shift poly (reg <<< 1) = reg := by
  have hlow : (reg <<< 1).getLsbD 0 = false := by simp
  unfold shift
  rw [hlow]
  apply BitVec.eq_of_getLsbD_eq
  intro i hi
  rcases Nat.lt_or_ge (i + 1) w with hlt | hge
  · simp [Nat.add_comm 1 i, hlt, BitVec.getLsbD_eq_getElem hi]
  · simp [Nat.add_comm 1 i, Nat.not_lt.mpr hge, h i hge]

theorem shifts_shiftLeft {n : Nat} {reg : BitVec w} (h : Clear n reg) :
    shifts poly n (reg <<< n) = reg := by
  induction n with
  | zero => exact BitVec.shiftLeft_zero reg
  | succ n ih =>
      have hclear : Clear 1 (reg <<< n) := by
        intro i hi
        rw [BitVec.getLsbD_shiftLeft, h (i - n) (by omega), Bool.and_false]
      show shifts poly n (shift poly (reg <<< (n + 1))) = reg
      rw [BitVec.shiftLeft_add, shift_shiftLeft poly hclear]
      exact ih (fun i hi => h i (by omega))

theorem clear_shiftRight (n : Nat) (reg : BitVec w) : Clear n (reg >>> n) := by
  intro i hi
  rw [BitVec.getLsbD_ushiftRight]
  exact BitVec.getLsbD_of_ge reg (n + i) (by omega)

theorem low_xor (n : Nat) (reg : BitVec w) :
    low n reg ^^^ (reg >>> n) <<< n = reg := by
  unfold low
  apply BitVec.eq_of_getLsbD_eq
  intro i hi
  rcases Nat.lt_or_ge i n with hlt | hge
  · simp [hi, hlt]
  · simp [hi, Nat.not_lt.mpr hge, Nat.add_sub_cancel' hge]

/-- Turns of a register are turns of its low end, and the rest of it moves down. -/
theorem shifts_low (n : Nat) (reg : BitVec w) :
    shifts poly n reg = shifts poly n (low n reg) ^^^ reg >>> n := by
  conv_lhs => rw [← low_xor n reg]
  rw [shifts_xor, shifts_shiftLeft poly (clear_shiftRight n reg)]

/-!
# Blocks of bits
-/

theorem getLsbD_block (bits : List Bool) (i : Nat) :
    (block bits : BitVec w).getLsbD i = (decide (i < w) && bits.getD i false) := by
  simp [block]

theorem block_cons (bit : Bool) (bits : List Bool) :
    (block (bit :: bits) : BitVec w) = block [bit] ^^^ block bits <<< 1 := by
  apply BitVec.eq_of_getLsbD_eq
  intro i hi
  rw [BitVec.getLsbD_xor, BitVec.getLsbD_shiftLeft, getLsbD_block, getLsbD_block,
    getLsbD_block]
  cases i with
  | zero => simp
  | succ i => simp [hi, Nat.lt_of_succ_lt hi]

theorem getLsbD_block_of_le {bits : List Bool} {i : Nat} (h : bits.length <= i) :
    (block bits : BitVec w).getLsbD i = false := by
  rw [getLsbD_block, List.getD_eq_getElem?_getD, List.getElem?_eq_none h]
  exact Bool.and_false _

theorem block_shiftRight (bits : List Bool) :
    (block bits : BitVec w) >>> bits.length = 0#w := by
  apply BitVec.eq_of_getLsbD_eq
  intro i hi
  rw [BitVec.getLsbD_ushiftRight, getLsbD_block_of_le (Nat.le_add_right _ _)]
  exact BitVec.getLsbD_zero.symm

theorem clear_block {bits : List Bool} {n : Nat} (h : bits.length + n <= w) :
    Clear n (block bits : BitVec w) :=
  fun _ hi => getLsbD_block_of_le (by omega)

theorem feed_eq_shift (hw : 0 < w) (reg : BitVec w) (bit : Bool) :
    feed poly reg bit = shift poly (reg ^^^ block [bit]) := by
  have hbit : (block [bit] : BitVec w) >>> 1 = 0#w := block_shiftRight [bit]
  unfold feed shift
  rw [BitVec.ushiftRight_xor_distrib, hbit, BitVec.xor_zero, BitVec.getLsbD_xor,
    getLsbD_block]
  cases reg.getLsbD 0 <;> cases bit <;> simp [hw]

/-- A block of bits goes in at once. -/
theorem foldl_feed {bits : List Bool} (h : bits.length <= w) (reg : BitVec w) :
    bits.foldl (feed poly) reg = shifts poly bits.length (reg ^^^ block bits) := by
  induction bits generalizing reg with
  | nil =>
      show reg = reg ^^^ block []
      have hnil : (block [] : BitVec w) = 0#w := block_shiftRight []
      rw [hnil, BitVec.xor_zero]
  | cons bit bits ih =>
      have hlength : bits.length + 1 <= w := h
      have hturn : shift poly (reg ^^^ block (bit :: bits)) =
          feed poly reg bit ^^^ block bits := by
        rw [block_cons, ← BitVec.xor_assoc, shift_xor,
          ← feed_eq_shift poly (by omega) reg bit,
          shift_shiftLeft poly (clear_block hlength)]
      show bits.foldl (feed poly) (feed poly reg bit) =
        shifts poly bits.length (shift poly (reg ^^^ block (bit :: bits)))
      rw [hturn]
      exact ih (by omega) _

/-- A table of what turns make of a low end takes a block in with one look. -/
theorem foldl_feed_table {bits : List Bool} (h : bits.length <= w)
    (reg : BitVec w) :
    bits.foldl (feed poly) reg =
      shifts poly bits.length (low bits.length (reg ^^^ block bits)) ^^^
        reg >>> bits.length := by
  rw [foldl_feed poly h, shifts_low, BitVec.ushiftRight_xor_distrib,
    block_shiftRight, BitVec.xor_zero]

end ShiftRegister
end Minicask
