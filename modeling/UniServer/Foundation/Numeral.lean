/-
  Foundation/Numeral.lean --- numerals of a fixed width, and words in which some
  bits are set to a fixed value.

  `numeral base width n` lists the last `width` digits of `n`, the most significant
  one first.  Below `base ^ width` nothing is cut off, and the numeral determines
  the number (`numeral_inj`).

  `stamp mask value w` keeps the bits of `w` under the mask and puts in those of
  `value`.  What is left of `w` are the bits of the mask that the value leaves
  alone (`stamp_eq_iff`).
-/
import Mathlib.Data.List.Basic
import Mathlib.Data.Nat.Bitwise

set_option autoImplicit false

namespace UniServer.Foundation

/-! ## Numerals of a fixed width -/

/-- The last `width` digits of a number. -/
def numeral (base : Nat) : Nat → Nat → List Nat
  | 0, _ => []
  | width + 1, n => numeral base width (n / base) ++ [n % base]

section Numeral

variable {base : Nat}

@[simp] theorem numeral_length (width n : Nat) :
    (numeral base width n).length = width := by
  induction width generalizing n with
  | zero => rfl
  | succ width ih => rw [numeral, List.length_append, ih, List.length_singleton]

theorem numeral_digit_lt (hbase : 0 < base) (width n : Nat) :
    ∀ d ∈ numeral base width n, d < base := by
  induction width generalizing n with
  | zero =>
    intro d hd
    cases hd
  | succ width ih =>
    intro d hd
    rcases List.mem_append.mp hd with hlead | hlast
    · exact ih (n / base) d hlead
    · rw [List.mem_singleton.mp hlast]
      exact Nat.mod_lt n hbase

theorem numeral_zero (width : Nat) :
    numeral base width 0 = List.replicate width 0 := by
  induction width with
  | zero => rfl
  | succ width ih =>
    rw [numeral, Nat.zero_div, Nat.zero_mod, ih, List.replicate_succ']

/-- No two numbers of that width have the same numeral. -/
theorem numeral_inj {width n m : Nat} (hn : n < base ^ width)
    (hm : m < base ^ width) (h : numeral base width n = numeral base width m) :
    n = m := by
  induction width generalizing n m with
  | zero =>
    rw [Nat.pow_zero] at hn hm
    omega
  | succ width ih =>
    rw [numeral, numeral] at h
    obtain ⟨hlead, hlast⟩ := List.append_inj' h (by simp)
    rw [Nat.pow_succ] at hn hm
    have hlead : n / base = m / base :=
      ih (Nat.div_lt_of_lt_mul (by rwa [Nat.mul_comm])) 
        (Nat.div_lt_of_lt_mul (by rwa [Nat.mul_comm])) hlead
    have hlast : n % base = m % base := (List.cons.inj hlast).1
    rw [← Nat.div_add_mod n base, ← Nat.div_add_mod m base, hlead, hlast]

/-- The first digit. -/
theorem numeral_head (width n : Nat) :
    (numeral base (width + 1) n).head? = some (n / base ^ width % base) := by
  induction width generalizing n with
  | zero => simp [numeral]
  | succ width ih =>
    rw [numeral, List.head?_append, ih, Option.some_or, Nat.div_div_eq_div_mul,
      Nat.pow_succ']

end Numeral

/-! ## Words with a stamp -/

/-- The bits of `w` under the mask, and those of `value`. -/
def stamp {width : Nat} (mask value w : BitVec width) : BitVec width :=
  (w &&& mask) ||| value

section Stamp

variable {width : Nat} {mask value : BitVec width}

theorem getLsbD_stamp (w : BitVec width) (i : Nat) :
    (stamp mask value w).getLsbD i =
      (w.getLsbD i && mask.getLsbD i || value.getLsbD i) := by
  rw [stamp, BitVec.getLsbD_or, BitVec.getLsbD_and]

/-- Two words come out the same when they agree on every bit that the stamp does
not fix. -/
theorem stamp_eq_iff (w w' : BitVec width) :
    stamp mask value w = stamp mask value w' ↔
      ∀ i < width, mask.getLsbD i = true → value.getLsbD i = false →
        w.getLsbD i = w'.getLsbD i := by
  constructor
  · intro h i _ hmask hvalue
    have hbit := congrArg (fun v => v.getLsbD i) h
    simpa [getLsbD_stamp, hmask, hvalue] using hbit
  · intro h
    apply BitVec.eq_of_getLsbD_eq
    intro i hi
    rw [getLsbD_stamp, getLsbD_stamp]
    cases hmask : mask.getLsbD i with
    | false => simp
    | true =>
      cases hvalue : value.getLsbD i with
      | true => simp
      | false => rw [h i hi hmask hvalue]

/-- The number in `len` bits of a word, from bit `low` on. -/
theorem toNat_field (w : BitVec width) (low : Nat) {len : Nat} {ones : BitVec width}
    (hones : ones.toNat = 2 ^ len - 1) :
    ((w >>> low) &&& ones).toNat = w.toNat / 2 ^ low % 2 ^ len := by
  rw [BitVec.toNat_and, BitVec.toNat_ushiftRight, hones,
    Nat.and_two_pow_sub_one_eq_mod, Nat.shiftRight_eq_div_pow]

/-- A field that the stamp fixes is that of its value. -/
theorem stamp_field (w : BitVec width) (low len : Nat)
    (h : ∀ i < len, mask.getLsbD (low + i) = false ∨
      value.getLsbD (low + i) = true) :
    (stamp mask value w).toNat / 2 ^ low % 2 ^ len =
      value.toNat / 2 ^ low % 2 ^ len := by
  apply Nat.eq_of_testBit_eq
  intro i
  rw [Nat.testBit_mod_two_pow, Nat.testBit_mod_two_pow, Nat.testBit_div_two_pow,
    Nat.testBit_div_two_pow, BitVec.testBit_toNat, BitVec.testBit_toNat,
    getLsbD_stamp, Nat.add_comm i low]
  by_cases hi : i < len
  · rcases h i hi with hmask | hvalue
    · rw [hmask, Bool.and_false, Bool.false_or]
    · rw [hvalue, Bool.or_true]
  · rw [decide_eq_false hi, Bool.false_and, Bool.false_and]

end Stamp

end UniServer.Foundation
