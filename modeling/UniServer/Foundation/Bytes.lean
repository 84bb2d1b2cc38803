/-
  Foundation/Bytes.lean --- octet strings: ASCII text, letter case, decimal
  numerals.

  A C++ `std::string` is a sequence of octets, not of characters, so every text
  of the model is a `List UInt8`.  `ascii` turns a literal of the source into
  such a list.
-/
import Mathlib.Data.List.Basic

set_option autoImplicit false

namespace UniServer.Foundation

abbrev Byte : Type := UInt8

abbrev Bytes : Type := List Byte

/-- The octets of a string literal. -/
def ascii (text : String) : Bytes := text.toUTF8.data.toList

/-- What is to be decided of all octets of a text is decided of those that it has,
and not of every octet there is. -/
theorem forall_of_all {P : Byte → Prop} [DecidablePred P] {text : Bytes}
    (h : text.all fun b => P b) : ∀ b ∈ text, P b := by
  simpa using h

/-! ## Letter case -/

/-- `std::tolower` in the "C" locale: only `A`..`Z` change. -/
def toLower (b : Byte) : Byte :=
  if 65 ≤ b ∧ b ≤ 90 then b + 32 else b

/-- `toLower` on every octet of a text. -/
def lower (text : Bytes) : Bytes := text.map toLower

@[simp] theorem lower_length (text : Bytes) :
    (lower text).length = text.length := by
  simp [lower]

/-! ## Decimal numerals -/

/-- The decimal numeral of `n`, without leading zeros. -/
def decimal (n : Nat) : Bytes :=
  (Nat.toDigits 10 n).map fun c => UInt8.ofNat c.toNat

/-- The value of a decimal numeral. -/
def readDecimal (text : Bytes) : Nat :=
  text.foldl (fun acc b => acc * 10 + (b.toNat - 48)) 0

/-- The octet of one decimal digit. -/
theorem digit_byte :
    ∀ d < 10, (UInt8.ofNat (Nat.digitChar d).toNat).toNat = 48 + d := by
  decide

theorem decimal_of_lt {n : Nat} (h : n < 10) :
    decimal n = [UInt8.ofNat (Nat.digitChar n).toNat] := by
  rw [decimal, Nat.toDigits_of_lt_base h]
  rfl

theorem decimal_of_le {n : Nat} (h : 10 ≤ n) :
    decimal n =
      decimal (n / 10) ++ [UInt8.ofNat (Nat.digitChar (n % 10)).toNat] := by
  rw [decimal, Nat.toDigits_of_base_le (by omega) h, List.map_append]
  rfl

/-- Every octet of a numeral is a digit. -/
theorem decimal_digits (n : Nat) :
    ∀ b ∈ decimal n, 48 ≤ b.toNat ∧ b.toNat ≤ 57 := by
  induction n using Nat.strongRecOn with
  | _ n ih =>
    intro b hb
    by_cases h : n < 10
    · rw [decimal_of_lt h, List.mem_singleton] at hb
      have hdigit := digit_byte n h
      rw [hb]
      omega
    · rw [decimal_of_le (by omega), List.mem_append, List.mem_singleton] at hb
      rcases hb with hb | hb
      · exact ih (n / 10) (by omega) b hb
      · have hdigit := digit_byte (n % 10) (Nat.mod_lt n (by omega))
        rw [hb]
        omega

/-- Reading back a numeral gives the number it was made from. -/
theorem readDecimal_decimal (n : Nat) : readDecimal (decimal n) = n := by
  induction n using Nat.strongRecOn with
  | _ n ih =>
    by_cases h : n < 10
    · rw [decimal_of_lt h]
      simp only [readDecimal, List.foldl_cons, List.foldl_nil, digit_byte n h]
      omega
    · have hlead := ih (n / 10) (by omega)
      unfold readDecimal at hlead ⊢
      rw [decimal_of_le (by omega), List.foldl_append, hlead]
      simp only [List.foldl_cons, List.foldl_nil,
        digit_byte (n % 10) (Nat.mod_lt n (by omega))]
      omega

end UniServer.Foundation
