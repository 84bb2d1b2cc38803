/-
  Common/Uuid.lean --- `generate_uuid_v4`.

  Two 64-bit numbers are drawn, the version and the variant are put into them, and
  they are written in hexadecimal in groups of 8, 4, 4, 4 and 12 digits.
-/
import UniServer.Foundation.Bytes

set_option autoImplicit false

namespace UniServer.Common

open UniServer.Foundation

/-- A number as `std::hex` writes it. -/
def hex (n : Nat) : Bytes := (Nat.toDigits 16 n).map fun c => UInt8.ofNat c.toNat

/-- `std::setfill('0') << std::setw(width)`. -/
def setw (width : Nat) (text : Bytes) : Bytes :=
  List.replicate (width - text.length) 48 ++ text

/-- `generate_uuid_v4`, on the two numbers it draws. -/
def generateUuidV4 (a b : BitVec 64) : Bytes :=
  let a := (a &&& 0xFFFFFFFFFFFF0FFF#64) ||| 0x0000000000004000#64
  let b := (b &&& 0x3FFFFFFFFFFFFFFF#64) ||| 0x8000000000000000#64
  setw 8 (hex ((a >>> 32) &&& 0xFFFFFFFF#64).toNat) ++ ascii "-" ++
    setw 4 (hex ((a >>> 16) &&& 0xFFFF#64).toNat) ++ ascii "-" ++
    setw 4 (hex (a &&& 0xFFFF#64).toNat) ++ ascii "-" ++
    setw 4 (hex ((b >>> 48) &&& 0xFFFF#64).toNat) ++ ascii "-" ++
    setw 12 (hex (b &&& 0xFFFFFFFFFFFF#64).toNat)

/-- `0` to `9` and `a` to `f`. -/
def IsHexDigit (b : Byte) : Prop :=
  48 ≤ b.toNat ∧ b.toNat ≤ 57 ∨ 97 ≤ b.toNat ∧ b.toNat ≤ 102

theorem hexDigit_byte :
    ∀ d < 16, IsHexDigit (UInt8.ofNat (Nat.digitChar d).toNat) := by
  unfold IsHexDigit
  decide

/-- Every octet of a hexadecimal numeral is a digit. -/
theorem hex_digits (n : Nat) : ∀ b ∈ hex n, IsHexDigit b := by
  induction n using Nat.strongRecOn with
  | _ n ih =>
    intro b hb
    rcases Nat.lt_or_ge n 16 with hlt | hge
    · rw [hex, Nat.toDigits_of_lt_base hlt, List.map_singleton,
        List.mem_singleton] at hb
      rw [hb]
      exact hexDigit_byte n hlt
    · rw [hex, Nat.toDigits_of_base_le (by omega) hge, List.map_append,
        List.mem_append] at hb
      rcases hb with hb | hb
      · exact ih (n / 16) (by omega) b hb
      · rw [List.map_singleton, List.mem_singleton] at hb
        rw [hb]
        exact hexDigit_byte (n % 16) (Nat.mod_lt n (by omega))

theorem setw_hex_digits (width n : Nat) :
    ∀ b ∈ setw width (hex n), IsHexDigit b := by
  intro b hb
  rcases List.mem_append.mp hb with hfill | hdigit
  · rw [List.eq_of_mem_replicate hfill]
    exact Or.inl (by decide)
  · exact hex_digits n b hdigit

/-- An id is made of hexadecimal digits and hyphens. -/
theorem generateUuidV4_bytes (a b : BitVec 64) :
    ∀ c ∈ generateUuidV4 a b, IsHexDigit c ∨ c = 45 := by
  have hhyphen : ∀ c ∈ ascii "-", IsHexDigit c ∨ c = 45 := by
    intro c hc
    exact Or.inr (List.mem_singleton.mp hc)
  have hgroup : ∀ width n, ∀ c ∈ setw width (hex n), IsHexDigit c ∨ c = 45 :=
    fun width n c hc => Or.inl (setw_hex_digits width n c hc)
  intro c hc
  simp only [generateUuidV4, List.mem_append] at hc
  rcases hc with (((((((hc | hc) | hc) | hc) | hc) | hc) | hc) | hc) | hc
  · exact hgroup _ _ c hc
  · exact hhyphen c hc
  · exact hgroup _ _ c hc
  · exact hhyphen c hc
  · exact hgroup _ _ c hc
  · exact hhyphen c hc
  · exact hgroup _ _ c hc
  · exact hhyphen c hc
  · exact hgroup _ _ c hc

/-- So it holds no CR. -/
theorem cr_notMem_uuid (a b : BitVec 64) : (13 : Byte) ∉ generateUuidV4 a b := by
  intro hmem
  rcases generateUuidV4_bytes a b 13 hmem with hdigit | hhyphen
  · exact absurd hdigit (by unfold IsHexDigit; decide)
  · exact absurd hhyphen (by decide)

example : generateUuidV4 0 0 = ascii "00000000-0000-4000-8000-000000000000" := by
  decide +kernel

end UniServer.Common
