/-
  Common/UuidLayout.lean --- what an id made by `generate_uuid_v4` looks like, and
  how much of the two numbers drawn for it is left in it.

  Each group is a hexadecimal numeral of a fixed width, of a field of one of the two
  words.  The fields of a word cover it, so the id determines both words as they
  are after the version and the variant have been put in, and these determine all
  bits drawn but six.
-/
import UniServer.Common.Uuid
import UniServer.Foundation.Numeral

set_option autoImplicit false

namespace UniServer.Common

open UniServer.Foundation

/-! ## Groups of digits -/

/-- A hexadecimal digit. -/
def hexByte (d : Nat) : Byte := UInt8.ofNat (Nat.digitChar d).toNat

/-- The value of a hexadecimal digit. -/
def hexValue (b : Byte) : Nat := if b.toNat < 58 then b.toNat - 48 else b.toNat - 87

theorem hexValue_hexByte : ∀ d < 16, hexValue (hexByte d) = d := by
  decide

/-- A group of an id: the last `width` hexadecimal digits of a number. -/
def group (width n : Nat) : Bytes := (numeral 16 width n).map hexByte

@[simp] theorem group_length (width n : Nat) : (group width n).length = width := by
  rw [group, List.length_map, numeral_length]

theorem group_digits (width n : Nat) : ∀ b ∈ group width n, IsHexDigit b := by
  intro b hb
  obtain ⟨d, hd, rfl⟩ := List.mem_map.mp hb
  exact hexDigit_byte d (numeral_digit_lt (by omega) width n d hd)

theorem group_succ (width n : Nat) :
    group (width + 1) n = group width (n / 16) ++ [hexByte (n % 16)] := by
  rw [group, numeral, List.map_append]
  rfl

theorem group_head (width n : Nat) :
    (group (width + 1) n).head? = some (hexByte (n / 16 ^ width % 16)) := by
  rw [group, List.head?_map, numeral_head, Option.map_some]

/-- The digits can be read back. -/
theorem map_hexValue_group (width n : Nat) :
    (group width n).map hexValue = numeral 16 width n := by
  rw [group, List.map_map]
  refine (List.map_congr_left fun d hd => ?_).trans (List.map_id _)
  exact hexValue_hexByte d (numeral_digit_lt (by omega) width n d hd)

theorem group_inj {width n m : Nat} (hn : n < 16 ^ width) (hm : m < 16 ^ width)
    (h : group width n = group width m) : n = m := by
  apply numeral_inj hn hm
  rw [← map_hexValue_group, ← map_hexValue_group, h]

theorem setw_append (width : Nat) (text : Bytes) (b : Byte) :
    setw (width + 1) (text ++ [b]) = setw width text ++ [b] := by
  rw [setw, setw, List.length_append, List.length_singleton, Nat.add_sub_add_right,
    List.append_assoc]

/-- A number that fits is written with leading zeros. -/
theorem setw_hex {width n : Nat} (hn : n < 16 ^ (width + 1)) :
    setw (width + 1) (hex n) = group (width + 1) n := by
  induction width generalizing n with
  | zero =>
    have hlt : n < 16 := by omega
    rw [hex, Nat.toDigits_of_lt_base hlt, group, numeral, numeral,
      Nat.mod_eq_of_lt hlt]
    rfl
  | succ width ih =>
    rcases Nat.lt_or_ge n 16 with hlt | hge
    · rw [hex, Nat.toDigits_of_lt_base hlt, group_succ, Nat.div_eq_of_lt hlt,
        Nat.mod_eq_of_lt hlt, group, numeral_zero, List.map_replicate]
      rfl
    · have hlead : n / 16 < 16 ^ (width + 1) := by
        rw [Nat.pow_succ] at hn
        omega
      have hsplit : hex n = hex (n / 16) ++ [hexByte (n % 16)] := by
        rw [hex, Nat.toDigits_of_base_le (by omega) hge, List.map_append]
        rfl
      rw [hsplit, setw_append, ih hlead, ← group_succ]

/-! ## The two words -/

/-- The version, put into the first number. -/
def withVersion (a : BitVec 64) : BitVec 64 :=
  stamp 0xFFFFFFFFFFFF0FFF#64 0x0000000000004000#64 a

/-- The variant, put into the second. -/
def withVariant (b : BitVec 64) : BitVec 64 :=
  stamp 0x3FFFFFFFFFFFFFFF#64 0x8000000000000000#64 b

/-- The version replaces four bits. -/
theorem withVersion_eq_iff (a a' : BitVec 64) :
    withVersion a = withVersion a' ↔
      ∀ i < 64, ¬ (12 ≤ i ∧ i < 16) → a.getLsbD i = a'.getLsbD i := by
  have hfree : ∀ i < 64, (BitVec.getLsbD 0xFFFFFFFFFFFF0FFF#64 i = true ∧
      BitVec.getLsbD 0x0000000000004000#64 i = false) ↔ ¬ (12 ≤ i ∧ i < 16) := by
    decide +kernel
  unfold withVersion
  rw [stamp_eq_iff]
  refine forall_congr' fun i => forall_congr' fun hi => ?_
  rw [← hfree i hi, and_imp]

/-- The variant replaces two. -/
theorem withVariant_eq_iff (b b' : BitVec 64) :
    withVariant b = withVariant b' ↔
      ∀ i < 64, ¬ (62 ≤ i ∧ i < 64) → b.getLsbD i = b'.getLsbD i := by
  have hfree : ∀ i < 64, (BitVec.getLsbD 0x3FFFFFFFFFFFFFFF#64 i = true ∧
      BitVec.getLsbD 0x8000000000000000#64 i = false) ↔ ¬ (62 ≤ i ∧ i < 64) := by
    decide +kernel
  unfold withVariant
  rw [stamp_eq_iff]
  refine forall_congr' fun i => forall_congr' fun hi => ?_
  rw [← hfree i hi, and_imp]

/-- The version digit. -/
theorem withVersion_digit (a : BitVec 64) :
    (withVersion a).toNat / 2 ^ 12 % 2 ^ 4 = 4 :=
  stamp_field a 12 4 (by decide)

/-- The two bits of the variant. -/
theorem withVariant_bits (b : BitVec 64) :
    (withVariant b).toNat / 2 ^ 62 % 2 ^ 2 = 2 :=
  stamp_field b 62 2 (by decide)

/-! ## The id -/

/-- Two words, written in the groups of an id. -/
def layout (a b : BitVec 64) : Bytes :=
  group 8 (a.toNat / 2 ^ 32 % 2 ^ 32) ++ ascii "-" ++
    group 4 (a.toNat / 2 ^ 16 % 2 ^ 16) ++ ascii "-" ++
    group 4 (a.toNat % 2 ^ 16) ++ ascii "-" ++
    group 4 (b.toNat / 2 ^ 48 % 2 ^ 16) ++ ascii "-" ++
    group 12 (b.toNat % 2 ^ 48)

/-- The width set for a field of a word holds all its digits. -/
theorem setw_field (w : BitVec 64) (low width : Nat) {ones : BitVec 64}
    (hones : ones.toNat = 2 ^ (4 * (width + 1)) - 1) :
    setw (width + 1) (hex ((w >>> low) &&& ones).toNat) =
      group (width + 1) (w.toNat / 2 ^ low % 2 ^ (4 * (width + 1))) := by
  have hpow : 2 ^ (4 * (width + 1)) = 16 ^ (width + 1) :=
    Nat.pow_mul 2 4 (width + 1)
  rw [toNat_field w low hones, setw_hex]
  rw [hpow]
  exact Nat.mod_lt _ (Nat.pow_pos (by omega))

theorem setw_low_field (w : BitVec 64) (width : Nat) {ones : BitVec 64}
    (hones : ones.toNat = 2 ^ (4 * (width + 1)) - 1) :
    setw (width + 1) (hex (w &&& ones).toNat) =
      group (width + 1) (w.toNat % 2 ^ (4 * (width + 1))) := by
  have hfield := setw_field w 0 width hones
  rwa [BitVec.ushiftRight_zero, Nat.pow_zero, Nat.div_one] at hfield

theorem generateUuidV4_eq (a b : BitVec 64) :
    generateUuidV4 a b = layout (withVersion a) (withVariant b) := by
  have h32 : BitVec.toNat 0xFFFFFFFF#64 = 2 ^ (4 * 8) - 1 := rfl
  have h16 : BitVec.toNat 0xFFFF#64 = 2 ^ (4 * 4) - 1 := rfl
  have h48 : BitVec.toNat 0xFFFFFFFFFFFF#64 = 2 ^ (4 * 12) - 1 := rfl
  calc generateUuidV4 a b
      = setw 8 (hex ((withVersion a >>> 32) &&& 0xFFFFFFFF#64).toNat) ++
        ascii "-" ++
          setw 4 (hex ((withVersion a >>> 16) &&& 0xFFFF#64).toNat) ++ ascii "-" ++
          setw 4 (hex (withVersion a &&& 0xFFFF#64).toNat) ++ ascii "-" ++
          setw 4 (hex ((withVariant b >>> 48) &&& 0xFFFF#64).toNat) ++ ascii "-" ++
          setw 12 (hex (withVariant b &&& 0xFFFFFFFFFFFF#64).toNat) := rfl
    _ = layout (withVersion a) (withVariant b) := by
        rw [setw_field (withVersion a) 32 7 h32,
          setw_field (withVersion a) 16 3 h16,
          setw_low_field (withVersion a) 3 h16,
          setw_field (withVariant b) 48 3 h16,
          setw_low_field (withVariant b) 11 h48]
        rfl

theorem layout_length (a b : BitVec 64) : (layout a b).length = 36 := by
  have hhyphen : (ascii "-").length = 1 := rfl
  simp only [layout, List.length_append, group_length, hhyphen]

/-- The fields of a word cover it: the groups determine both words. -/
theorem layout_inj {a b a' b' : BitVec 64} (h : layout a b = layout a' b') :
    a = a' ∧ b = b' := by
  have hfield : ∀ width n m : Nat, group width (n % 16 ^ width) =
      group width (m % 16 ^ width) →
      n % 16 ^ width = m % 16 ^ width := by
    intro width n m hgroup
    have hpos : 0 < 16 ^ width := Nat.pow_pos (by omega)
    exact group_inj (Nat.mod_lt n hpos) (Nat.mod_lt m hpos) hgroup
  unfold layout at h
  -- every group has its width, so that the text splits in one way only
  obtain ⟨h, h₅⟩ := List.append_inj' h (by simp)
  obtain ⟨h, _⟩ := List.append_inj' h (by simp)
  obtain ⟨h, h₄⟩ := List.append_inj' h (by simp)
  obtain ⟨h, _⟩ := List.append_inj' h (by simp)
  obtain ⟨h, h₃⟩ := List.append_inj' h (by simp)
  obtain ⟨h, _⟩ := List.append_inj' h (by simp)
  obtain ⟨h, h₂⟩ := List.append_inj' h (by simp)
  obtain ⟨h₁, _⟩ := List.append_inj' h (by simp)
  have h₁ := hfield 8 _ _ h₁
  have h₂ := hfield 4 _ _ h₂
  have h₃ := hfield 4 _ _ h₃
  have h₄ := hfield 4 _ _ h₄
  have h₅ := hfield 12 _ _ h₅
  have ha := a.isLt
  have ha' := a'.isLt
  have hb := b.isLt
  have hb' := b'.isLt
  constructor
  · apply BitVec.eq_of_toNat_eq
    omega
  · apply BitVec.eq_of_toNat_eq
    omega

/-- A group of an id. -/
def IsGroup (width : Nat) (text : Bytes) : Prop :=
  text.length = width ∧ ∀ b ∈ text, IsHexDigit b

theorem isGroup_group (width n : Nat) : IsGroup width (group width n) :=
  ⟨group_length width n, group_digits width n⟩

/-- A UUID of version 4: the version digit is `4`, and that of the variant one of
`8`, `9`, `a` and `b`. -/
def IsUuidV4 (text : Bytes) : Prop :=
  ∃ g₁ g₂ g₃ g₄ g₅ : Bytes,
    text = g₁ ++ ascii "-" ++ g₂ ++ ascii "-" ++ g₃ ++ ascii "-" ++ g₄ ++
      ascii "-" ++ g₅ ∧
      IsGroup 8 g₁ ∧ IsGroup 4 g₂ ∧ IsGroup 4 g₃ ∧ IsGroup 4 g₄ ∧ IsGroup 12 g₅ ∧
      g₃.head? = some 52 ∧
      (g₄.head? = some 56 ∨ g₄.head? = some 57 ∨ g₄.head? = some 97 ∨
        g₄.head? = some 98)

theorem isUuidV4_generate (a b : BitVec 64) : IsUuidV4 (generateUuidV4 a b) := by
  have hversion := withVersion_digit a
  have hvariant := withVariant_bits b
  rw [generateUuidV4_eq]
  refine ⟨_, _, _, _, _, rfl, isGroup_group 8 _, isGroup_group 4 _,
    isGroup_group 4 _,
    isGroup_group 4 _, isGroup_group 12 _, ?_, ?_⟩
  · rw [group_head 3]
    have hdigit : (withVersion a).toNat % 2 ^ 16 / 16 ^ 3 % 16 = 4 := by omega
    rw [hdigit]
    rfl
  · rw [group_head 3]
    have hword := (withVariant b).isLt
    have hdigit :
        ∃ d, (withVariant b).toNat / 2 ^ 48 % 2 ^ 16 / 16 ^ 3 % 16 = 8 + d ∧
        d < 4 := by
      refine ⟨(withVariant b).toNat / 2 ^ 60 % 4, by omega, by omega⟩
    obtain ⟨d, hd, hlt⟩ := hdigit
    rw [hd]
    match d, hlt with
    | 0, _ => exact Or.inl rfl
    | 1, _ => exact Or.inr (Or.inl rfl)
    | 2, _ => exact Or.inr (Or.inr (Or.inl rfl))
    | 3, _ => exact Or.inr (Or.inr (Or.inr rfl))

/-- An id is a UUID of version 4, and keeps of the numbers drawn everything but the
four bits of the version and the two of the variant. -/
theorem generateUuidV4_keeps (a b : BitVec 64) :
    (generateUuidV4 a b).length = 36 ∧ IsUuidV4 (generateUuidV4 a b) ∧
      ∀ a' b' : BitVec 64, generateUuidV4 a b = generateUuidV4 a' b' ↔
        (∀ i < 64, ¬ (12 ≤ i ∧ i < 16) → a.getLsbD i = a'.getLsbD i) ∧
          ∀ i < 64, ¬ (62 ≤ i ∧ i < 64) → b.getLsbD i = b'.getLsbD i := by
  refine ⟨?_, isUuidV4_generate a b, fun a' b' => ?_⟩
  · rw [generateUuidV4_eq, layout_length]
  · rw [generateUuidV4_eq, generateUuidV4_eq, ← withVersion_eq_iff,
      ← withVariant_eq_iff]
    constructor
    · exact layout_inj
    · intro h
      rw [h.1, h.2]

end UniServer.Common
