/-
  Http/JsonText.lean --- the compact text of a JSON document, and that a document
  can be read back from it.

  `compact` is what `dump()` writes: no blanks, strings escaped as the library does
  it without `ensure_ascii`, numbers in decimal.  The shortest decimal form of a
  floating-point number is left open.

  The text of a document tells where it ends, whatever follows it (a number, where
  no digit follows): two documents that begin the same text are the same document
  (`compact_split`).  How a number is stored makes no difference, as it makes none
  to `operator==`.
-/
import UniServer.Common.Uuid
import UniServer.Http.Json

set_option autoImplicit false

namespace UniServer.Http

open UniServer.Foundation UniServer.Common

/-! ## Writing -/

/-- `dump_escaped`, for one octet. -/
def escapeByte (b : Byte) : Bytes :=
  if b = 8 then ascii "\\b"
  else if b = 9 then ascii "\\t"
  else if b = 10 then ascii "\\n"
  else if b = 12 then ascii "\\f"
  else if b = 13 then ascii "\\r"
  else if b = 34 then ascii "\\\""
  else if b = 92 then ascii "\\\\"
  else if b.toNat < 32 then ascii "\\u" ++ setw 4 (hex b.toNat)
  else [b]

/-- `dump_escaped`. -/
def escape (text : Bytes) : Bytes := text.flatMap escapeByte

/-- A string, in quotation marks. -/
def quote (text : Bytes) : Bytes := 34 :: (escape text ++ [34])

/-- `dump_integer`. -/
def integerText (i : Int) : Bytes :=
  if i < 0 then 45 :: decimal i.natAbs else decimal i.natAbs

namespace Json

section Writer

/- How a floating-point number is written. -/
variable (float : UInt64 → Bytes)

mutual

/-- `dump()`. -/
def compact : Json → Bytes
  | .null => ascii "null"
  | .bool true => ascii "true"
  | .bool false => ascii "false"
  | .number (.integer i) => integerText i
  | .number (.unsigned n) => decimal n
  | .number (.float bits) => float bits
  | .string text => quote text
  | .array [] => [91, 93]
  | .array (item :: items) => 91 :: (compact item ++ itemsBehind items)
  | .object [] => [123, 125]
  | .object ((name, value) :: members) =>
      123 :: (quote name ++ 58 :: (compact value ++ membersBehind members))

/-- The other items of an array, and its end. -/
def itemsBehind : List Json → Bytes
  | [] => [93]
  | item :: items => 44 :: (compact item ++ itemsBehind items)

/-- The other members of an object, and its end. -/
def membersBehind : List (Bytes × Json) → Bytes
  | [] => [125]
  | (name, value) :: members =>
      44 :: (quote name ++ 58 :: (compact value ++ membersBehind members))

end

end Writer

/-! ## What a text does not tell -/

mutual

/-- No number of the document is a floating-point number. -/
def floatFree : Json → Bool
  | .null => true
  | .bool _ => true
  | .number (.float _) => false
  | .number _ => true
  | .string _ => true
  | .array items => itemsFloatFree items
  | .object members => membersFloatFree members

def itemsFloatFree : List Json → Bool
  | [] => true
  | item :: items => floatFree item && itemsFloatFree items

def membersFloatFree : List (Bytes × Json) → Bool
  | [] => true
  | (_, value) :: members => floatFree value && membersFloatFree members

end

mutual

/-- The document with all its whole numbers stored in one way. -/
def normal : Json → Json
  | .null => .null
  | .bool b => .bool b
  | .number (.integer i) => .number (.integer i)
  | .number (.unsigned n) => .number (.integer n)
  | .number (.float bits) => .number (.float bits)
  | .string text => .string text
  | .array items => .array (normalItems items)
  | .object members => .object (normalMembers members)

def normalItems : List Json → List Json
  | [] => []
  | item :: items => normal item :: normalItems items

def normalMembers : List (Bytes × Json) → List (Bytes × Json)
  | [] => []
  | (name, value) :: members => (name, normal value) :: normalMembers members

end

end Json

example :
    (Json.object [(ascii "n", .number (.integer (-12))),
      (ascii "s", .array [.string [10, 34, 1], .null])]).compact (fun _ => []) =
    ascii "\x7b\"n\":-12,\"s\":[\"\\n\\\"\\u0001\",null]\x7d" := by
  decide +kernel

/-! ## Reading back: strings -/

theorem tail_append {b c : Byte} {s t x y : Bytes} (h : b :: s ++ x = c :: t ++ y) :
    s ++ x = t ++ y :=
  (List.cons.inj h).2

/-- An octet that is written as it is. -/
def Unescaped (b : Byte) : Prop := 32 ≤ b.toNat ∧ b ≠ 34 ∧ b ≠ 92

theorem escapeByte_unescaped {b : Byte} (h : Unescaped b) : escapeByte b = [b] := by
  obtain ⟨hlow, hquote, hslash⟩ := h
  have hne : ∀ c : Byte, c.toNat < 32 → b ≠ c := by
    intro c hc heq
    rw [heq] at hlow
    omega
  unfold escapeByte
  rw [if_neg (hne 8 (by decide)), if_neg (hne 9 (by decide)),
    if_neg (hne 10 (by decide)), if_neg (hne 12 (by decide)),
    if_neg (hne 13 (by decide)), if_neg hquote, if_neg hslash, if_neg (by omega)]

/-- The octets that are not. -/
def escapedBytes : Bytes := (List.range 32).map UInt8.ofNat ++ [34, 92]

theorem mem_escapedBytes {b : Byte} (h : ¬ Unescaped b) : b ∈ escapedBytes := by
  unfold Unescaped at h
  rcases Nat.lt_or_ge b.toNat 32 with hlow | hhigh
  · refine List.mem_append_left _ (List.mem_map.mpr ⟨b.toNat, ?_, ?_⟩)
    · exact List.mem_range.mpr hlow
    · exact UInt8.ofNat_toNat
  · refine List.mem_append_right _ ?_
    by_contra hno
    rw [List.mem_cons, List.mem_singleton, not_or] at hno
    exact h ⟨hhigh, hno⟩

/-- Their escapes begin with a backslash, and none of them begins another. -/
theorem escapes_split : ∀ b ∈ escapedBytes, (escapeByte b).head? = some 92 ∧
    ∀ c ∈ escapedBytes, escapeByte b <+: escapeByte c → b = c := by
  have hheads : ∀ b ∈ escapedBytes, (escapeByte b).head? = some 92 :=
    forall_of_all (by decide +kernel)
  have honly : ∀ c ∈ escapedBytes, (escapedBytes.filter fun b =>
      (escapeByte b).isPrefixOf (escapeByte c)) = [c] :=
    forall_of_all (by decide +kernel)
  refine fun b hb => ⟨hheads b hb, fun c hc hprefix => ?_⟩
  have hmem : b ∈ escapedBytes.filter fun b =>
      (escapeByte b).isPrefixOf (escapeByte c) :=
    List.mem_filter.mpr ⟨hb, List.isPrefixOf_iff_prefix.mpr hprefix⟩
  rw [honly c hc] at hmem
  exact List.mem_singleton.mp hmem

theorem escapeByte_split {b c : Byte} {x y : Bytes}
    (h : escapeByte b ++ x = escapeByte c ++ y) : b = c ∧ x = y := by
  have hbc : b = c := by
    by_cases hb : Unescaped b
    · by_cases hc : Unescaped c
      · rw [escapeByte_unescaped hb, escapeByte_unescaped hc] at h
        exact (List.cons.inj h).1
      · -- an escape begins with a backslash, and `b` is none
        have hhead := (escapes_split c (mem_escapedBytes hc)).1
        have hfirst := congrArg List.head? h
        rw [escapeByte_unescaped hb, List.head?_append, List.head?_append,
          hhead] at hfirst
        exact absurd (Option.some_inj.mp hfirst) hb.2.2
    · have hescape := escapes_split b (mem_escapedBytes hb)
      by_cases hc : Unescaped c
      · have hfirst := congrArg List.head? h
        rw [escapeByte_unescaped hc, List.head?_append, hescape.1] at hfirst
        exact absurd (Option.some_inj.mp hfirst).symm hc.2.2
      · rcases List.append_eq_append_iff.mp h with ⟨t, ht, _⟩ | ⟨t, ht, _⟩
        · exact hescape.2 c (mem_escapedBytes hc) ⟨t, ht.symm⟩
        · exact ((escapes_split c (mem_escapedBytes hc)).2 b (mem_escapedBytes hb)
            ⟨t, ht.symm⟩).symm
  refine ⟨hbc, ?_⟩
  rw [hbc] at h
  exact List.append_cancel_left h

/-- No escape begins with the quotation mark that ends a string. -/
theorem escapeByte_ne_quote (b : Byte) (x y : Bytes) :
    escapeByte b ++ x ≠ 34 :: y := by
  intro h
  have hfirst := congrArg List.head? h
  by_cases hb : Unescaped b
  · rw [escapeByte_unescaped hb] at hfirst
    exact hb.2.1 (Option.some_inj.mp hfirst)
  · rw [List.head?_append, (escapes_split b (mem_escapedBytes hb)).1] at hfirst
    cases hfirst

theorem escape_split {s t x y : Bytes}
    (h : escape s ++ 34 :: x = escape t ++ 34 :: y) :
    s = t ∧ x = y := by
  induction s generalizing t with
  | nil =>
    cases t with
    | nil => exact ⟨rfl, (List.cons.inj h).2⟩
    | cons c t =>
      rw [escape, escape, List.flatMap_cons, List.append_assoc] at h
      exact absurd h.symm (escapeByte_ne_quote c _ _)
  | cons b s ih =>
    rw [escape, List.flatMap_cons, List.append_assoc] at h
    cases t with
    | nil => exact absurd h (escapeByte_ne_quote b _ _)
    | cons c t =>
      rw [escape, List.flatMap_cons, List.append_assoc] at h
      obtain ⟨hbc, hrest⟩ := escapeByte_split h
      obtain ⟨hst, hxy⟩ := ih hrest
      exact ⟨by rw [hbc, hst], hxy⟩

theorem quote_split {s t x y : Bytes} (h : quote s ++ x = quote t ++ y) :
    s = t ∧ x = y := by
  apply escape_split
  have htail := tail_append h
  rwa [List.append_assoc, List.append_assoc] at htail

/-! ## Reading back: numbers -/

/-- `0` to `9`. -/
def isDigit (b : Byte) : Bool := decide (48 ≤ b.toNat ∧ b.toNat ≤ 57)

/-- What follows a number does not go on with a digit. -/
def Stops (text : Bytes) : Prop := ∀ b, text.head? = some b → isDigit b = false

theorem stops_cons {b : Byte} (h : isDigit b = false) (text : Bytes) :
    Stops (b :: text) := by
  intro c hc
  rw [← Option.some_inj.mp hc]
  exact h

theorem takeWhile_decimal (n : Nat) {x : Bytes} (hx : Stops x) :
    (decimal n ++ x).takeWhile isDigit = decimal n := by
  have hdigits : ∀ b ∈ decimal n, isDigit b = true := by
    intro b hb
    exact decide_eq_true (decimal_digits n b hb)
  have hnone : x.takeWhile isDigit = [] := by
    cases x with
    | nil => rfl
    | cons b x => rw [List.takeWhile_cons, hx b rfl]; rfl
  rw [List.takeWhile_append_of_pos hdigits, hnone, List.append_nil]

theorem decimal_split {n m : Nat} {x y : Bytes} (hx : Stops x) (hy : Stops y)
    (h : decimal n ++ x = decimal m ++ y) : n = m ∧ x = y := by
  have hdecimal : decimal n = decimal m := by
    rw [← takeWhile_decimal n hx, h, takeWhile_decimal m hy]
  refine ⟨?_, ?_⟩
  · rw [← readDecimal_decimal n, hdecimal, readDecimal_decimal]
  · rw [hdecimal] at h
    exact List.append_cancel_left h

theorem decimal_head (n : Nat) :
    ∃ b text, decimal n = b :: text ∧ isDigit b = true := by
  cases hn : decimal n with
  | nil =>
    have hread := readDecimal_decimal n
    rw [hn] at hread
    rw [← hread] at hn
    exact absurd hn (by decide)
  | cons b text =>
    refine ⟨b, text, rfl, ?_⟩
    have hdigit := decimal_digits n b (by rw [hn]; exact List.mem_cons_self)
    exact decide_eq_true hdigit

theorem integerText_split {i j : Int} {x y : Bytes} (hx : Stops x) (hy : Stops y)
    (h : integerText i ++ x = integerText j ++ y) : i = j ∧ x = y := by
  have hminus : ∀ (n : Nat) (s t : Bytes), decimal n ++ s ≠ 45 :: t := by
    intro n s t hst
    obtain ⟨b, text, hn, hb⟩ := decimal_head n
    rw [hn, List.cons_append] at hst
    rw [(List.cons.inj hst).1] at hb
    cases hb
  unfold integerText at h
  by_cases hi : i < 0
  · by_cases hj : j < 0
    · rw [if_pos hi, if_pos hj] at h
      obtain ⟨habs, hxy⟩ := decimal_split hx hy (List.cons.inj h).2
      exact ⟨by omega, hxy⟩
    · rw [if_pos hi, if_neg hj] at h
      exact absurd h.symm (hminus _ _ _)
  · by_cases hj : j < 0
    · rw [if_neg hi, if_pos hj] at h
      exact absurd h (hminus _ _ _)
    · rw [if_neg hi, if_neg hj] at h
      obtain ⟨habs, hxy⟩ := decimal_split hx hy h
      exact ⟨by omega, hxy⟩

/-! ## Reading back: documents -/

namespace Json

/-- What a document is, as far as its first octet tells. -/
inductive Kind where
  | null
  | true
  | false
  | number
  | string
  | array
  | object
  deriving DecidableEq

def kind : Json → Kind
  | .null => .null
  | .bool true => .true
  | .bool false => .false
  | .number _ => .number
  | .string _ => .string
  | .array _ => .array
  | .object _ => .object

/-- What begins with this octet. -/
def kindOf (b : Byte) : Option Kind :=
  if b = 110 then some .null
  else if b = 116 then some .true
  else if b = 102 then some .false
  else if b = 34 then some .string
  else if b = 91 then some .array
  else if b = 123 then some .object
  else if b = 45 ∨ isDigit b then some .number
  else none

variable {float : UInt64 → Bytes}

theorem kindOf_digit {b : Byte} (h : isDigit b = true) :
    kindOf b = some .number := by
  have hne : ∀ c : Byte, isDigit c = false → b ≠ c := by
    intro c hc heq
    rw [heq, hc] at h
    cases h
  unfold kindOf
  rw [if_neg (hne 110 rfl), if_neg (hne 116 rfl), if_neg (hne 102 rfl),
    if_neg (hne 34 rfl), if_neg (hne 91 rfl), if_neg (hne 123 rfl),
    if_pos (Or.inr h)]

theorem compact_head (d : Json) (h : d.floatFree = true) :
    ∃ b text, d.compact float = b :: text ∧ kindOf b = some d.kind := by
  cases d with
  | null => exact ⟨110, ascii "ull", by rw [compact]; decide +kernel, rfl⟩
  | bool b =>
    cases b with
    | true => exact ⟨116, ascii "rue", by rw [compact]; decide +kernel, rfl⟩
    | false => exact ⟨102, ascii "alse", by rw [compact]; decide +kernel, rfl⟩
  | number n =>
    cases n with
    | integer i =>
      rw [compact, integerText]
      split
      · exact ⟨45, _, rfl, rfl⟩
      · obtain ⟨b, text, htext, hb⟩ := decimal_head i.natAbs
        exact ⟨b, text, htext, kindOf_digit hb⟩
    | unsigned n =>
      obtain ⟨b, text, htext, hb⟩ := decimal_head n
      rw [compact]
      exact ⟨b, text, htext, kindOf_digit hb⟩
    | float bits => cases h
  | string text =>
    rw [compact]
    exact ⟨34, _, rfl, rfl⟩
  | array items =>
    cases items with
    | nil =>
      rw [compact]
      exact ⟨91, _, rfl, rfl⟩
    | cons item items =>
      rw [compact]
      exact ⟨91, _, rfl, rfl⟩
  | object members =>
    cases members with
    | nil =>
      rw [compact]
      exact ⟨123, _, rfl, rfl⟩
    | cons member members =>
      rw [compact]
      exact ⟨123, _, rfl, rfl⟩

/-- Texts that begin alike begin with documents of one kind. -/
theorem kind_eq {d e : Json} (hd : d.floatFree = true) (he : e.floatFree = true)
    {x y : Bytes} (h : d.compact float ++ x = e.compact float ++ y) :
    d.kind = e.kind := by
  obtain ⟨b, s, hs, hb⟩ := @compact_head float d hd
  obtain ⟨c, t, ht, hc⟩ := @compact_head float e he
  rw [hs, ht] at h
  rw [(List.cons.inj h).1, hc] at hb
  exact (Option.some_inj.mp hb).symm

/-- No document begins with this octet. -/
theorem compact_ne_cons {d : Json} (hd : d.floatFree = true) {b : Byte}
    (hb : kindOf b = none) (x y : Bytes) : d.compact float ++ x ≠ b :: y := by
  intro h
  obtain ⟨c, t, ht, hc⟩ := @compact_head float d hd
  rw [ht] at h
  rw [(List.cons.inj h).1, hb] at hc
  cases hc

theorem integerText_natCast (n : Nat) : integerText (n : Int) = decimal n := by
  rw [integerText, if_neg (by omega), Int.natAbs_natCast]

/-- A whole number is written as its value, however it is stored. -/
theorem compact_number {n : JsonNumber} (h : floatFree (.number n) = true) :
    ∃ i : Int, compact float (.number n) = integerText i ∧
      normal (.number n) = .number (.integer i) := by
  cases n with
  | integer i => exact ⟨i, by rw [compact], by rw [normal]⟩
  | unsigned n =>
    refine ⟨n, ?_, by rw [normal]⟩
    rw [compact, integerText_natCast]
  | float bits => cases h

theorem stops_itemsBehind (items : List Json) (x : Bytes) :
    Stops (itemsBehind float items ++ x) := by
  cases items with
  | nil =>
    rw [itemsBehind]
    exact stops_cons rfl _
  | cons item items =>
    rw [itemsBehind]
    exact stops_cons rfl _

theorem stops_membersBehind (members : List (Bytes × Json)) (x : Bytes) :
    Stops (membersBehind float members ++ x) := by
  cases members with
  | nil =>
    rw [membersBehind]
    exact stops_cons rfl _
  | cons member members =>
    rw [membersBehind]
    exact stops_cons rfl _

/-- Arrays that begin one text have items that do, each written behind a comma. -/
theorem itemsBehind_of_array {items items' : List Json} {x y : Bytes}
    (hd : itemsFloatFree items = true) (he : itemsFloatFree items' = true)
    (h : compact float (.array items) ++ x = compact float (.array items') ++ y) :
    itemsBehind float items ++ x = itemsBehind float items' ++ y := by
  cases items with
  | nil =>
    cases items' with
    | nil =>
      rw [compact] at h
      rw [itemsBehind]
      exact tail_append h
    | cons item' items' =>
      obtain ⟨hitem', _⟩ := Bool.and_eq_true_iff.mp he
      rw [compact, compact] at h
      have hrest := tail_append h
      rw [List.append_assoc] at hrest
      exact absurd hrest.symm (compact_ne_cons hitem' rfl _ _)
  | cons item items =>
    obtain ⟨hitem, _⟩ := Bool.and_eq_true_iff.mp hd
    rw [compact] at h
    cases items' with
    | nil =>
      rw [compact] at h
      have hrest := tail_append h
      rw [List.append_assoc] at hrest
      exact absurd hrest (compact_ne_cons hitem rfl _ _)
    | cons item' items' =>
      rw [compact] at h
      rw [itemsBehind, itemsBehind]
      exact congrArg (44 :: ·) (tail_append h)

/-- The same of objects: a name begins with a quotation mark. -/
theorem membersBehind_of_object {members members' : List (Bytes × Json)}
    {x y : Bytes}
    (h : compact float (.object members) ++ x =
      compact float (.object members') ++ y) :
    membersBehind float members ++ x = membersBehind float members' ++ y := by
  cases members with
  | nil =>
    cases members' with
    | nil =>
      rw [compact] at h
      rw [membersBehind]
      exact tail_append h
    | cons member' members' =>
      rw [compact, compact] at h
      exact absurd (List.cons.inj (List.cons.inj h).2).1 (by decide)
  | cons member members =>
    rw [compact] at h
    cases members' with
    | nil =>
      rw [compact] at h
      exact absurd (List.cons.inj (List.cons.inj h).2).1 (by decide)
    | cons member' members' =>
      rw [compact] at h
      rw [membersBehind, membersBehind]
      exact congrArg (44 :: ·) (tail_append h)

mutual

/-- Documents that begin one text are the same, and leave the same text. -/
theorem compact_split : ∀ (d e : Json) (x y : Bytes), d.floatFree = true →
    e.floatFree = true → Stops x → Stops y →
    d.compact float ++ x = e.compact float ++ y → d.normal = e.normal ∧ x = y
  | .null, e, x, y, hd, he, _, _, h => by
      have hkind := kind_eq hd he h
      cases e with
      | null => exact ⟨rfl, List.append_cancel_left h⟩
      | bool b => cases b <;> cases hkind
      | _ => cases hkind
  | .bool true, e, x, y, hd, he, _, _, h => by
      have hkind := kind_eq hd he h
      cases e with
      | bool b =>
        cases b with
        | true => exact ⟨rfl, List.append_cancel_left h⟩
        | false => cases hkind
      | _ => cases hkind
  | .bool false, e, x, y, hd, he, _, _, h => by
      have hkind := kind_eq hd he h
      cases e with
      | bool b =>
        cases b with
        | true => cases hkind
        | false => exact ⟨rfl, List.append_cancel_left h⟩
      | _ => cases hkind
  | .number n, e, x, y, hd, he, hx, hy, h => by
      have hkind := kind_eq hd he h
      cases e with
      | number m =>
        obtain ⟨i, htext, hnormal⟩ := @compact_number float _ hd
        obtain ⟨j, htext', hnormal'⟩ := @compact_number float _ he
        rw [htext, htext'] at h
        obtain ⟨hij, hxy⟩ := integerText_split hx hy h
        exact ⟨by rw [hnormal, hnormal', hij], hxy⟩
      | bool b => cases b <;> cases hkind
      | _ => cases hkind
  | .string s, e, x, y, hd, he, _, _, h => by
      have hkind := kind_eq hd he h
      cases e with
      | string t =>
        rw [compact, compact] at h
        obtain ⟨hst, hxy⟩ := quote_split h
        exact ⟨by rw [hst], hxy⟩
      | bool b => cases b <;> cases hkind
      | _ => cases hkind
  | .array items, e, x, y, hd, he, _, _, h => by
      have hkind := kind_eq hd he h
      cases e with
      | array items' =>
        obtain ⟨hsame, hxy⟩ := itemsBehind_split items items' x y hd he
          (itemsBehind_of_array hd he h)
        exact ⟨by rw [normal, normal, hsame], hxy⟩
      | bool b => cases b <;> cases hkind
      | _ => cases hkind
  | .object members, e, x, y, hd, he, _, _, h => by
      have hkind := kind_eq hd he h
      cases e with
      | object members' =>
        obtain ⟨hsame, hxy⟩ := membersBehind_split members members' x y hd he
          (membersBehind_of_object h)
        exact ⟨by rw [normal, normal, hsame], hxy⟩
      | bool b => cases b <;> cases hkind
      | _ => cases hkind

theorem itemsBehind_split : ∀ (items items' : List Json) (x y : Bytes),
    itemsFloatFree items = true → itemsFloatFree items' = true →
    itemsBehind float items ++ x = itemsBehind float items' ++ y →
    normalItems items = normalItems items' ∧ x = y
  | [], [], x, y, _, _, h => ⟨rfl, List.append_cancel_left h⟩
  | [], item :: items, x, y, _, _, h => by
      rw [itemsBehind, itemsBehind] at h
      exact absurd (List.cons.inj h).1 (by decide)
  | item :: items, [], x, y, _, _, h => by
      rw [itemsBehind, itemsBehind] at h
      exact absurd (List.cons.inj h).1 (by decide)
  | item :: items, item' :: items', x, y, hd, he, h => by
      obtain ⟨hitem, hitems⟩ := Bool.and_eq_true_iff.mp hd
      obtain ⟨hitem', hitems'⟩ := Bool.and_eq_true_iff.mp he
      rw [itemsBehind, itemsBehind] at h
      have hrest := tail_append h
      rw [List.append_assoc, List.append_assoc] at hrest
      obtain ⟨hsame, hbehind⟩ := compact_split item item' _ _ hitem hitem'
        (stops_itemsBehind items x) (stops_itemsBehind items' y) hrest
      obtain ⟨hsames, hxy⟩ :=
        itemsBehind_split items items' x y hitems hitems' hbehind
      exact ⟨by rw [normalItems, normalItems, hsame, hsames], hxy⟩

theorem membersBehind_split : ∀ (members members' : List (Bytes × Json))
    (x y : Bytes), membersFloatFree members = true →
    membersFloatFree members' = true →
    membersBehind float members ++ x = membersBehind float members' ++ y →
    normalMembers members = normalMembers members' ∧ x = y
  | [], [], x, y, _, _, h => ⟨rfl, List.append_cancel_left h⟩
  | [], member :: members, x, y, _, _, h => by
      rw [membersBehind, membersBehind] at h
      exact absurd (List.cons.inj h).1 (by decide)
  | member :: members, [], x, y, _, _, h => by
      rw [membersBehind, membersBehind] at h
      exact absurd (List.cons.inj h).1 (by decide)
  | (name, value) :: members, (name', value') :: members', x, y, hd, he, h => by
      obtain ⟨hvalue, hmembers⟩ := Bool.and_eq_true_iff.mp hd
      obtain ⟨hvalue', hmembers'⟩ := Bool.and_eq_true_iff.mp he
      rw [membersBehind, membersBehind] at h
      have hrest := tail_append h
      rw [List.append_assoc, List.append_assoc] at hrest
      obtain ⟨hname, hrest⟩ := quote_split hrest
      have hrest := tail_append hrest
      rw [List.append_assoc, List.append_assoc] at hrest
      obtain ⟨hsame, hbehind⟩ := compact_split value value' _ _ hvalue hvalue'
        (stops_membersBehind members x) (stops_membersBehind members' y) hrest
      obtain ⟨hsames, hxy⟩ :=
        membersBehind_split members members' x y hmembers hmembers' hbehind
      exact ⟨by rw [normalMembers, normalMembers, hname, hsame, hsames], hxy⟩

end

/-- Two documents with the same text are the same. -/
theorem compact_inj {d e : Json} (hd : d.floatFree = true) (he : e.floatFree = true)
    (h : d.compact float = e.compact float) : d.normal = e.normal := by
  have hend : Stops [] := by
    intro b hb
    cases hb
  refine (@compact_split float d e [] [] hd he hend hend ?_).1
  rw [h]

end Json

end UniServer.Http
