/-
  Http/Json.lean --- the JSON library, as far as the server leans on it.

  `nlohmann::json` keeps the members of an object in a `std::map`, sorted by
  name; `nlohmann::ordered_json` keeps them in the order of their insertion.
  Both are the same tree here, whose objects list their members in the order the
  C++ object iterates over them: parsing with `json::parse` sorts (`sorted`),
  and the conversion to `ordered_json` keeps the order it finds.

  Reading a text and rendering a document are the library's own business and are
  the two fields of `Nlohmann`.  What the server depends on is when they throw:
  reading may raise `parse_error`, or `out_of_range` for a number literal too
  large for a double; rendering raises `type_error` exactly when some string of
  the document is not UTF-8.
-/
import UniServer.Foundation.Cxx

set_option autoImplicit false

namespace UniServer.Http

open UniServer.Foundation

/-! ## UTF-8 -/

/-- The ranges the octets behind a first octet must lie in, or none where no
UTF-8 character starts with it. -/
def utf8Owed (first : Nat) : Option (List (Nat × Nat)) :=
  if first < 0x80 then some []
  else if 0xC2 ≤ first ∧ first < 0xE0 then some [(0x80, 0xBF)]
  else if first = 0xE0 then some [(0xA0, 0xBF), (0x80, 0xBF)]
  else if first = 0xED then some [(0x80, 0x9F), (0x80, 0xBF)]
  else if 0xE1 ≤ first ∧ first < 0xF0 then some [(0x80, 0xBF), (0x80, 0xBF)]
  else if first = 0xF0 then some [(0x90, 0xBF), (0x80, 0xBF), (0x80, 0xBF)]
  else if 0xF1 ≤ first ∧ first < 0xF4 then
    some [(0x80, 0xBF), (0x80, 0xBF), (0x80, 0xBF)]
  else if first = 0xF4 then some [(0x80, 0x8F), (0x80, 0xBF), (0x80, 0xBF)]
  else none

/-- `text` completes a character that still owes these octets, and goes on with
whole characters. -/
def utf8From : List (Nat × Nat) → Bytes → Bool
  | [], [] => true
  | _ :: _, [] => false
  | [], b :: text =>
      match utf8Owed b.toNat with
      | some owed => utf8From owed text
      | none => false
  | (low, high) :: owed, b :: text =>
      decide (low ≤ b.toNat ∧ b.toNat ≤ high) && utf8From owed text

/-- The text is a sequence of UTF-8 characters. -/
def validUtf8 (text : Bytes) : Bool := utf8From [] text

theorem validUtf8_of_ascii {text : Bytes} (h : ∀ b ∈ text, b.toNat < 128) :
    validUtf8 text = true := by
  unfold validUtf8
  induction text with
  | nil => rfl
  | cons b text ih =>
    have hb : b.toNat < 128 := h b List.mem_cons_self
    have howed : utf8Owed b.toNat = some [] := if_pos hb
    rw [utf8From, howed]
    exact ih fun c hc => h c (List.mem_cons_of_mem b hc)

/-! ## Documents -/

/-- A number, as the library stores it. -/
inductive JsonNumber where
  /-- `number_integer` -/
  | integer (i : Int)
  /-- `number_unsigned` -/
  | unsigned (n : Nat)
  /-- `number_float`, by its bits -/
  | float (bits : UInt64)
  deriving DecidableEq, Repr

/-- A JSON document; objects list their members in iteration order. -/
inductive Json where
  | null
  | bool (b : Bool)
  | number (n : JsonNumber)
  | string (text : Bytes)
  | array (items : List Json)
  | object (members : List (Bytes × Json))

namespace Json

/-! ### Which documents can be dumped -/

mutual

/-- Every string of the document, names included, is UTF-8. -/
def dumpable : Json → Bool
  | .null => true
  | .bool _ => true
  | .number _ => true
  | .string text => validUtf8 text
  | .array items => itemsDumpable items
  | .object members => membersDumpable members

def itemsDumpable : List Json → Bool
  | [] => true
  | item :: items => dumpable item && itemsDumpable items

def membersDumpable : List (Bytes × Json) → Bool
  | [] => true
  | (name, value) :: members =>
      validUtf8 name && dumpable value && membersDumpable members

end

/-! ### The order of `std::map` -/

/-- `std::less<std::string>`: octet by octet, a prefix first. -/
def nameLess : Bytes → Bytes → Bool
  | _, [] => false
  | [], _ :: _ => true
  | a :: s, b :: t => if a = b then nameLess s t else decide (a < b)

/-- `map[name] = value` on a sorted list of members. -/
def insertSorted (name : Bytes) (value : Json) :
    List (Bytes × Json) → List (Bytes × Json)
  | [] => [(name, value)]
  | (other, v) :: members =>
      if name = other then (other, value) :: members
      else if nameLess name other then (name, value) :: (other, v) :: members
      else (other, v) :: insertSorted name value members

mutual

/-- The document as `nlohmann::json` stores it: members are inserted into a
`std::map` in the order of the text. -/
def sorted : Json → Json
  | .null => .null
  | .bool b => .bool b
  | .number n => .number n
  | .string text => .string text
  | .array items => .array (sortedItems items)
  | .object members => .object (sortedMembers [] members)

def sortedItems : List Json → List Json
  | [] => []
  | item :: items => sorted item :: sortedItems items

def sortedMembers (done : List (Bytes × Json)) :
    List (Bytes × Json) → List (Bytes × Json)
  | [] => done
  | (name, value) :: members =>
      sortedMembers (insertSorted name (sorted value) done) members

end

/-- The conversion of a `json` to an `ordered_json`: members are copied in the
order in which the source iterates over them. -/
def toOrdered (document : Json) : Json := document

end Json

/-! ## The library -/

/-- Why reading a text fails. -/
inductive JsonError where
  /-- `parse_error` -/
  | parseError
  /-- `out_of_range`: a number literal too large for a double -/
  | outOfRange
  deriving DecidableEq, Repr

/-- The two functions of the library whose results the server only passes on. -/
structure Nlohmann where
  /-- the document of a text, members in the order of the text -/
  read : Bytes → Except JsonError Json
  /-- the text of a document, with this indentation -/
  text : Int → Json → Bytes

namespace Nlohmann

/-- `nlohmann::json::parse(text)`. -/
def parse (json : Nlohmann) (text : Bytes) : Run Json :=
  match json.read text with
  | .ok document => .ok document.sorted
  | .error .parseError => .error (.throw .jsonParseError)
  | .error .outOfRange => .error (.throw .jsonOutOfRange)

/-- `document.dump(indent)`. -/
def dump (json : Nlohmann) (document : Json) (indent : Int) : Run Bytes :=
  if document.dumpable then .ok (json.text indent document)
  else .error (.throw .jsonTypeError)

theorem dump_ok {json : Nlohmann} {document : Json} (h : document.dumpable = true)
    (indent : Int) : json.dump document indent = .ok (json.text indent document) :=
  if_pos h

/-- Rendering fails exactly on a string that is not UTF-8. -/
theorem dump_eq_ok_iff (json : Nlohmann) {document : Json} (indent : Int) :
    (∃ text, json.dump document indent = .ok text) ↔ document.dumpable = true := by
  constructor
  · rintro ⟨text, h⟩
    by_contra hno
    rw [dump, if_neg hno] at h
    cases h
  · intro h
    exact ⟨_, dump_ok h indent⟩

end Nlohmann

end UniServer.Http
