/-
  Foundation/Cxx.lean --- the part of C++ that the sources depend on: how a call
  can end, `int` against `size_t`, and `std::string_view`.

  Positions found in a text are `size_t`, and `npos` is the largest of them.  A
  source that keeps a position in an `int` narrows it: `npos` becomes -1, and
  coming back to `size_t` -1 becomes `npos` again.  Signed arithmetic that
  leaves the range of `int` has no defined result.
-/
import Mathlib.Algebra.Group.Int.Defs
import Mathlib.Algebra.Group.Nat.Defs
import UniServer.Foundation.Bytes
import UniServer.Foundation.Search

set_option autoImplicit false

namespace UniServer.Foundation

/-! ## How a call can end -/

/-- The exceptions that are thrown somewhere in the sources. -/
inductive Exn where
  /-- `std::out_of_range` of a `substr` -/
  | outOfRange
  /-- `std::runtime_error` -/
  | runtimeError (what : Bytes)
  /-- `nlohmann::json::parse_error` -/
  | jsonParseError
  /-- `nlohmann::json::out_of_range` -/
  | jsonOutOfRange
  /-- `nlohmann::json::type_error` -/
  | jsonTypeError
  deriving DecidableEq, Repr

/-- A call that does not return. -/
inductive Abort where
  /-- an exception leaves the call -/
  | throw (e : Exn)
  /-- an exception has reached a `noexcept` boundary: `std::terminate` -/
  | terminate
  /-- a signed addition or subtraction has left the range of `int` -/
  | overflow
  /-- a loop does not end -/
  | diverge
  deriving DecidableEq, Repr

/-- A call that returns an `α`, or does not return. -/
abbrev Run (α : Type) : Type := Except Abort α

/- The proofs are in parentheses so that `simp` rewrites with these equations
instead of leaving the unfolding to the kernel. -/

@[simp] theorem Run.ok_bind {α β : Type} (a : α) (f : α → Run β) :
    ((Except.ok a : Run α) >>= f) = f a := (rfl)

@[simp] theorem Run.error_bind {α β : Type} (e : Abort) (f : α → Run β) :
    ((Except.error e : Run α) >>= f) = Except.error e := (rfl)

@[simp] theorem Run.pure_eq {α : Type} (a : α) : (pure a : Run α) = Except.ok a :=
  (rfl)

theorem Run.bind_eq_ok {α β : Type} {r : Run α} {f : α → Run β} {b : β} :
    (r >>= f) = .ok b ↔ ∃ a, r = .ok a ∧ f a = .ok b := by
  cases r with
  | ok a => simp
  | error e => simp

/-- The call returns, and not `std::nullopt`. -/
def returnsValue {α : Type} : Run (Option α) → Bool
  | .ok (some _) => true
  | _ => false

theorem returnsValue_iff {α : Type} {r : Run (Option α)} :
    returnsValue r = true ↔ ∃ a, r = .ok (some a) := by
  constructor
  · intro h
    unfold returnsValue at h
    split at h
    · exact ⟨_, rfl⟩
    · cases h
  · rintro ⟨a, rfl⟩
    rfl

/-- The body of a `noexcept` function. -/
def noexcept {α : Type} : Run α → Run α
  | .error (.throw _) => .error .terminate
  | r => r

@[simp] theorem noexcept_ok {α : Type} (a : α) : noexcept (.ok a : Run α) = .ok a :=
  rfl

/-- A `noexcept` function returns what its body returns. -/
theorem noexcept_eq_ok_iff {α : Type} {r : Run α} {a : α} :
    noexcept r = .ok a ↔ r = .ok a := by
  cases r with
  | ok b => rfl
  | error e => cases e <;> simp [noexcept]

/-! ## `int` and `size_t` -/

/-- The largest `size_t`. -/
def npos : Nat := 2 ^ 64 - 1

/- The three conversions are by the two constructors of `Int`, as two's complement
reads them: comparing an `Int` with 2^31 would make the kernel count down from
it. -/

/-- The narrowing conversion of a `size_t` to `int`. -/
def toInt (n : Nat) : Int :=
  if n % 2 ^ 32 < 2 ^ 31 then .ofNat (n % 2 ^ 32)
    else .negSucc (2 ^ 32 - 1 - n % 2 ^ 32)

/-- The conversion of an `int` to `size_t`. -/
def toSize : Int → Nat
  | .ofNat n => n % 2 ^ 64
  | .negSucc n => 2 ^ 64 - 1 - n % 2 ^ 64

/-- A signed result, where it is in the range of `int`. -/
def intResult : Int → Run Int
  | .ofNat n => if n < 2 ^ 31 then .ok (.ofNat n) else .error .overflow
  | .negSucc n => if n < 2 ^ 31 then .ok (.negSucc n) else .error .overflow

/-- `a + b` on `int`. -/
def addInt (a b : Int) : Run Int := intResult (a + b)

/-- `a - b` on `int`. -/
def subInt (a b : Int) : Run Int := intResult (a - b)

theorem toInt_of_lt {n : Nat} (h : n < 2 ^ 31) : toInt n = n := by
  have hmod : n % 2 ^ 32 = n := Nat.mod_eq_of_lt (by omega)
  rw [toInt, hmod, if_pos h]
  rfl

@[simp] theorem toInt_npos : toInt npos = -1 := by decide

theorem toSize_natCast {n : Nat} (h : n < 2 ^ 64) : toSize n = n :=
  Nat.mod_eq_of_lt h

@[simp] theorem toSize_neg_one : toSize (-1) = npos := by decide

theorem toSize_natCast_ne_npos {n : Nat} (h : n < 2 ^ 31) : toSize n ≠ npos := by
  rw [toSize_natCast (by omega)]
  unfold npos
  omega

/-- A negative count reads as a `size_t` beyond every text. -/
theorem le_toSize_of_neg {x : Int} (h₁ : -2 ^ 31 ≤ x) (h₂ : x < 0) :
    2 ^ 63 ≤ toSize x := by
  cases x with
  | ofNat n =>
    rw [Int.ofNat_eq_natCast] at h₂
    omega
  | negSucc n =>
    have hn : n < 2 ^ 31 := by omega
    have hmod : n % 2 ^ 64 = n := Nat.mod_eq_of_lt (by omega)
    rw [toSize, hmod]
    omega

/-- A narrowed value is the value up to a multiple of 2^32. -/
theorem toInt_spec (n : Nat) :
    -2 ^ 31 ≤ toInt n ∧ toInt n < 2 ^ 31 ∧ ∃ m :
      Nat, (n : Int) = toInt n + 2 ^ 32 * m := by
  have hsplit : (2 ^ 32) * (n / 2 ^ 32) + n % 2 ^ 32 = n :=
    Nat.div_add_mod n (2 ^ 32)
  have hmod : n % 2 ^ 32 < 2 ^ 32 := Nat.mod_lt n (by decide)
  unfold toInt
  split
  · rename_i hsmall
    rw [Int.ofNat_eq_natCast]
    exact ⟨by omega, by omega, n / 2 ^ 32, by omega⟩
  · rename_i hlarge
    rw [Int.negSucc_eq]
    exact ⟨by omega, by omega, n / 2 ^ 32 + 1, by omega⟩

theorem intResult_ok {x : Int} (h : -2 ^ 31 ≤ x ∧ x < 2 ^ 31) :
    intResult x = .ok x := by
  cases x with
  | ofNat n =>
    rw [Int.ofNat_eq_natCast] at h
    have hn : n < 2 ^ 31 := by omega
    exact if_pos hn
  | negSucc n =>
    have hn : n < 2 ^ 31 := by omega
    exact if_pos hn

theorem intResult_eq_ok {x y : Int} (h : intResult x = .ok y) : y = x := by
  cases x with
  | ofNat n =>
    rw [intResult] at h
    split at h
    · exact (Except.ok.inj h).symm
    · cases h
  | negSucc n =>
    rw [intResult] at h
    split at h
    · exact (Except.ok.inj h).symm
    · cases h

theorem intResult_ok_iff {x y : Int} :
    intResult x = .ok y ↔ y = x ∧ -2 ^ 31 ≤ x ∧ x < 2 ^ 31 := by
  constructor
  · intro h
    refine ⟨intResult_eq_ok h, ?_⟩
    cases x with
    | ofNat n =>
      rw [intResult] at h
      split at h
      · rw [Int.ofNat_eq_natCast]
        omega
      · cases h
    | negSucc n =>
      rw [intResult] at h
      split at h
      · omega
      · cases h
  · rintro ⟨rfl, h⟩
    exact intResult_ok h

theorem addInt_ok {a b : Int} (h : -2 ^ 31 ≤ a + b ∧ a + b < 2 ^ 31) :
    addInt a b = .ok (a + b) :=
  intResult_ok h

theorem subInt_ok {a b : Int} (h : -2 ^ 31 ≤ a - b ∧ a - b < 2 ^ 31) :
    subInt a b = .ok (a - b) :=
  intResult_ok h

/-- Below 2^31 the arithmetic of positions is that of natural numbers. -/
theorem addInt_natCast (a b : Nat) (h : a + b < 2 ^ 31) :
    addInt a b = .ok ((a + b : Nat) : Int) := by
  rw [addInt_ok (by omega)]
  exact congrArg Except.ok (by omega)

theorem subInt_natCast (a b : Nat) (hle : b ≤ a) (h : a < 2 ^ 31) :
    subInt a b = .ok ((a - b : Nat) : Int) := by
  rw [subInt_ok (by omega)]
  exact congrArg Except.ok (by omega)

/-! ## `std::string_view` -/

/-- `s.find(pattern, pos)`. -/
def find (s pattern : Bytes) (pos : Nat) : Nat :=
  if pos ≤ s.length then
    match search pattern (s.drop pos) with
    | some i => pos + i
    | none => npos
  else npos

/-- `s.substr(pos, count)`. -/
def substr (s : Bytes) (pos count : Nat) : Run Bytes :=
  if pos ≤ s.length then .ok ((s.drop pos).take count)
    else .error (.throw .outOfRange)

theorem find_of_search {s pattern : Bytes} {pos i : Nat} (hpos : pos ≤ s.length)
    (h : search pattern (s.drop pos) = some i) : find s pattern pos = pos + i := by
  rw [find, if_pos hpos, h]

theorem find_of_search_none {s pattern : Bytes} {pos : Nat}
    (h : search pattern (s.drop pos) = none) : find s pattern pos = npos := by
  rw [find, h]
  split <;> rfl

/-- Narrowing a position of a text shorter than 2^31 is exact. -/
theorem toInt_find_of_search {s pattern : Bytes} {pos i : Nat}
    (hs : s.length < 2 ^ 31) (hpos : pos ≤ s.length)
    (h : search pattern (s.drop pos) = some i) :
    toInt (find s pattern pos) = ((pos + i : Nat) : Int) := by
  have hle := search_le h
  rw [List.length_drop] at hle
  rw [find_of_search hpos h, toInt_of_lt (by omega)]

theorem toInt_find_of_search_none {s pattern : Bytes} {pos : Nat}
    (h : search pattern (s.drop pos) = none) : toInt (find s pattern pos) = -1 := by
  rw [find_of_search_none h, toInt_npos]

/-- A search from the start finds where the text is cut. -/
theorem toInt_find_of_cut {s pattern p t : Bytes} (hs : s.length < 2 ^ 31)
    (h : cut pattern s = some (p, t)) :
    toInt (find s pattern 0) = (p.length : Int) := by
  rw [toInt_find_of_search hs (Nat.zero_le _) (search_of_cut h), Nat.zero_add]

theorem toInt_find_of_cut_none {s pattern : Bytes} (h : cut pattern s = none) :
    toInt (find s pattern 0) = -1 :=
  toInt_find_of_search_none (search_of_cut_none h)

theorem substr_ok {s : Bytes} {pos : Nat} (h : pos ≤ s.length) (count : Nat) :
    substr s pos count = .ok ((s.drop pos).take count) :=
  if_pos h

theorem substr_eq_ok_iff {s t : Bytes} {pos count : Nat} :
    substr s pos count = .ok t ↔ pos ≤ s.length ∧ t = (s.drop pos).take count := by
  by_cases h : pos ≤ s.length
  · simp [substr, h, eq_comm]
  · simp [substr, h]

theorem substr_before_cut {s pattern p t : Bytes}
    (h : cut pattern s = some (p, t)) :
    substr s 0 p.length = .ok p := by
  rw [substr_ok (Nat.zero_le _), List.drop_zero, take_before_cut h]

/-- A count at least as long as the text takes all that is left. -/
theorem substr_all {s : Bytes} {pos count : Nat} (h : pos ≤ s.length)
    (hcount : s.length ≤ count) : substr s pos count = .ok (s.drop pos) := by
  rw [substr_ok h, List.take_of_length_le (by rw [List.length_drop]; omega)]

end UniServer.Foundation
