/-
  Foundation/Search.lean --- the first occurrence of a separator in a list, and
  the pieces it cuts the list into.

  Everything is over an arbitrary element type.  `cut sep s` splits `s` at the
  first occurrence of `sep`; `FirstAt sep p` says that `p` may stand in front of
  that occurrence, and is what makes the split compose: a text `p ++ sep ++ t`
  is cut at `p` whatever `t` is (`cut_append`).  `pieces sep s` cuts again and
  again from left to right and keeps what follows the last separator apart.
-/
import Mathlib.Data.List.Basic

set_option autoImplicit false

namespace UniServer.Foundation

variable {α : Type}

/-! ## Which prefixes are clean -/

/-- No occurrence of `sep` in `p ++ sep` starts before the one at the end. -/
def FirstAt (sep p : List α) : Prop :=
  ∀ p' s', p ++ sep = p' ++ sep ++ s' → p.length ≤ p'.length

/-- In front of a single element stands anything that does not contain it. -/
theorem firstAt_singleton {c : α} {p : List α} : FirstAt [c] p ↔ c ∉ p := by
  constructor
  · intro hfirst hmem
    obtain ⟨a, b, rfl⟩ := List.append_of_mem hmem
    have := hfirst a (b ++ [c]) (by simp)
    simp only [List.length_append, List.length_cons] at this
    omega
  · intro hno p' s' heq
    by_contra hlt
    have hlead : p' ++ [c] <+: p :=
      List.prefix_of_prefix_length_le ⟨s', heq.symm⟩ ⟨[c], rfl⟩ (by simp; omega)
    exact hno (hlead.subset (by simp))

/-- In front of a two-element separator stands anything that does not contain
it: two different elements cannot overlap themselves. -/
theorem firstAt_pair {a b : α} (hab : a ≠ b) {p : List α} :
    FirstAt [a, b] p ↔ ¬ [a, b] <:+: p := by
  constructor
  · rintro hfirst ⟨q, r, rfl⟩
    have := hfirst q (r ++ [a, b]) (by simp)
    simp only [List.length_append, List.length_cons, List.length_nil] at this
    omega
  · intro hno p' s' heq
    by_contra hlt
    -- an earlier start leaves `p = p' ++ a :: q` with `q` empty or headed by `b`
    have hlead : p' ++ [a] <+: p :=
      List.prefix_of_prefix_length_le ⟨b :: s', by simp [heq]⟩ ⟨[a, b], rfl⟩
        (by simp; omega)
    obtain ⟨q, rfl⟩ := hlead
    have hrest : q ++ [a, b] = b :: s' := by simpa using heq
    cases q with
    | nil => exact hab (by simpa using (List.cons.inj hrest).1)
    | cons x q' =>
      have hx : x = b := (List.cons.inj hrest).1
      exact hno ⟨p', q', by simp [hx]⟩

theorem firstAt_of_not_infix_of_notMem {a b : α} {p : List α} (hab : a ≠ b)
    (h : a ∉ p) :
    FirstAt [a, b] p :=
  (firstAt_pair hab).mpr fun hocc => h (hocc.subset (by simp))

/-- A pair does not arise where a text that starts with something else than its
second element is put behind another. -/
theorem not_pair_append {a b : α} {s t : List α} (hs : ¬ [a, b] <:+: s)
    (ht : ¬ [a, b] <:+: t) (hhead : t.head? ≠ some b) : ¬ [a, b] <:+: s ++ t := by
  rw [List.infix_append_iff_ne_nil]
  rintro (hocc | hocc | ⟨l₁, l₂, hne₁, hne₂, hsplit, _, hlead⟩)
  · exact hs hocc
  · exact ht hocc
  · -- the pair is split in the middle: its second element heads `t`
    obtain ⟨x, l₁, rfl⟩ := List.exists_cons_of_ne_nil hne₁
    obtain ⟨y, l₂, rfl⟩ := List.exists_cons_of_ne_nil hne₂
    obtain ⟨u, rfl⟩ := hlead
    have hlen := congrArg List.length hsplit
    simp only [List.length_append, List.length_cons, List.length_nil] at hlen
    have hl₁ : l₁ = [] := List.length_eq_zero_iff.mp (by omega)
    rw [hl₁] at hsplit
    have hy : y = b := by
      simpa using (List.cons.inj (List.cons.inj hsplit).2).1.symm
    exact hhead (by simp [hy])

theorem not_pair_cons {a b c : α} {t : List α} (hc : c ≠ a) (ht : ¬ [a, b] <:+: t) :
    ¬ [a, b] <:+: c :: t := by
  rw [List.infix_cons_iff]
  rintro (hlead | hocc)
  · obtain ⟨u, hu⟩ := hlead
    exact hc (List.cons.inj hu).1.symm
  · exact ht hocc

/-! ## The first occurrence -/

section Cut

variable [DecidableEq α]

/-- What stands before and behind the first occurrence of `sep`. -/
def cut (sep s : List α) : Option (List α × List α) := s.dropInfix? sep

/-- The position of the first occurrence of `sep`. -/
def search (sep s : List α) : Option Nat :=
  (cut sep s).map fun parts => parts.1.length

theorem cut_eq_some_iff {sep s p t : List α} :
    cut sep s = some (p, t) ↔ s = p ++ sep ++ t ∧ FirstAt sep p := by
  rw [cut, List.dropInfix?_eq_some_iff]
  simp only [beq_iff_eq]
  constructor
  · rintro ⟨⟨sep', hs, rfl⟩, hfirst⟩
    refine ⟨hs, fun p' s' heq => hfirst p' sep' (s' ++ t) ?_ rfl⟩
    rw [hs, heq]
    simp
  · rintro ⟨hs, hfirst⟩
    refine ⟨⟨sep, hs, rfl⟩, ?_⟩
    rintro p' sep' s' hs' rfl
    by_contra hlt
    -- an earlier occurrence would lie inside `p ++ sep`
    have hlead : p' ++ sep' <+: p ++ sep' :=
      List.prefix_of_prefix_length_le ⟨s', hs'.symm⟩ ⟨t, hs.symm⟩ (by simp; omega)
    obtain ⟨u, hu⟩ := hlead
    exact hlt (hfirst p' u hu.symm)

theorem split_of_cut {sep s p t : List α} (h : cut sep s = some (p, t)) :
    s = p ++ sep ++ t :=
  (cut_eq_some_iff.mp h).1

theorem first_of_cut {sep s p t : List α} (h : cut sep s = some (p, t)) :
    FirstAt sep p :=
  (cut_eq_some_iff.mp h).2

theorem cut_append {sep p : List α} (h : FirstAt sep p) (t : List α) :
    cut sep (p ++ sep ++ t) = some (p, t) :=
  cut_eq_some_iff.mpr ⟨rfl, h⟩

theorem cut_isSome_of_occurs {sep s : List α} (h : sep <:+: s) :
    (cut sep s).isSome := by
  obtain ⟨p, t, rfl⟩ := h
  induction hn : p.length using Nat.strongRecOn generalizing p t with
  | _ n ih =>
    by_cases hfirst : FirstAt sep p
    · rw [cut_append hfirst]
      rfl
    · unfold FirstAt at hfirst
      push Not at hfirst
      obtain ⟨p', s', heq, hlt⟩ := hfirst
      rw [heq, List.append_assoc]
      exact ih p'.length (by omega) p' (s' ++ t) rfl

theorem cut_eq_none_iff {sep s : List α} : cut sep s = none ↔ ¬ sep <:+: s := by
  constructor
  · intro hnone hocc
    have hsome := cut_isSome_of_occurs hocc
    rw [hnone] at hsome
    simp at hsome
  · intro hno
    cases hcut : cut sep s with
    | none => rfl
    | some parts =>
      exact absurd ⟨parts.1, parts.2, (split_of_cut hcut).symm⟩ hno

theorem cut_length {sep s p t : List α} (h : cut sep s = some (p, t)) :
    s.length = p.length + sep.length + t.length := by
  rw [split_of_cut h, List.length_append, List.length_append]

/-- What stands before the first occurrence, by its position. -/
theorem take_before_cut {sep s p t : List α} (h : cut sep s = some (p, t)) :
    s.take p.length = p := by
  rw [split_of_cut h, List.append_assoc]
  exact List.take_left

/-- What stands behind the first occurrence, by its position. -/
theorem drop_behind_cut {sep s p t : List α} (h : cut sep s = some (p, t)) :
    s.drop (p.length + sep.length) = t := by
  rw [split_of_cut h, ← List.length_append]
  exact List.drop_left

/-- Text behind the first occurrence does not move it. -/
theorem cut_append_right {sep s p t : List α} (h : cut sep s = some (p, t))
    (u : List α) :
    cut sep (s ++ u) = some (p, t ++ u) := by
  have hfirst := first_of_cut h
  obtain rfl := split_of_cut h
  rw [List.append_assoc]
  exact cut_append hfirst (t ++ u)

theorem search_of_cut {sep s p t : List α} (h : cut sep s = some (p, t)) :
    search sep s = some p.length := by
  simp [search, h]

theorem search_of_cut_none {sep s : List α} (h : cut sep s = none) :
    search sep s = none := by
  simp [search, h]

/-- A position found is inside the text. -/
theorem search_le {sep s : List α} {i : Nat} (h : search sep s = some i) :
    i + sep.length ≤ s.length := by
  obtain ⟨⟨p, t⟩, hcut, rfl⟩ := Option.map_eq_some_iff.mp h
  have := cut_length hcut
  simp only
  omega

/-- `n` is the first position from `pos` on at which `sep` stands in `s`. -/
def FirstFrom (sep s : List α) (pos n : Nat) : Prop :=
  pos ≤ n ∧ n + sep.length ≤ s.length ∧ sep <+: s.drop n ∧
    ∀ m, pos ≤ m → m < n → ¬ sep <+: s.drop m

theorem firstFrom_of_cut {sep s p t : List α} {pos : Nat}
    (hpos : pos ≤ s.length) (h : cut sep (s.drop pos) = some (p, t)) :
    FirstFrom sep s pos (pos + p.length) := by
  have hsplit := split_of_cut h
  have hfirst := first_of_cut h
  have hlength := congrArg List.length hsplit
  simp only [List.length_drop, List.length_append] at hlength
  refine ⟨Nat.le_add_right pos _, by omega, ?_, ?_⟩
  · rw [← List.drop_drop, hsplit, List.append_assoc, List.drop_left]
    exact List.prefix_append _ _
  · intro m hm hlt hoccurs
    -- an earlier occurrence lies inside `p ++ sep`
    obtain ⟨u, hu⟩ := hoccurs
    have hfront : (s.drop pos).take (m - pos) ++ sep ++ u = s.drop pos := by
      have hdrop : (s.drop pos).drop (m - pos) = s.drop m := by
        rw [List.drop_drop, Nat.add_sub_cancel' hm]
      rw [List.append_assoc, hu, ← hdrop, List.take_append_drop]
    have hshort : ((s.drop pos).take (m - pos)).length = m - pos := by
      rw [List.length_take, List.length_drop]
      omega
    have hinside : (s.drop pos).take (m - pos) ++ sep <+: p ++ sep :=
      List.prefix_of_prefix_length_le ⟨u, hfront⟩ ⟨t, hsplit.symm⟩
        (by rw [List.length_append, List.length_append, hshort]; omega)
    obtain ⟨rest, hrest⟩ := hinside
    have hle := hfirst _ rest hrest.symm
    omega

theorem not_from_of_cut_none {sep s : List α} {pos : Nat}
    (h : cut sep (s.drop pos) = none) : ∀ m, pos ≤ m → ¬ sep <+: s.drop m := by
  intro m hm hoccurs
  refine cut_eq_none_iff.mp h ?_
  have hsuffix : s.drop m <:+ s.drop pos := by
    have hsplit : s.drop m = (s.drop pos).drop (m - pos) := by
      rw [List.drop_drop, Nat.add_sub_cancel' hm]
    rw [hsplit]
    exact List.drop_suffix _ _
  exact hoccurs.isInfix.trans hsuffix.isInfix

/-! ### One element as separator -/

theorem cut_singleton_eq_none_iff {c : α} {s : List α} :
    cut [c] s = none ↔ c ∉ s := by
  rw [cut_eq_none_iff, not_iff_not]
  constructor
  · exact fun hocc => hocc.subset List.mem_cons_self
  · intro hmem
    obtain ⟨a, b, rfl⟩ := List.append_of_mem hmem
    exact ⟨a, b, by simp⟩

/-- A prefix without the element only shifts its first occurrence. -/
theorem cut_singleton_append {c : α} {p : List α} (h : c ∉ p) (s : List α) :
    cut [c] (p ++ s) = (cut [c] s).map fun parts => (p ++ parts.1, parts.2) := by
  cases hcut : cut [c] s with
  | none =>
    rw [cut_singleton_eq_none_iff] at hcut
    rw [Option.map_none, cut_singleton_eq_none_iff]
    simp [h, hcut]
  | some parts =>
    have hs := split_of_cut hcut
    have hfirst := first_of_cut hcut
    rw [Option.map_some, cut_eq_some_iff]
    rw [firstAt_singleton] at hfirst ⊢
    exact ⟨by simp [hs], by simp [h, hfirst]⟩

/-- A cut takes one occurrence away. -/
theorem count_of_cut_singleton {c : α} {s p t : List α}
    (h : cut [c] s = some (p, t)) : s.count c = t.count c + 1 := by
  have hfirst := first_of_cut h
  obtain rfl := split_of_cut h
  have hnone : p.count c = 0 := List.count_eq_zero.mpr (firstAt_singleton.mp hfirst)
  rw [List.count_append, List.count_append, hnone, List.count_singleton_self]
  omega

/-- ... and its position by the length of the prefix. -/
theorem search_singleton_append {c : α} {p : List α} (h : c ∉ p) (s : List α) :
    search [c] (p ++ s) = (search [c] s).map (p.length + ·) := by
  rw [search, cut_singleton_append h, search, Option.map_map, Option.map_map]
  congr 1
  funext parts
  simp

end Cut

/-! ## Cutting into pieces -/

/-- Put the separator back behind every piece. -/
def joined (sep : List α) (ps : List (List α)) : List α :=
  (ps.map (· ++ sep)).flatten

@[simp] theorem joined_nil (sep : List α) : joined sep [] = [] := rfl

@[simp] theorem joined_cons (sep p : List α) (ps : List (List α)) :
    joined sep (p :: ps) = p ++ sep ++ joined sep ps := by
  simp [joined]

theorem joined_append (sep : List α) (ps qs : List (List α)) :
    joined sep (ps ++ qs) = joined sep ps ++ joined sep qs := by
  simp [joined]

/-- Joined pieces end with the separator. -/
theorem joined_ends (sep p : List α) (ps : List (List α)) :
    ∃ front, joined sep (p :: ps) = front ++ sep := by
  induction ps generalizing p with
  | nil => exact ⟨p, by simp⟩
  | cons q ps ih =>
    obtain ⟨front, hfront⟩ := ih q
    refine ⟨p ++ sep ++ front, ?_⟩
    rw [joined_cons, hfront]
    exact (List.append_assoc _ _ _).symm

section Pieces

variable [DecidableEq α]

/-- The pieces of `s` that a separator ends, and what follows the last one. -/
def pieces (sep s : List α) : List (List α) × List α :=
  match cut sep s with
  | none => ([], s)
  | some (p, t) =>
      if t.length < s.length then
        let rest := pieces sep t
        (p :: rest.1, rest.2)
      else ([], s)
termination_by s.length

theorem pieces_of_cut_none {sep s : List α} (h : cut sep s = none) :
    pieces sep s = ([], s) := by
  rw [pieces, h]

theorem pieces_of_cut {sep s p t : List α} (hsep : sep ≠ [])
    (h : cut sep s = some (p, t)) :
    pieces sep s = (p :: (pieces sep t).1, (pieces sep t).2) := by
  have hlt : t.length < s.length := by
    have := cut_length h
    have := List.length_pos_of_ne_nil hsep
    omega
  rw [pieces, h]
  simp [hlt]

/-- The induction that follows `pieces`: a text without the separator, or a first
piece and the text behind it. -/
theorem pieces_induction {sep : List α} (hsep : sep ≠ []) {motive : List α → Prop}
    (last : ∀ s, cut sep s = none → motive s)
    (step : ∀ s p t, cut sep s = some (p, t) → motive t → motive s) (s : List α) :
    motive s := by
  induction hn : s.length using Nat.strongRecOn generalizing s with
  | _ n ih =>
    cases hcut : cut sep s with
    | none => exact last s hcut
    | some parts =>
      obtain ⟨p, t⟩ := parts
      have hlen := cut_length hcut
      have hpos := List.length_pos_of_ne_nil hsep
      exact step s p t hcut (ih t.length (by omega) t rfl)

/-- Nothing is lost by cutting. -/
theorem pieces_join {sep : List α} (hsep : sep ≠ []) (s : List α) :
    joined sep (pieces sep s).1 ++ (pieces sep s).2 = s := by
  induction s using pieces_induction hsep with
  | last s hcut => simp [pieces_of_cut_none hcut]
  | step s p t hcut ih =>
    rw [pieces_of_cut hsep hcut, joined_cons, List.append_assoc, ih]
    exact (split_of_cut hcut).symm

/-- Every piece is one the separator could end. -/
theorem pieces_firstAt {sep : List α} (hsep : sep ≠ []) (s : List α) :
    ∀ p ∈ (pieces sep s).1, FirstAt sep p := by
  induction s using pieces_induction hsep with
  | last s hcut => simp [pieces_of_cut_none hcut]
  | step s p t hcut ih =>
    rw [pieces_of_cut hsep hcut]
    intro q hq
    rcases List.mem_cons.mp hq with rfl | hq
    · exact first_of_cut hcut
    · exact ih q hq

/-- Cutting a text made of clean pieces gives the pieces back. -/
theorem pieces_joined_append {sep : List α} (hsep : sep ≠ []) {ps : List (List α)}
    (hps : ∀ p ∈ ps, FirstAt sep p) (s : List α) :
    pieces sep (joined sep ps ++ s) =
      (ps ++ (pieces sep s).1, (pieces sep s).2) := by
  induction ps with
  | nil => simp
  | cons p ps ih =>
    have hcut :
        cut sep (joined sep (p :: ps) ++ s) = some (p, joined sep ps ++ s) := by
      rw [joined_cons, List.append_assoc]
      exact cut_append (hps p List.mem_cons_self) _
    rw [pieces_of_cut hsep hcut, ih fun q hq => hps q (List.mem_cons_of_mem p hq)]
    rfl

/-- Nothing follows the last separator of a text that ends with a two-element
separator. -/
theorem pieces_ended {a b : α} (hab : a ≠ b) (s : List α) :
    (pieces [a, b] (s ++ [a, b])).2 = [] := by
  have hsep : [a, b] ≠ [] := List.cons_ne_nil _ _
  induction s using pieces_induction hsep with
  | last s hcut =>
    have hfirst : FirstAt [a, b] s :=
      (firstAt_pair hab).mpr (cut_eq_none_iff.mp hcut)
    have hend : cut [a, b] (s ++ [a, b]) = some (s, []) := by
      simpa using cut_append hfirst []
    have hnil : cut [a, b] ([] : List α) = none := by
      rw [cut_eq_none_iff, List.infix_nil]
      exact hsep
    rw [pieces_of_cut hsep hend, pieces_of_cut_none hnil]
  | step s p t hcut ih =>
    rw [pieces_of_cut hsep (cut_append_right hcut [a, b])]
    exact ih

/-- A text that ends with a separator can be cut on its own. -/
theorem pieces_append {sep s : List α} (hsep : sep ≠ [])
    (hlast : (pieces sep s).2 = []) (t : List α) :
    pieces sep (s ++ t) =
      ((pieces sep s).1 ++ (pieces sep t).1, (pieces sep t).2) := by
  have hjoin := pieces_join hsep s
  rw [hlast, List.append_nil] at hjoin
  conv => lhs; rw [← hjoin]
  exact pieces_joined_append hsep (pieces_firstAt hsep s) t

/-! ### Rows, each ended by one element -/

/-- There are as many pieces as there are separators. -/
theorem length_pieces_singleton {c : α} (s : List α) :
    (pieces [c] s).1.length = s.count c := by
  have hsep : [c] ≠ [] := List.cons_ne_nil c []
  induction s using pieces_induction hsep with
  | last s hcut =>
    rw [pieces_of_cut_none hcut]
    exact (List.count_eq_zero.mpr (cut_singleton_eq_none_iff.mp hcut)).symm
  | step s p t hcut ih =>
    rw [pieces_of_cut hsep hcut, List.length_cons, ih, count_of_cut_singleton hcut]

theorem count_joined_singleton {c : α} (rows : List (List α)) :
    (joined [c] rows).count c = rows.length + rows.flatten.count c := by
  induction rows with
  | nil => rfl
  | cons row rows ih =>
    rw [joined_cons, List.count_append, List.count_append,
      List.count_singleton_self, ih, List.length_cons, List.flatten_cons,
      List.count_append]
    omega

/-- Rows without the element come back. -/
theorem pieces_rows {c : α} {rows : List (List α)} (h : ∀ row ∈ rows, c ∉ row) :
    (pieces [c] (joined [c] rows)).1 = rows := by
  have hclean : ∀ row ∈ rows, FirstAt [c] row := fun row hrow =>
    firstAt_singleton.mpr (h row hrow)
  have hnil : pieces [c] ([] : List α) = ([], []) :=
    pieces_of_cut_none (cut_singleton_eq_none_iff.mpr List.not_mem_nil)
  have hcut := pieces_joined_append (List.cons_ne_nil c []) hclean []
  rw [List.append_nil, hnil, List.append_nil] at hcut
  rw [hcut]

/-- From other rows come more rows than there were. -/
theorem length_pieces_rows_iff {c : α} (rows : List (List α)) :
    (pieces [c] (joined [c] rows)).1.length = rows.length ↔
      ∀ row ∈ rows, c ∉ row := by
  rw [length_pieces_singleton, count_joined_singleton, Nat.add_eq_left,
    List.count_eq_zero, List.mem_flatten]
  constructor
  · exact fun hno row hrow hmem => hno ⟨row, hrow, hmem⟩
  · intro hall hmem
    obtain ⟨row, hrow, hc⟩ := hmem
    exact hall row hrow hc

/-- A doubled separator is an empty piece: behind non-empty clean pieces, its
first occurrence is where the last piece ends. -/
theorem firstAt_doubled {a b : α} (hab : a ≠ b) {ps : List (List α)} {p : List α}
    (hps : ∀ q ∈ ps ++ [p], q ≠ [] ∧ ¬ [a, b] <:+: q) :
    FirstAt [a, b, a, b] (joined [a, b] ps ++ p) := by
  have hsep : [a, b] ≠ [] := List.cons_ne_nil _ _
  have hclean : ∀ q ∈ ps ++ [p], FirstAt [a, b] q := fun q hq =>
    (firstAt_pair hab).mpr (hps q hq).2
  intro p' s' heq
  -- cut both sides of the equation: the doubled separator of each is an empty piece
  have hnil : FirstAt [a, b] ([] : List α) :=
    (firstAt_pair hab).mpr fun hocc => hsep (List.infix_nil.mp hocc)
  have hleft : joined [a, b] ps ++ p ++ [a, b, a, b] =
      joined [a, b] (ps ++ [p]) ++ (joined [a, b] [[]] ++ []) := by
    simp [joined_append]
  have hright : p' ++ [a, b, a, b] ++ s' =
      (p' ++ [a, b]) ++ (joined [a, b] [[]] ++ s') := by
    simp
  have hempty : pieces [a, b] ([] : List α) = ([], []) := by
    apply pieces_of_cut_none
    rw [cut_eq_none_iff, List.infix_nil]
    exact hsep
  have hdouble : ∀ t, pieces [a, b] (joined [a, b] [[]] ++ t) =
      ([[]] ++ (pieces [a, b] t).1, (pieces [a, b] t).2) := fun t =>
    pieces_joined_append hsep (by simpa using hnil) t
  have hpieces := congrArg (pieces [a, b]) heq
  rw [hleft, hright, pieces_joined_append hsep hclean, hdouble,
    pieces_append hsep (pieces_ended hab p'), hdouble, hempty] at hpieces
  obtain ⟨hlist, htail⟩ := Prod.mk.inj hpieces
  -- the empty piece on the right can only be the last piece on the left
  have hlast : (pieces [a, b] s').1 = [] := by
    rcases List.eq_nil_or_concat (pieces [a, b] s').1 with
      hnone | ⟨front, last, hfront⟩
    · exact hnone
    · rw [hfront, List.append_nil, List.concat_eq_append, ← List.append_assoc,
        ← List.append_assoc] at hlist
      have hmem : ([] : List α) ∈ ps ++ [p] := by
        rw [(List.append_inj' hlist rfl).1]
        simp
      exact absurd rfl (hps [] hmem).1
  have hs' : s' = [] := by
    have hjoin := pieces_join hsep s'
    rw [hlast, ← htail] at hjoin
    simpa using hjoin.symm
  have hlen := congrArg List.length heq
  rw [hs'] at hlen
  simp only [List.length_append, List.length_nil] at hlen ⊢
  omega

/-- Non-empty clean pieces and one more separator: the text ends with its first
doubled separator. -/
theorem joined_doubled {a b : α} (hab : a ≠ b) {ps : List (List α)} (hne : ps ≠ [])
    (hps : ∀ p ∈ ps, p ≠ [] ∧ ¬ [a, b] <:+: p) :
    ∃ front, joined [a, b] ps ++ [a, b] = front ++ [a, b, a, b] ∧
      FirstAt [a, b, a, b] front := by
  rcases List.eq_nil_or_concat ps with hnil | ⟨qs, q, hconcat⟩
  · exact absurd hnil hne
  · rw [List.concat_eq_append] at hconcat
    refine ⟨joined [a, b] qs ++ q, ?_, firstAt_doubled hab (hconcat ▸ hps)⟩
    rw [hconcat, joined_append]
    simp

end Pieces

end UniServer.Foundation
