/-
  Http/BodyOrder.lean --- the order of the members in a parsed body.

  `parse` reads the body into a `nlohmann::json`, whose objects are sorted by name,
  and only then converts it to an `ordered_json`.  The order of the text is gone by
  then, at every level; it is kept exactly where the text was sorted already.
-/
import UniServer.Http.RequestLine

set_option autoImplicit false

namespace UniServer.Http

open UniServer.Foundation

namespace Json

/-! ## The order of names -/

/-- `nameLess` is the lexicographic order. -/
theorem nameLess_iff (s t : Bytes) : nameLess s t = true ↔ s < t := by
  induction s generalizing t with
  | nil => cases t <;> simp [nameLess]
  | cons a s ih =>
    cases t with
    | nil => simp [nameLess]
    | cons b t =>
      rw [nameLess, List.cons_lt_cons_iff]
      by_cases h : a = b
      · subst h
        simp [ih, UInt8.lt_irrefl]
      · simp [h]

/-- Members in the order of their names, each name once. -/
def Ascending (members : List (Bytes × Json)) : Prop :=
  (members.map Prod.fst).Pairwise fun name name' => name < name'

theorem mem_insertSorted_names {name : Bytes} {value : Json}
    {members : List (Bytes × Json)} :
    ∀ other ∈ (insertSorted name value members).map Prod.fst,
      other = name ∨ other ∈ members.map Prod.fst := by
  induction members with
  | nil => simp [insertSorted]
  | cons member members ih =>
    obtain ⟨first, v⟩ := member
    intro other hother
    rw [insertSorted] at hother
    split_ifs at hother with heq hless
    · exact Or.inr (by simpa using hother)
    · simpa using hother
    · rw [List.map_cons, List.mem_cons] at hother
      rcases hother with rfl | hother
      · exact Or.inr (by simp)
      · exact (ih other hother).imp_right (List.mem_cons_of_mem first)

/-- Inserting into a sorted list keeps it sorted. -/
theorem ascending_insertSorted {members : List (Bytes × Json)}
    (h : Ascending members) (name : Bytes) (value : Json) :
    Ascending (insertSorted name value members) := by
  unfold Ascending at h ⊢
  induction members with
  | nil => simp [insertSorted]
  | cons member members ih =>
    obtain ⟨first, v⟩ := member
    rw [List.map_cons, List.pairwise_cons] at h
    obtain ⟨hfirst, hrest⟩ := h
    rw [insertSorted]
    split_ifs with heq hless
    · rw [List.map_cons, List.pairwise_cons]
      exact ⟨hfirst, hrest⟩
    · rw [nameLess_iff] at hless
      rw [List.map_cons, List.map_cons, List.pairwise_cons, List.pairwise_cons]
      refine ⟨?_, hfirst, hrest⟩
      intro other hother
      rcases List.mem_cons.mp hother with rfl | hother
      · exact hless
      · exact List.lt_trans hless (hfirst other hother)
    · rw [nameLess_iff] at hless
      rw [List.map_cons, List.pairwise_cons]
      refine ⟨?_, ih hrest⟩
      intro other hother
      rcases mem_insertSorted_names other hother with rfl | hother
      · exact Std.lt_of_le_of_ne (List.not_lt.mp hless) (Ne.symm heq)
      · exact hfirst other hother

theorem ascending_sortedMembers (done members : List (Bytes × Json))
    (h : Ascending done) : Ascending (sortedMembers done members) := by
  induction members generalizing done with
  | nil => exact h
  | cons member members ih =>
    obtain ⟨name, value⟩ := member
    rw [sortedMembers]
    exact ih _ (ascending_insertSorted h name value.sorted)

/-- A name behind all others is inserted at the end. -/
theorem insertSorted_last {name : Bytes} {members : List (Bytes × Json)}
    (h : ∀ other ∈ members.map Prod.fst, other < name) (value : Json) :
    insertSorted name value members = members ++ [(name, value)] := by
  induction members with
  | nil => rfl
  | cons member members ih =>
    obtain ⟨first, v⟩ := member
    rw [List.map_cons, List.forall_mem_cons] at h
    have hne : name ≠ first := fun heq => List.lt_irrefl name (heq ▸ h.1)
    have hnot : ¬ nameLess name first = true := by
      rw [nameLess_iff]
      exact List.lt_asymm h.1
    rw [insertSorted, if_neg hne, if_neg hnot, ih h.2, List.cons_append]

/-- Members that come in order are stored in that order. -/
theorem sortedMembers_of_ascending (done members : List (Bytes × Json))
    (h : Ascending (done ++ members)) :
    sortedMembers done members =
      done ++ members.map fun member => (member.1, member.2.sorted) := by
  induction members generalizing done with
  | nil => simp [sortedMembers]
  | cons member members ih =>
    obtain ⟨name, value⟩ := member
    have hlast : ∀ other ∈ done.map Prod.fst, other < name := by
      rw [Ascending, List.map_append, List.pairwise_append] at h
      exact fun other hother => h.2.2 other hother name (by simp)
    have hnext : Ascending ((done ++ [(name, value.sorted)]) ++ members) := by
      have hnames : ((done ++ [(name, value.sorted)]) ++ members).map Prod.fst =
          (done ++ (name, value) :: members).map Prod.fst := by
        simp
      rw [Ascending, hnames]
      exact h
    rw [sortedMembers, insertSorted_last hlast, ih _ hnext, List.append_assoc]
    rfl

/-! ## The outline of a document -/

mutual

/-- What is left of a document without its values: the names, nested and in
order. -/
def outline : Json → Json
  | .null => .null
  | .bool _ => .null
  | .number _ => .null
  | .string _ => .null
  | .array items => .array (outlineItems items)
  | .object members => .object (outlineMembers members)

def outlineItems : List Json → List Json
  | [] => []
  | item :: items => outline item :: outlineItems items

def outlineMembers : List (Bytes × Json) → List (Bytes × Json)
  | [] => []
  | (name, value) :: members => (name, outline value) :: outlineMembers members

end

mutual

/-- Every object of the document lists its members in the order of their names. -/
def InNameOrder : Json → Prop
  | .null => True
  | .bool _ => True
  | .number _ => True
  | .string _ => True
  | .array items => ItemsInNameOrder items
  | .object members => Ascending members ∧ MembersInNameOrder members

def ItemsInNameOrder : List Json → Prop
  | [] => True
  | item :: items => InNameOrder item ∧ ItemsInNameOrder items

def MembersInNameOrder : List (Bytes × Json) → Prop
  | [] => True
  | (_, value) :: members => InNameOrder value ∧ MembersInNameOrder members

end

mutual

/-- No object of the document has two members of one name. -/
def NamesOnce : Json → Prop
  | .null => True
  | .bool _ => True
  | .number _ => True
  | .string _ => True
  | .array items => ItemsNamesOnce items
  | .object members => (members.map Prod.fst).Nodup ∧ MembersNamesOnce members

def ItemsNamesOnce : List Json → Prop
  | [] => True
  | item :: items => NamesOnce item ∧ ItemsNamesOnce items

def MembersNamesOnce : List (Bytes × Json) → Prop
  | [] => True
  | (_, value) :: members => NamesOnce value ∧ MembersNamesOnce members

end

theorem outlineMembers_names (members : List (Bytes × Json)) :
    (outlineMembers members).map Prod.fst = members.map Prod.fst := by
  induction members with
  | nil => rfl
  | cons member members ih => rw [outlineMembers, List.map_cons, ih, List.map_cons]

mutual

/-- A document in order is stored as it is. -/
theorem sorted_of_inNameOrder : ∀ document : Json,
    document.InNameOrder → document.sorted = document
  | .null, _ => rfl
  | .bool _, _ => rfl
  | .number _, _ => rfl
  | .string _, _ => rfl
  | .array items, h => by
      rw [sorted, sortedItems_of_inNameOrder items h]
  | .object members, h => by
      have hstored := sortedMembers_of_ascending [] members h.1
      rw [sorted, hstored, List.nil_append,
        sortedMembers_of_inNameOrder members h.2]

theorem sortedItems_of_inNameOrder : ∀ items : List Json,
    ItemsInNameOrder items → sortedItems items = items
  | [], _ => rfl
  | item :: items, h => by
      rw [sortedItems, sorted_of_inNameOrder item h.1,
        sortedItems_of_inNameOrder items h.2]

theorem sortedMembers_of_inNameOrder : ∀ members : List (Bytes × Json),
    MembersInNameOrder members →
      (members.map fun member => (member.1, member.2.sorted)) = members
  | [], _ => rfl
  | (name, value) :: members, h => by
      rw [List.map_cons, sorted_of_inNameOrder value h.1,
        sortedMembers_of_inNameOrder members h.2]

end

mutual

/-- A document whose names are stored as they came was in order. -/
theorem inNameOrder_of_outline : ∀ document : Json,
    document.sorted.outline = document.outline → document.InNameOrder
  | .null, _ => True.intro
  | .bool _, _ => True.intro
  | .number _, _ => True.intro
  | .string _, _ => True.intro
  | .array items, h => by
      rw [sorted, outline, outline, Json.array.injEq] at h
      exact itemsInNameOrder_of_outline items h
  | .object members, h => by
      rw [sorted, outline, outline, Json.object.injEq] at h
      have hnames : (sortedMembers [] members).map Prod.fst =
          members.map Prod.fst := by
        rw [← outlineMembers_names, h, outlineMembers_names]
      have hascending : Ascending members := by
        have hstored := ascending_sortedMembers [] members List.Pairwise.nil
        rw [Ascending, hnames] at hstored
        exact hstored
      rw [sortedMembers_of_ascending [] members hascending, List.nil_append] at h
      exact ⟨hascending, membersInNameOrder_of_outline members h⟩

theorem itemsInNameOrder_of_outline : ∀ items : List Json,
    outlineItems (sortedItems items) = outlineItems items → ItemsInNameOrder items
  | [], _ => True.intro
  | item :: items, h => by
      rw [sortedItems, outlineItems, outlineItems, List.cons.injEq] at h
      exact ⟨inNameOrder_of_outline item h.1, itemsInNameOrder_of_outline items h.2⟩

theorem membersInNameOrder_of_outline : ∀ members : List (Bytes × Json),
    outlineMembers (members.map fun member => (member.1, member.2.sorted)) =
      outlineMembers members → MembersInNameOrder members
  | [], _ => True.intro
  | (name, value) :: members, h => by
      rw [List.map_cons, outlineMembers, outlineMembers, List.cons.injEq,
        Prod.mk.injEq] at h
      exact ⟨inNameOrder_of_outline value h.1.2,
        membersInNameOrder_of_outline members h.2⟩

end

end Json

/-! ## The body of a request -/

/-- The text that `parse` reads as the body: it begins four octets behind the blank
line, whose position is kept in an `int`. -/
def bodyTextRead (raw : Bytes) : Option Bytes :=
  if toSize (toInt (find raw crlfcrlf 0)) = npos then none
  else some (raw.drop (toSize (toInt (find raw crlfcrlf 0) + 4)))

/-- A body that is returned was read from that text. -/
theorem readBody_of_parseBody {json : Nlohmann} {raw : Bytes} {body : Option Json}
    (hlen : raw.length < 2 ^ 63)
    (h : parseBody json raw (toInt (find raw crlfcrlf 0)) = .ok body) :
    readBody json (bodyTextRead raw) = .ok body := by
  unfold parseBody at h
  unfold bodyTextRead
  split at h
  · rename_i hnone
    rw [if_pos hnone, ← h]
    rfl
  · rename_i hblank
    rw [if_neg hblank]
    obtain ⟨next, hnext, hrest⟩ := Run.bind_eq_ok.mp h
    obtain ⟨text, hsubstr, hread⟩ := Run.bind_eq_ok.mp hrest
    obtain ⟨rfl, _⟩ := intResult_ok_iff.mp hnext
    have hall : (raw.drop (toSize (toInt (find raw crlfcrlf 0) + 4))).length ≤
        npos := by
      rw [List.length_drop]
      unfold npos
      omega
    rw [substr_eq_ok_iff, List.take_of_length_le hall] at hsubstr
    rw [← hsubstr.2]
    cases text with
    | nil => exact hread
    | cons b text =>
      simp only [reduceCtorEq, if_false, Nlohmann.parse] at hread
      rw [readBody]
      cases hdocument : json.read (b :: text) with
      | ok document =>
        rw [hdocument] at hread
        exact hread
      | error e =>
        rw [hdocument] at hread
        cases e with
        | parseError => exact hread
        | outOfRange => cases hread

/-- Where the position of the blank line is an `int`, that text is what stands
behind it. -/
theorem bodyTextRead_of_cut {raw front behind : Bytes}
    (hcut : cut crlfcrlf raw = some (front, behind))
    (hfront : front.length < 2 ^ 31) :
    bodyTextRead raw = some behind := by
  have hfind : toInt (find raw crlfcrlf 0) = (front.length : Int) := by
    rw [find_of_search (s := raw) (Nat.zero_le _) (search_of_cut hcut),
      Nat.zero_add, toInt_of_lt hfront]
  have hblank : toSize (front.length : Int) ≠ npos := toSize_natCast_ne_npos hfront
  have hsize : toSize ((front.length : Int) + 4) = front.length + 4 := by
    have hcast : (front.length : Int) + 4 = ((front.length + 4 : Nat) : Int) := by
      omega
    rw [hcast, toSize_natCast (by omega)]
  have hbehind : raw.drop (front.length + 4) = behind := drop_behind_cut hcut
  rw [bodyTextRead, hfind, if_neg hblank, hsize, hbehind]

/-- An accepted request with a body holds its document as the library stores it. -/
theorem body_of_parse {json : Nlohmann} {id raw text : Bytes} {req : Request}
    {document : Json} (hlen : raw.length < 2 ^ 63)
    (haccept : parse json id raw = .ok (some req))
    (htext : bodyTextRead raw = some text) (hne : text ≠ [])
    (hread : json.read text = .ok document) : req.body = document.sorted := by
  obtain ⟨targets, headers, start, haccepted⟩ := accepted_of_parse haccept
  have hbody := readBody_of_parseBody hlen haccepted.body
  obtain ⟨b, rest, rfl⟩ := List.exists_cons_of_ne_nil hne
  rw [htext, readBody, hread] at hbody
  simp only [Except.ok.injEq, Option.some_inj] at hbody
  exact hbody.symm

/-- Every object of the body lists its members in the order of the text. -/
def KeepsOrder (document body : Json) : Prop := body.outline = document.outline

/-- The members of a body come in the order of the text that it was read from
exactly when every object of the document has them in the order of their names.
That text is the one behind the blank line, unless the blank line begins at 2^31 or
later. -/
theorem keepsOrder_iff {json : Nlohmann} {id raw text : Bytes} {req : Request}
    {document : Json} (hlen : raw.length < 2 ^ 63)
    (haccept : parse json id raw = .ok (some req))
    (htext : bodyTextRead raw = some text) (hne : text ≠ [])
    (hread : json.read text = .ok document) :
    (KeepsOrder document req.body ↔ document.InNameOrder) ∧
      ∀ front behind, cut crlfcrlf raw = some (front, behind) →
        front.length < 2 ^ 31 → text = behind := by
  refine ⟨?_, ?_⟩
  · rw [KeepsOrder, body_of_parse hlen haccept htext hne hread]
    constructor
    · exact document.inNameOrder_of_outline
    · intro h
      rw [document.sorted_of_inNameOrder h]
  · intro front behind hcut hfront
    rw [bodyTextRead_of_cut hcut hfront, Option.some_inj] at htext
    exact htext.symm

/-- A body with two members, the later name first. -/
def swappedText : Bytes := ascii "\x7b\"b\":1,\"a\":2\x7d"

def swappedDocument : Json :=
  .object [(ascii "b", .number (.unsigned 1)), (ascii "a", .number (.unsigned 2))]

theorem swappedDocument_namesOnce : swappedDocument.NamesOnce :=
  ⟨by decide +kernel, True.intro, True.intro, True.intro⟩

/-- A library that reads this one text. -/
def readsSwapped : Nlohmann :=
  ⟨fun text => if text = swappedText then .ok swappedDocument
    else .error .parseError,
    fun _ _ => []⟩

def swappedFront : Bytes := ascii "POST /a HTTP/1.1\r\nHost: a"

theorem swapped_accepted :
    ∃ req, parse readsSwapped [] (swappedFront ++ crlfcrlf ++ swappedText) =
      .ok (some req) :=
  returnsValue_iff.mp (by decide +kernel)

theorem swapped_cut :
    cut crlfcrlf (swappedFront ++ crlfcrlf ++ swappedText) =
      some (swappedFront, swappedText) := by
  decide +kernel

theorem swapped_length :
    (swappedFront ++ crlfcrlf ++ swappedText).length < 2 ^ 63 := by
  decide +kernel

theorem swapped_read :
    bodyTextRead (swappedFront ++ crlfcrlf ++ swappedText) = some swappedText :=
  bodyTextRead_of_cut swapped_cut (by decide +kernel)

theorem keepsOrder_iff_swapped :
    ∃ req, parse readsSwapped [] (swappedFront ++ crlfcrlf ++ swappedText) =
        .ok (some req) ∧
      (KeepsOrder swappedDocument req.body ↔ swappedDocument.InNameOrder) := by
  obtain ⟨req, haccept⟩ := swapped_accepted
  have hne : swappedText ≠ [] := List.cons_ne_nil _ _
  exact ⟨req, haccept,
    (keepsOrder_iff swapped_length haccept swapped_read hne rfl).1⟩

/-- Its body is stored with the members exchanged. -/
theorem members_exchanged :
    ¬ ∀ (json : Nlohmann) (id raw front text : Bytes) (req : Request)
        (document : Json),
      raw.length < 2 ^ 63 → parse json id raw = .ok (some req) →
      cut crlfcrlf raw = some (front, text) → front.length < 2 ^ 31 → text ≠ [] →
      json.read text = .ok document → document.NamesOnce →
      KeepsOrder document req.body := by
  intro hclaim
  obtain ⟨req, haccept⟩ := swapped_accepted
  have hfront : swappedFront.length < 2 ^ 31 := by decide +kernel
  have hne : swappedText ≠ [] := List.cons_ne_nil _ _
  have hkeeps := hclaim _ _ _ _ _ req _ swapped_length haccept swapped_cut hfront
    hne rfl swappedDocument_namesOnce
  have hbody : req.body = swappedDocument.sorted :=
    body_of_parse swapped_length haccept swapped_read hne rfl
  rw [KeepsOrder, hbody, swappedDocument, Json.sorted, Json.outline, Json.outline,
    Json.object.injEq] at hkeeps
  have hnames := congrArg (List.map Prod.fst) hkeeps
  rw [Json.outlineMembers_names, Json.outlineMembers_names] at hnames
  exact absurd hnames (by decide +kernel)

end UniServer.Http
