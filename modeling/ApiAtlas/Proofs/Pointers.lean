import ApiAtlas.Proofs.NumberedTexts
import ApiAtlas.Proofs.PrintedRecords
import ApiAtlas.Proofs.TextPieces
import ApiAtlas.Resolve.Operation
import Mathlib.Data.List.Basic

namespace ApiAtlas

/-- The token that is written as a step of a pointer. -/
def unescape? : List Char → Option (List Char)
  | [] => some []
  | [c] => if c = '~' then none else some [c]
  | c :: d :: rest =>
    if c = '~' then
      if d = '0' then (unescape? rest).map ('~' :: ·)
      else if d = '1' then (unescape? rest).map ('/' :: ·)
      else none
    else (unescape? (d :: rest)).map (c :: ·)

/-- The tokens of a pointer in fragment form. -/
def pointerTokens? (pointer : String) : Option (List String) :=
  match pieces (· == '/') pointer.toList with
  | ['#'] :: steps => steps.mapM fun step => (unescape? step).map String.ofList
  | _ => none

/-- The values that a token leads to from a value. -/
def Json.inside (token : String) : Json → List Json
  | .object members =>
    members.filterMap fun (name, value) => if name = token then some value else none
  | .array items =>
    items.zipIdx.filterMap fun (item, index) => if toString index = token then some item else none
  | _ => []

/-- The values that tokens lead to, one after the other. -/
def Json.follow : List String → Json → List Json
  | [], value => [value]
  | token :: rest, value => (value.inside token).flatMap (follow rest)

/-- The values that a document has at a pointer. -/
def Document.valuesAt (document : Document) (pointer : String) : List Json :=
  match pointerTokens? pointer with
  | some tokens => document.toJson.follow tokens
  | none => []

/-- The document has the value at the pointer. -/
def Document.Holds (document : Document) (pointer : String) (value : Json) : Prop :=
  value ∈ document.valuesAt pointer

theorem unescape?_cons {c : Char} {rest : List Char} (h : c ≠ '~') :
    unescape? (c :: rest) = (unescape? rest).map (c :: ·) := by
  cases rest with
  | nil => simp [unescape?, h]
  | cons d rest => simp [unescape?, h]

theorem unescape?_escapeToken (token : String) :
    unescape? (escapeToken token).toList = some token.toList := by
  unfold escapeToken
  rw [String.toList_ofList]
  induction token.toList with
  | nil => rfl
  | cons c rest ih =>
    rw [List.flatMap_cons]
    by_cases ht : c = '~'
    · simp [ht, unescape?, ih]
    · by_cases hs : c = '/'
      · simp [hs, unescape?, ih]
      · rw [if_neg ht, if_neg hs, List.singleton_append, unescape?_cons ht, ih]
        rfl

theorem slash_not_mem_escapeToken (token : String) : '/' ∉ (escapeToken token).toList := by
  unfold escapeToken
  rw [String.toList_ofList, List.mem_flatMap]
  rintro ⟨c, -, hc⟩
  split at hc
  next => simp at hc
  next =>
    split at hc
    next => simp at hc
    next hs => exact hs (List.mem_singleton.mp hc).symm

theorem pointerTokens?_below {pointer : String} {tokens : List String}
    (h : pointerTokens? pointer = some tokens) (token : String) :
    pointerTokens? (below pointer (escapeToken token)) = some (tokens ++ [token]) := by
  have htext : (below pointer (escapeToken token)).toList =
      pointer.toList ++ '/' :: (escapeToken token).toList := by
    simp [below]
  have hlast : pieces (· == '/') (escapeToken token).toList = [(escapeToken token).toList] := by
    rw [pieces_eq_splitOnP]
    refine List.splitOnP_eq_singleton fun c hc => ?_
    have hne : c ≠ '/' := fun he => slash_not_mem_escapeToken token (he ▸ hc)
    simpa using hne
  unfold pointerTokens? at h ⊢
  rw [htext, pieces_eq_splitOnP, List.splitOnP_append_cons _ _ (by rfl), ← pieces_eq_splitOnP,
    ← pieces_eq_splitOnP, hlast]
  split at h
  next steps hp =>
    rw [hp, List.cons_append]
    simp [List.mapM_append, h, unescape?_escapeToken, String.ofList_toList]
  next => cases h

theorem Json.mem_inside {members : List (String × Json)} {name : String} {value : Json}
    (h : (name, value) ∈ members) : value ∈ (Json.object members).inside name :=
  List.mem_filterMap.mpr ⟨(name, value), h, if_pos rfl⟩

theorem Json.follow_append (tokens : List String) (token : String) : ∀ value : Json,
    follow (tokens ++ [token]) value = (follow tokens value).flatMap (inside token) := by
  induction tokens with
  | nil => simp [follow]
  | cons first rest ih =>
    intro value
    rw [List.cons_append, follow, follow, List.flatMap_assoc]
    congr 1
    exact funext ih

theorem escapeToken_eq_self {token : String}
    (h : ∀ c ∈ token.toList, c ≠ '~' ∧ c ≠ '/') : escapeToken token = token := by
  have hkept : (token.toList.flatMap fun c =>
      if c = '~' then ['~', '0'] else if c = '/' then ['~', '1'] else [c]) = token.toList := by
    rw [← List.flatMap_singleton' token.toList, List.flatMap_assoc]
    apply List.flatMap_congr
    intro c hc
    simp [(h c hc).1, (h c hc).2]
  rw [escapeToken, hkept, String.ofList_toList]

theorem escapeToken_toString (index : Nat) : escapeToken (toString index) = toString index := by
  apply escapeToken_eq_self
  intro c hc
  have hd : c.isDigit = true := by
    rw [toList_toString_nat] at hc
    exact Nat.isDigit_of_mem_toDigits (by decide) (by decide) hc
  constructor
  · rintro rfl
    cases hd
  · rintro rfl
    cases hd

namespace Document

variable {document : Document} {place : String} {value inner : Json}

theorem Holds.inside (h : document.Holds place value) (token : String)
    (hi : inner ∈ value.inside token) : document.Holds (below place (escapeToken token)) inner := by
  unfold Holds valuesAt at h ⊢
  cases hp : pointerTokens? place with
  | none => simp [hp] at h
  | some tokens =>
    simp only [hp] at h
    simp only [pointerTokens?_below hp, Json.follow_append]
    exact List.mem_flatMap.mpr ⟨value, h, hi⟩

theorem Holds.member {members : List (String × Json)} (h : document.Holds place (.object members))
    (name : String) (hm : (name, inner) ∈ members) :
    document.Holds (below place (escapeToken name)) inner := by
  exact h.inside name (Json.mem_inside hm)

theorem Holds.item {items : List Json} (h : document.Holds place (.array items)) {index : Nat}
    (hi : items[index]? = some inner) : document.Holds (below place (toString index)) inner := by
  rw [← escapeToken_toString]
  apply h.inside (toString index)
  exact List.mem_filterMap.mpr ⟨(inner, index), List.mem_zipIdx_iff_getElem?.mpr hi, if_pos rfl⟩

/-- A member of a map of a record. -/
theorem Holds.mapMember {α : Type} {write : α → Json} {entries : Entries α} {record : Json}
    {key : String} {entry : α} (h : document.Holds place record) (name : String)
    (hr : ∀ v, Json.objectIfAny (membersOf write entries) = some v → v ∈ record.inside name)
    (hm : (key, entry) ∈ entries) :
    document.Holds (below (below place (escapeToken name)) (escapeToken key)) (write entry) := by
  have hmem : (key, write entry) ∈ membersOf write entries := List.mem_map.mpr ⟨_, hm, rfl⟩
  have hobject : Json.objectIfAny (membersOf write entries) =
      some (.object (membersOf write entries)) := by
    cases hw : membersOf write entries with
    | nil => simp [hw] at hmem
    | cons first rest => rfl
  exact (h.inside name (hr _ hobject)).member key hmem

/-- An item of a list of a record. -/
theorem Holds.listItem {α : Type} {write : α → Json} {items : List α} {record : Json}
    {index : Nat} {item : α} (h : document.Holds place record) (name : String)
    (hr : ∀ v, Json.arrayIfAny (items.map write) = some v → v ∈ record.inside name)
    (hi : items[index]? = some item) :
    document.Holds (below (below place (escapeToken name)) (toString index)) (write item) := by
  have harray : Json.arrayIfAny (items.map write) = some (.array (items.map write)) := by
    cases items with
    | nil => simp at hi
    | cons first rest => rfl
  refine (h.inside name (hr _ harray)).item ?_
  rw [List.getElem?_map, hi]
  rfl

theorem Holds.here (document : Document) : document.Holds "#" document.toJson := by
  have htokens : pointerTokens? "#" = some [] := by decide
  simp [Holds, valuesAt, htokens, Json.follow]

end Document

theorem Table.mem_inside {table : Table} {extensions : List (String × Json)} {name : String}
    {value : Json} (h : (name, some value) ∈ table) :
    value ∈ (Json.object (table.members ++ extensions)).inside name :=
  Json.mem_inside (List.mem_append_left _ (mem_members.mpr h))

end ApiAtlas
