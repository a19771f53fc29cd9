import ApiAtlas.Naming.EnumCases
import ApiAtlas.Proofs.BareNames

namespace ApiAtlas

/-- A text that is legal but for reserved words. -/
def legible (text : String) : String :=
  let text := if text.isEmpty then "Unnamed" else text
  if text.toList.head?.any Char.isDigit then "_" ++ text else text

/-- The identifier of some segments before reserved words are looked up. -/
def spelling (settings : NamingSettings) (segments : List String) : String :=
  let words := (segments.map sanitize).filter fun word => !word.isEmpty
  if words.isEmpty then legible "Unnamed"
  else legible (String.ofList (settings.convention.apply ("_".intercalate words).toList))

/-- The text starts with a character that is no digit. -/
def StartsLegally (text : String) : Prop :=
  ∃ first rest, text.toList = first :: rest ∧ first.isDigit = false

theorem StartsLegally.ne_empty {text : String} (h : StartsLegally text) : text ≠ "" := by
  obtain ⟨first, rest, ht, -⟩ := h
  rintro rfl
  cases ht

theorem StartsLegally.append {text : String} (h : StartsLegally text) (more : String) :
    StartsLegally (text ++ more) := by
  obtain ⟨first, rest, ht, hd⟩ := h
  exact ⟨first, rest ++ more.toList, by rw [String.toList_append, ht, List.cons_append], hd⟩

theorem startsLegally_legible (text : String) : StartsLegally (legible text) := by
  have hne : ∃ first rest, (if text.isEmpty then "Unnamed" else text).toList = first :: rest := by
    split
    next => exact ⟨_, _, rfl⟩
    next hn =>
      refine List.exists_cons_of_ne_nil fun hnil => hn ?_
      simpa using hnil
  obtain ⟨first, rest, ht⟩ := hne
  unfold legible
  simp only [ht, List.head?_cons, Option.any_some]
  split
  next => exact ⟨'_', first :: rest, by rw [String.toList_append, ht]; rfl, rfl⟩
  next hd => exact ⟨first, rest, ht, by simpa using hd⟩

section

variable {naming : NamingSettings} {segments : List String} {identifier : String}

theorem startsLegally_spelling : StartsLegally (spelling naming segments) := by
  unfold spelling
  simp only
  split <;> exact startsLegally_legible _

theorem renderSegments_eq (naming : NamingSettings) (segments : List String) :
    renderSegments naming segments =
      if spelling naming segments ∈ naming.reservedWords then spelling naming segments ++ "_"
      else spelling naming segments := by
  unfold renderSegments spelling finishIdentifier legible
  simp only [List.contains_iff_mem]
  split <;> rfl

theorem startsLegally_renderSegments : StartsLegally (renderSegments naming segments) := by
  rw [renderSegments_eq]
  split
  next => exact startsLegally_spelling.append _
  next => exact startsLegally_spelling

theorem renderSegments_mem_reservedWords :
    renderSegments naming segments ∈ naming.reservedWords ↔
      spelling naming segments ∈ naming.reservedWords ∧
        spelling naming segments ++ "_" ∈ naming.reservedWords := by
  rw [renderSegments_eq]
  split
  next h => simp [h]
  next h => simp [h]

/-- The identifier comes of some segments, perhaps with a number behind it: it starts legally, and
without a number it is a reserved word just where its spelling is one, with `_` and without. -/
structure Emitted (naming : NamingSettings) (segments : List String) (identifier : String) :
    Prop where
  ne_empty : identifier ≠ ""
  no_digit : identifier.toList.head?.any Char.isDigit = false
  rendered : identifier = renderSegments naming segments →
    (identifier ∈ naming.reservedWords ↔ spelling naming segments ∈ naming.reservedWords ∧
      spelling naming segments ++ "_" ∈ naming.reservedWords)
  numbered : identifier ≠ renderSegments naming segments →
    ∃ number, 2 ≤ number ∧ identifier = renderSegments naming segments ++ toString number

theorem emitted_of_startsLegally (hs : StartsLegally identifier)
    (hn : identifier ≠ renderSegments naming segments →
      ∃ number, 2 ≤ number ∧ identifier = renderSegments naming segments ++ toString number) :
    Emitted naming segments identifier := by
  obtain ⟨first, rest, ht, hd⟩ := hs
  refine ⟨StartsLegally.ne_empty ⟨first, rest, ht, hd⟩, by simp [ht, hd], fun he => ?_, hn⟩
  rw [he, renderSegments_mem_reservedWords]

theorem emitted_renderSegments (naming : NamingSettings) (segments : List String) :
    Emitted naming segments (renderSegments naming segments) :=
  emitted_of_startsLegally startsLegally_renderSegments fun h => absurd rfl h

theorem emitted_numbered (naming : NamingSettings) (segments : List String) {number : Nat}
    (h : 2 ≤ number) :
    Emitted naming segments (renderSegments naming segments ++ toString number) :=
  emitted_of_startsLegally (startsLegally_renderSegments.append _) fun _ => ⟨number, h, rfl⟩

/-- No reserved word is another one with `_`, or some text with a number from 2 on. -/
structure NamingSettings.Unambiguous (naming : NamingSettings) : Prop where
  underscore : ∀ word ∈ naming.reservedWords, word ++ "_" ∉ naming.reservedWords
  number : ∀ base number, 2 ≤ number → base ++ toString number ∉ naming.reservedWords

theorem Emitted.not_mem_reservedWords (h : Emitted naming segments identifier)
    (hu : naming.Unambiguous) : identifier ∉ naming.reservedWords := by
  intro hm
  by_cases he : identifier = renderSegments naming segments
  · obtain ⟨hword, hagain⟩ := (h.rendered he).mp hm
    exact hu.underscore _ hword hagain
  · obtain ⟨number, hle, rfl⟩ := h.numbered he
    exact hu.number _ number hle hm

end

namespace Candidate

variable {naming : NamingSettings} {models : Models} {candidate : Candidate}

/-- A name is rendered from the context, perhaps with the last segment of the scope in front. -/
theorem name_of_mem_qualified (h : candidate ∈ qualified naming models) :
    ∃ front, (front = [] ∨ ∃ ancestor,
        (models.scope candidate.id).getLast? = some ancestor ∧ front = [ancestor]) ∧
      candidate.name = renderSegments naming (front ++ candidate.context.segments) := by
  obtain ⟨first, hm, rfl⟩ := List.mem_map.mp h
  have hname : first.name = renderSegments naming first.context.segments := by
    obtain ⟨pair, -, rfl⟩ := List.mem_map.mp hm
    rfl
  unfold qualify
  split
  next =>
    split
    next ancestor ha => exact ⟨[ancestor], .inr ⟨ancestor, ha, rfl⟩, rfl⟩
    next => exact ⟨[], .inl rfl, hname⟩
  next => exact ⟨[], .inl rfl, hname⟩

end Candidate

namespace NameEntry

/-- The identifier comes of the context of the model, perhaps with the last literal segment of its
operation's path in front. -/
def Emitted (naming : NamingSettings) (entry : NameEntry) : Prop :=
  ∃ front, (front = [] ∨ ∃ ancestor, entry.scope.getLast? = some ancestor ∧ front = [ancestor]) ∧
    ApiAtlas.Emitted naming (front ++ entry.context.segments) entry.identifier

end NameEntry

theorem Models.emitted_of_assign {naming : NamingSettings} {models : Models} {names : NameTable}
    (h : models.assign naming = .ok names) : ∀ pair ∈ names, pair.2.Emitted naming := by
  obtain ⟨settled, hall, rfl⟩ := assign_eq_ok h
  intro pair hp
  obtain ⟨⟨candidate, identifier⟩, hm, rfl⟩ := List.mem_map.mp hp
  have hmem : candidate ∈ Candidate.qualified naming models :=
    Candidate.settleAll_candidates _ hall ▸ List.mem_map_of_mem hm
  obtain ⟨front, hfront, hname⟩ := Candidate.name_of_mem_qualified hmem
  refine ⟨front, hfront, ?_⟩
  by_cases hown : identifier = candidate.name
  · rw [hown, hname]
    exact emitted_renderSegments _ _
  · obtain ⟨-, number, hle, -, he⟩ := Candidate.settleAll_numbers hall _ hm hown
    simp only at he
    rw [he, hname]
    exact emitted_numbered _ _ hle

namespace EnumCase

/-- The segments that a case is named by. -/
def segments (case : EnumCase) : List String :=
  match case.value with
  | some value => if (sanitize value).isEmpty then ["Empty"] else [value]
  | none => [EnumModel.customSegment]

end EnumCase

namespace EnumModel

theorem freeCase_cases (taken : List String) (base : String) : freeCase taken base = base ∨
    ∃ number, 2 ≤ number ∧ freeCase taken base = base ++ toString number := by
  unfold freeCase
  split
  next =>
    cases h : firstFree taken base 2 (taken.length + 1) with
    | none => exact .inl rfl
    | some identifier =>
      obtain ⟨number, hle, -, he⟩ := firstFree_eq_some _ h
      exact .inr ⟨number, hle, he⟩
  next => exact .inl rfl

/-- Each case has the identifier that was asked for with its value, or this with a number. -/
theorem mem_nameCases {case : EnumCase} : ∀ {asked : List (String × Option String)}
    {taken : List String}, case ∈ nameCases taken asked →
      ∃ base, (base, case.value) ∈ asked ∧ (case.identifier = base ∨
        ∃ number, 2 ≤ number ∧ case.identifier = base ++ toString number) := by
  intro asked
  induction asked with
  | nil => exact fun h => absurd h List.not_mem_nil
  | cons first rest ih =>
    obtain ⟨base, value⟩ := first
    intro taken h
    rw [nameCases] at h
    rcases List.mem_cons.mp h with rfl | h
    · exact ⟨base, List.mem_cons_self, freeCase_cases taken base⟩
    · obtain ⟨other, hm, hcase⟩ := ih h
      exact ⟨other, List.mem_cons_of_mem _ hm, hcase⟩

theorem emitted_cases {naming : NamingSettings} {model : EnumModel} {case : EnumCase}
    (h : case ∈ model.cases naming) : Emitted naming case.segments case.identifier := by
  obtain ⟨base, hm, hcase⟩ := mem_nameCases h
  have hbase : base = renderSegments naming case.segments := by
    rcases List.mem_append.mp hm with hm | hm
    · obtain ⟨value, -, he⟩ := List.mem_map.mp hm
      obtain ⟨rfl, hvalue⟩ := Prod.mk.inj he
      rw [EnumCase.segments, ← hvalue, caseBase]
      simp only
      split <;> rfl
    · split at hm
      next =>
        obtain ⟨rfl, hvalue⟩ := Prod.mk.inj (List.mem_singleton.mp hm)
        rw [EnumCase.segments, hvalue]
      next => exact absurd hm List.not_mem_nil
  subst hbase
  rcases hcase with he | ⟨number, hle, he⟩
  · rw [he]
    exact emitted_renderSegments _ _
  · rw [he]
    exact emitted_numbered _ _ hle

end EnumModel

/-- Identifiers of models and of enum cases are never empty and have no digit in front. One without
a number is a reserved word just where its spelling is one and is one again with `_`; reserved words
are not looked up for one with a number. So none is a reserved word where no reserved word is
another one with `_`, or a text with a number. -/
theorem NamingSettings.emits_legal (naming : NamingSettings) :
    (∀ models names, Models.assign naming models = .ok names →
      ∀ pair ∈ names, pair.2.Emitted naming ∧
        (naming.Unambiguous → pair.2.identifier ∉ naming.reservedWords)) ∧
    ∀ model, ∀ case ∈ EnumModel.cases naming model,
      Emitted naming case.segments case.identifier ∧
        (naming.Unambiguous → case.identifier ∉ naming.reservedWords) := by
  refine ⟨fun models names h pair hp => ?_, fun model case hm => ?_⟩
  · have hemitted := Models.emitted_of_assign h pair hp
    have hlegal : naming.Unambiguous → pair.2.identifier ∉ naming.reservedWords := by
      obtain ⟨front, -, hsegments⟩ := hemitted
      exact hsegments.not_mem_reservedWords
    exact ⟨hemitted, hlegal⟩
  · have hemitted := EnumModel.emitted_cases hm
    exact ⟨hemitted, hemitted.not_mem_reservedWords⟩

/-- Two models of one name. -/
def Models.twins : Models where
  nodes := [.object ⟨.named "Pet", none, [], false⟩, .object ⟨.named "pet", none, [], false⟩]
  components := [("Pet", 0), ("pet", 1)]
  scopes := [[], []]

/-- Two values of one name. -/
def EnumModel.twins : EnumModel where
  kind := .closed .string
  context := .named "Kind"
  values := ["Pet", "pet"]
  fallback := none
  description := none

/-- Identifiers of models and of cases that are reserved words, by their `_` or by their number. -/
theorem NamingSettings.emits_reserved :
    (∃ names, Models.twins.assign { reservedWords := ["Pet", "Pet_"] } = .ok names ∧
      ∃ pair ∈ names, pair.2.identifier = "Pet_") ∧
    (∃ names, Models.twins.assign { reservedWords := ["Pet2"] } = .ok names ∧
      ∃ pair ∈ names, pair.2.identifier = "Pet2") ∧
    (∃ case ∈ EnumModel.twins.cases { reservedWords := ["Pet", "Pet_"] },
      case.identifier = "Pet_") ∧
    ∃ case ∈ EnumModel.twins.cases { reservedWords := ["Pet2"] }, case.identifier = "Pet2" := by
  refine ⟨?_, ?_, ?_, ?_⟩
  · exact ⟨[(0, ⟨.named "Pet", [], "Pet_"⟩), (1, ⟨.named "pet", [], "Pet_2"⟩)],
      by decide +kernel, by decide⟩
  · exact ⟨[(0, ⟨.named "Pet", [], "Pet"⟩), (1, ⟨.named "pet", [], "Pet2"⟩)],
      by decide +kernel, by decide⟩
  · decide +kernel
  · decide +kernel

end ApiAtlas
