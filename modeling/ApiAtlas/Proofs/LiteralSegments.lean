import ApiAtlas.Naming.Operation
import ApiAtlas.Proofs.TextPieces
import ApiAtlas.Route.Tree

namespace ApiAtlas

/-- No opening brace is followed by a closing one, be it at once or later. -/
def Unpaired (text : List Char) : Prop := text.Pairwise fun c d => c = '\x7b' → d ≠ '\x7d'

/-- Neither an opening nor a closing brace stands in the text. -/
def BraceFree (text : List Char) : Prop := '\x7b' ∉ text ∧ '\x7d' ∉ text

instance (text : List Char) : Decidable (BraceFree text) :=
  inferInstanceAs (Decidable (_ ∧ _))

/-- A text in braces, without further ones. -/
def InBraces (segment : List Char) : Prop :=
  ∃ name, BraceFree name ∧ segment = '\x7b' :: (name ++ ['\x7d'])

section
variable {text rest name segment : List Char}

theorem dropParameters_sublist (text : List Char) :
    ∀ inside : Bool, (dropParameters inside text).Sublist text := by
  induction text with
  | nil => exact fun inside => by cases inside <;> exact List.Sublist.refl _
  | cons c rest ih =>
    intro inside
    rw [dropParameters]
    split
    next => exact (ih _).cons c
    next =>
      split
      next => exact (ih true).cons c
      next => exact (ih false).cons_cons c

/-- What is left of a path has no pair of braces, also where a brace was left before and one comes
after what was dropped. -/
theorem unpaired_dropParameters (text : List Char) :
    ∀ inside : Bool, Unpaired (dropParameters inside text) := by
  induction text with
  | nil => exact fun inside => by cases inside <;> exact List.Pairwise.nil
  | cons c rest ih =>
    intro inside
    rw [dropParameters]
    split
    next => exact ih _
    next =>
      split
      next => exact ih true
      next hkept =>
        refine List.pairwise_cons.mpr ⟨fun d hd hc he => ?_, ih false⟩
        exact hkept ⟨hc, he ▸ (dropParameters_sublist rest false).subset hd⟩

theorem dropParameters_of_unpaired (h : Unpaired text) : dropParameters false text = text := by
  induction text with
  | nil => rfl
  | cons c rest ih =>
    obtain ⟨hc, hrest⟩ := List.pairwise_cons.mp h
    have hkept : ¬ (c = '\x7b' ∧ '\x7d' ∈ rest) := fun ⟨hopen, hclose⟩ => hc _ hclose hopen rfl
    rw [dropParameters, if_neg (by simp), if_neg hkept, ih hrest]

theorem dropParameters_append_of_braceFree (h : BraceFree text) (rest : List Char) :
    dropParameters false (text ++ rest) = text ++ dropParameters false rest := by
  induction text with
  | nil => rfl
  | cons c text ih =>
    obtain ⟨hopen, hclose⟩ := h
    simp only [List.mem_cons, not_or] at hopen hclose
    rw [List.cons_append, dropParameters, if_neg (by simp), if_neg fun hc => hopen.1 hc.1.symm,
      ih ⟨hopen.2, hclose.2⟩]
    rfl

/-- What is being dropped ends with the first closing brace. -/
theorem dropParameters_inside (h : '\x7d' ∉ name) (rest : List Char) :
    dropParameters true (name ++ '\x7d' :: rest) = dropParameters false rest := by
  induction name with
  | nil => simp [dropParameters]
  | cons c name ih =>
    simp only [List.mem_cons, not_or] at h
    have hc : decide (c ≠ '\x7d') = true := by simpa using Ne.symm h.1
    rw [List.cons_append, dropParameters, if_pos rfl, hc, ih h.2]

theorem dropParameters_append_of_inBraces (h : InBraces segment) (rest : List Char) :
    dropParameters false (segment ++ rest) = dropParameters false rest := by
  obtain ⟨name, hname, rfl⟩ := h
  rw [List.cons_append, List.append_assoc, dropParameters, if_neg (by simp), if_pos (by simp)]
  exact dropParameters_inside hname.2 rest

theorem InBraces.not_braceFree (h : InBraces segment) : ¬ BraceFree segment := by
  obtain ⟨name, _, rfl⟩ := h
  exact fun hfree => hfree.1 List.mem_cons_self

theorem InBraces.isParameterSegment (h : InBraces segment) : isParameterSegment segment = true := by
  obtain ⟨name, _, rfl⟩ := h
  rw [ApiAtlas.isParameterSegment, ← List.cons_append, List.getLast?_concat]
  rfl

theorem BraceFree.not_isParameterSegment (h : BraceFree segment) :
    isParameterSegment segment = false := by
  cases segment with
  | nil => rfl
  | cons c rest =>
    have hc : c ≠ '\x7b' := fun he => h.1 (he ▸ List.mem_cons_self)
    simp [ApiAtlas.isParameterSegment, hc]

end

/-- What is left of a segment that is a parameter as a whole or has none. -/
def literalPart (segment : List Char) : List Char := if BraceFree segment then segment else []

/-- Segment by segment, the parameters are dropped. -/
theorem dropParameters_intercalate {segments : List (List Char)}
    (h : ∀ segment ∈ segments, BraceFree segment ∨ InBraces segment) :
    dropParameters false (List.intercalate ['/'] segments) =
      List.intercalate ['/'] (segments.map literalPart) := by
  have hpart : ∀ segment rest, BraceFree segment ∨ InBraces segment →
      dropParameters false (segment ++ rest) =
        literalPart segment ++ dropParameters false rest := by
    rintro segment rest (hfree | hbraces)
    · rw [literalPart, if_pos hfree, dropParameters_append_of_braceFree hfree]
    · rw [literalPart, if_neg hbraces.not_braceFree, dropParameters_append_of_inBraces hbraces]
      rfl
  induction segments with
  | nil => rfl
  | cons segment rest ih =>
    obtain ⟨hsegment, hrest⟩ := List.forall_mem_cons.mp h
    cases rest with
    | nil =>
      have hlast := hpart segment [] hsegment
      simp only [dropParameters, List.append_nil] at hlast
      rw [List.map_singleton, List.intercalate_singleton, List.intercalate_singleton, hlast]
    | cons next rest =>
      have hmark : BraceFree ['/'] := by decide
      rw [List.map_cons, List.map_cons, List.intercalate_cons_cons, List.intercalate_cons_cons,
        List.append_assoc, List.append_assoc, hpart segment _ hsegment,
        dropParameters_append_of_braceFree hmark, ih hrest, List.map_cons]

/-- Each segment of the path is a parameter as a whole or has no brace. -/
def PlainPath (path : String) : Prop :=
  ∀ segment ∈ pieces (· = '/') path.toList, BraceFree segment ∨ InBraces segment

theorem filter_literalPart (segments : List (List Char)) :
    (segments.map literalPart).filter (fun segment => !segment.isEmpty) =
      segments.filter fun segment => segment ≠ [] ∧ BraceFree segment := by
  induction segments with
  | nil => rfl
  | cons segment rest ih =>
    rw [List.map_cons, List.filter_cons, List.filter_cons, ih, literalPart]
    by_cases hfree : BraceFree segment
    · cases segment <;> simp [hfree]
    · simp [hfree]

theorem PlainPath.literals {path : String} (h : PlainPath path) :
    runs (· = '/') (dropParameters false path.toList) =
      (pieces (· = '/') path.toList).filter fun segment => segment ≠ [] ∧ BraceFree segment := by
  have hpath : List.intercalate ['/'] (pieces (· = '/') path.toList) = path.toList := by
    rw [pieces_eq_splitOn, List.intercalate_splitOn]
  have hdropped := dropParameters_intercalate h
  rw [hpath] at hdropped
  have hparts : ∀ part ∈ (pieces (· = '/') path.toList).map literalPart, '/' ∉ part := by
    intro part hm
    obtain ⟨segment, hs, rfl⟩ := List.mem_map.mp hm
    unfold literalPart
    split
    next => exact mark_not_mem_pieces segment hs
    next => exact List.not_mem_nil
  have hne : (pieces (· = '/') path.toList).map literalPart ≠ [] := by
    rw [pieces_eq_splitOn, Ne, List.map_eq_nil_iff]
    exact List.splitOn_ne_nil _ _
  rw [hdropped, runs, pieces_eq_splitOn, List.splitOn_intercalate '/' hparts hne,
    filter_literalPart]

theorem PlainPath.resources {path : String} (h : PlainPath path) :
    (runs (· = '/') path.toList).filter (fun segment => !isParameterSegment segment) =
      (pieces (· = '/') path.toList).filter fun segment => segment ≠ [] ∧ BraceFree segment := by
  rw [runs, List.filter_filter]
  refine List.filter_congr fun segment hm => ?_
  rcases h segment hm with hfree | hbraces
  · cases segment <;> simp [hfree, hfree.not_isParameterSegment]
  · simp [hbraces.isParameterSegment, hbraces.not_braceFree]

/-- The literal segments of a path are not empty and have no slash, no pair of braces stands in the
path that they make, and that path has the same literal segments. If each segment of a path is a
parameter as a whole or has no brace, they are the segments without braces that are not empty, and
the name of an operation is made of them. -/
theorem literalSegments_normal (path : String) :
    (∀ segment ∈ literalSegments path, segment ≠ "" ∧ '/' ∉ segment.toList) ∧
      Unpaired ("/".intercalate (literalSegments path)).toList ∧
      literalSegments ("/" ++ "/".intercalate (literalSegments path)) = literalSegments path ∧
      (PlainPath path →
        literalSegments path = ((pieces (· = '/') path.toList).filter fun segment =>
          segment ≠ [] ∧ BraceFree segment).map String.ofList ∧
        (runs (· = '/') path.toList).filter (fun segment => !isParameterSegment segment) =
          (literalSegments path).map String.toList ∧
        ∀ method, routeName method path =
          let single := (runs (· = '/') path.toList).getLast?.any isParameterSegment
          method.verb single ++
            String.ofList (resourceWords single ((literalSegments path).map String.toList))) := by
  have htexts : (literalSegments path).map String.toList =
      runs (· = '/') (dropParameters false path.toList) := by
    simp [literalSegments, Function.comp_def]
  have hruns : ∀ segment ∈ runs (· = '/') (dropParameters false path.toList),
      segment ≠ [] ∧ '/' ∉ segment := by
    intro segment hm
    obtain ⟨hp, hne⟩ := List.mem_filter.mp hm
    exact ⟨by simpa using hne, mark_not_mem_pieces segment hp⟩
  have hjoined : ("/".intercalate (literalSegments path)).toList =
      List.intercalate ['/'] (runs (· = '/') (dropParameters false path.toList)) := by
    rw [String.toList_intercalate, htexts]
    rfl
  have hunpaired : Unpaired ("/".intercalate (literalSegments path)).toList := by
    rw [hjoined]
    exact (unpaired_dropParameters path.toList false).sublist (intercalate_runs_sublist '/' _)
  refine ⟨fun segment hm => ?_, hunpaired, ?_, fun h => ⟨?_, ?_, fun method => ?_⟩⟩
  · obtain ⟨text, ht, rfl⟩ := List.mem_map.mp hm
    obtain ⟨hne, hmark⟩ := hruns text ht
    exact ⟨by simpa using hne, by simpa using hmark⟩
  · have hslash : Unpaired ('/' :: ("/".intercalate (literalSegments path)).toList) :=
      List.pairwise_cons.mpr ⟨fun _ _ he => absurd he (by decide), hunpaired⟩
    have hpath : ("/" ++ "/".intercalate (literalSegments path)).toList =
        '/' :: ("/".intercalate (literalSegments path)).toList := String.toList_append
    rw [literalSegments, hpath, dropParameters_of_unpaired hslash, runs_cons_mark, hjoined,
      runs_intercalate hruns]
    rfl
  · rw [literalSegments, h.literals]
  · rw [h.resources, htexts, h.literals]
  · rw [htexts, h.literals, ← h.resources]
    rfl

theorem literalSegments_normal_files : PlainPath "/files/\x7bid\x7d/content" ∧
    literalSegments "/files/\x7bid\x7d/content" = ["files", "content"] := by
  have hplain : PlainPath "/files/\x7bid\x7d/content" := by
    intro segment hm
    have hpieces : pieces (· = '/') "/files/\x7bid\x7d/content".toList =
        [[], "files".toList, "\x7bid\x7d".toList, "content".toList] := by decide
    rw [hpieces] at hm
    simp only [List.mem_cons, List.not_mem_nil, or_false] at hm
    rcases hm with rfl | rfl | rfl | rfl
    · exact .inl (by decide)
    · exact .inl (by decide)
    · exact .inr ⟨"id".toList, by decide, rfl⟩
    · exact .inl (by decide)
  refine ⟨hplain, ?_⟩
  rw [((literalSegments_normal _).2.2.2 hplain).1]
  decide

end ApiAtlas
