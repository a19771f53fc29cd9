import ApiAtlas.Naming.Identifier
import ApiAtlas.Proofs.TextPieces
import Mathlib.Data.String.Basic

namespace ApiAtlas

/-- What stands between words. -/
def isSeparator (c : Char) : Bool := !isAlphanumeric c

/-- The longest stretches of letters and numbers of a name, in order. -/
def nameWords (name : String) : List String := (runs isSeparator name.toList).map String.ofList

section

variable {started gap : Bool} {text other word : List Char} {words : List (List Char)}

theorem isSeparator_underscore : isSeparator '_' = true := by decide

theorem squeezeFrom_copies (h : ∀ c ∈ word, isSeparator c = false) (text : List Char) :
    squeezeFrom true false (word ++ text) = word ++ squeezeFrom true false text := by
  induction word with
  | nil => rfl
  | cons c word ih =>
    obtain ⟨hc, hword⟩ := List.forall_mem_cons.mp h
    have hc : isAlphanumeric c = true := by simpa [isSeparator] using hc
    rw [List.cons_append, squeezeFrom, if_pos hc, Bool.false_and, if_neg Bool.false_ne_true,
      ih hword, List.cons_append]

/-- Where a word ends, whatever follows it starts behind a gap. -/
theorem squeezeFrom_of_ends (h : ∀ c ∈ text.head?, isSeparator c = true) :
    squeezeFrom true false text = squeezeFrom true true text := by
  cases text with
  | nil => rfl
  | cons c text =>
    have hc : ¬ isAlphanumeric c = true := by simpa [isSeparator] using h c rfl
    rw [squeezeFrom, squeezeFrom, if_neg hc, if_neg hc]

theorem squeezeFrom_skips {c : Char} (h : isSeparator c = true) (text : List Char) :
    squeezeFrom started gap (c :: text) = squeezeFrom started true text := by
  have hc : ¬ isAlphanumeric c = true := by simpa [isSeparator] using h
  rw [squeezeFrom, if_neg hc]

/-- A word is copied as it is, with a `_` in front if something was written before the gap. -/
theorem squeezeFrom_word (hne : word ≠ []) (huncut : ∀ c ∈ word, isSeparator c = false)
    (hends : ∀ c ∈ text.head?, isSeparator c = true) :
    squeezeFrom started gap (word ++ text) =
      (if gap && started then ['_'] else []) ++ (word ++ squeezeFrom true true text) := by
  obtain ⟨c, word, rfl⟩ := List.exists_cons_of_ne_nil hne
  obtain ⟨hc, hword⟩ := List.forall_mem_cons.mp huncut
  have hc : isAlphanumeric c = true := by simpa [isSeparator] using hc
  rw [List.cons_append, squeezeFrom, if_pos hc, squeezeFrom_copies hword,
    squeezeFrom_of_ends hends]
  split <;> rfl

theorem squeezeFrom_started (h : MaximalRuns isSeparator text words) :
    squeezeFrom true true text = words.flatMap ('_' :: ·) := by
  induction h with
  | done => rfl
  | skip separator _ ih => rw [squeezeFrom_skips separator, ih]
  | word nonempty uncut ends _ ih =>
    rw [squeezeFrom_word nonempty uncut ends, ih]
    rfl

/-- Until the first word, gaps leave nothing. -/
theorem squeezeFrom_unstarted (h : MaximalRuns isSeparator text words) (gap : Bool) :
    squeezeFrom false gap text = List.intercalate ['_'] words := by
  induction h generalizing gap with
  | done => rfl
  | skip separator _ ih => rw [squeezeFrom_skips separator, ih]
  | word nonempty uncut ends rest _ =>
    rw [squeezeFrom_word nonempty uncut ends, squeezeFrom_started rest, Bool.and_false,
      if_neg Bool.false_ne_true, List.nil_append, intercalate_cons_eq_flatMap]

theorem squeeze_eq (text : List Char) :
    squeeze text = List.intercalate ['_'] (runs isSeparator text) :=
  squeezeFrom_unstarted (maximalRuns_iff.mpr rfl) false

theorem runs_squeeze (text : List Char) :
    runs isSeparator (squeeze text) = runs isSeparator text := by
  rw [squeeze_eq]
  exact runs_intercalate_of_cut isSeparator_underscore fun _ => mem_runs

/-- Each `_` takes the place of a character of the text, but for a gap that was there before. -/
theorem length_squeezeFrom_le (started gap : Bool) (text : List Char) :
    (squeezeFrom started gap text).length ≤ text.length + if gap && started then 1 else 0 := by
  induction text generalizing started gap with
  | nil => exact Nat.zero_le _
  | cons c text ih =>
    have hword := ih true false
    have hgap := ih started true
    rw [squeezeFrom]
    split
    next => split <;> simp_all
    next =>
      simp only [List.length_cons]
      split at hgap <;> omega

/-- No text is shorter than the squeezed one that has its words. -/
theorem length_squeeze_le (h : runs isSeparator other = runs isSeparator text) :
    (squeeze text).length ≤ other.length := by
  have hsame : squeeze other = squeeze text := by rw [squeeze_eq, squeeze_eq, h]
  exact hsame ▸ length_squeezeFrom_le false false other

/-- A `_` at an end or beside another could be left out without losing a word. -/
theorem squeeze_underscores (text : List Char) :
    ¬ ['_'] <+: squeeze text ∧ ¬ ['_'] <:+ squeeze text ∧ ¬ ['_', '_'] <:+: squeeze text := by
  have shortest : ∀ other, runs isSeparator other = runs isSeparator (squeeze text) →
      (squeeze text).length ≤ other.length :=
    fun other h => length_squeeze_le (h.trans (runs_squeeze text))
  refine ⟨?_, ?_, ?_⟩
  · rintro ⟨rest, he⟩
    have hle := shortest rest (by rw [← he]; exact (runs_cons isSeparator_underscore rest).symm)
    simp only [← he, List.length_append, List.length_singleton] at hle
    omega
  · rintro ⟨rest, he⟩
    have hruns : runs isSeparator (rest ++ ['_']) = runs isSeparator rest :=
      (runs_append_cons isSeparator_underscore rest []).trans (List.append_nil _)
    have hle := shortest rest (by rw [← he, hruns])
    simp only [← he, List.length_append, List.length_singleton] at hle
    omega
  · rintro ⟨before, after, he⟩
    have hruns : runs isSeparator (before ++ '_' :: after) =
        runs isSeparator (before ++ ['_', '_'] ++ after) := by
      rw [List.append_assoc, runs_append_cons isSeparator_underscore, List.cons_append,
        runs_append_cons isSeparator_underscore, List.singleton_append,
        runs_cons isSeparator_underscore]
    have hle := shortest (before ++ '_' :: after) (by rw [← he, hruns])
    simp only [← he, List.length_append, List.length_cons, List.length_nil] at hle
    omega

end

/-- Lists of segments are put together one after another, without those that are empty. -/
theorem intercalate_flatten (mark : String) (lists : List (List String)) :
    mark.intercalate ((lists.filter (· ≠ [])).map mark.intercalate) =
      mark.intercalate lists.flatten := by
  induction lists with
  | nil => rfl
  | cons list rest ih =>
    by_cases hl : list = []
    · rw [List.filter_cons_of_neg (by simpa using hl), ih, hl, List.flatten_cons, List.nil_append]
    rw [List.filter_cons_of_pos (by simpa using hl), List.map_cons, List.flatten_cons]
    by_cases hr : rest.flatten = []
    · have hnone : rest.filter (· ≠ []) = [] :=
        List.filter_eq_nil_iff.mpr fun list hm => by
          simpa using List.flatten_eq_nil_iff.mp hr list hm
      rw [hnone, hr, List.map_nil, String.intercalate_singleton, List.append_nil]
    · have hsome : (rest.filter (· ≠ [])).map mark.intercalate ≠ [] := by
        rw [Ne, List.map_eq_nil_iff, List.filter_eq_nil_iff]
        exact fun h => hr (List.flatten_eq_nil_iff.mpr fun list hm => by simpa using h list hm)
      rw [String.intercalate_cons_of_ne_nil hsome, ih, String.intercalate_append_of_ne_nil hl hr]

section

variable {name other : String} {segments : List String}

theorem toList_nameWords (name : String) :
    (nameWords name).map String.toList = runs isSeparator name.toList := by
  simp [nameWords, Function.comp_def]

theorem sanitize_eq (name : String) : sanitize name = "_".intercalate (nameWords name) := by
  rw [← String.toList_inj, String.toList_intercalate, toList_nameWords, sanitize,
    String.toList_ofList, squeeze_eq]
  rfl

theorem nameWords_sanitize (name : String) : nameWords (sanitize name) = nameWords name := by
  rw [nameWords, sanitize, String.toList_ofList, runs_squeeze, nameWords]

theorem nameWords_eq_nil_iff :
    nameWords name = [] ↔ ∀ c ∈ name.toList, isAlphanumeric c = false := by
  rw [nameWords, List.map_eq_nil_iff, runs_eq_nil_iff]
  simp [isSeparator]

theorem sanitize_eq_empty_iff : sanitize name = "" ↔ nameWords name = [] := by
  constructor
  · intro h
    rw [← nameWords_sanitize, h]
    rfl
  · intro h
    rw [sanitize_eq, h]
    rfl

theorem sanitize_inj : sanitize other = sanitize name ↔ nameWords other = nameWords name := by
  constructor
  · intro h
    rw [← nameWords_sanitize, h, nameWords_sanitize]
  · intro h
    rw [sanitize_eq, sanitize_eq, h]

/-- The identifier of some segments comes of all their words, put together. -/
theorem renderSegments_eq_words (naming : NamingSettings) (segments : List String) :
    renderSegments naming segments = finishIdentifier naming (String.ofList
      (naming.convention.apply ("_".intercalate (segments.flatMap nameWords)).toList)) := by
  have hkept : (segments.map sanitize).filter (fun word => !word.isEmpty) =
      ((segments.map nameWords).filter (· ≠ [])).map "_".intercalate := by
    rw [List.filter_map, List.filter_map, List.map_map]
    have hmap : (sanitize ·) = "_".intercalate ∘ nameWords := funext sanitize_eq
    rw [← hmap]
    refine congrArg _ (List.filter_congr fun name _ => ?_)
    rw [Bool.eq_iff_iff]
    simp [sanitize_eq_empty_iff]
  have hjoined := intercalate_flatten "_" (segments.map nameWords)
  rw [← List.flatMap_def, ← hkept] at hjoined
  unfold renderSegments
  simp only
  rw [hjoined]
  split
  next h =>
    rw [List.isEmpty_iff] at h
    rw [← hjoined, h]
    cases naming.convention <;> rfl
  next => rfl

/-- What a name gives to an identifier is its words with one `_` between two of them, and nothing if
it has none. That is read as itself again, has no `_` at an end or beside another, and is the same
for two names just if their words are; then they are rendered alike among any other segments. -/
theorem sanitize_words (name : String) :
    (∀ words, MaximalRuns isSeparator name.toList words ↔
        words = (nameWords name).map String.toList) ∧
      sanitize name = "_".intercalate (nameWords name) ∧
      (sanitize name = "" ↔ ∀ c ∈ name.toList, isAlphanumeric c = false) ∧
      sanitize (sanitize name) = sanitize name ∧
      (¬ ['_'] <+: (sanitize name).toList ∧ ¬ ['_'] <:+ (sanitize name).toList ∧
        ¬ ['_', '_'] <:+: (sanitize name).toList) ∧
      ∀ other, (sanitize other = sanitize name ↔ nameWords other = nameWords name) ∧
        (nameWords other = nameWords name → ∀ naming before after,
          renderSegments naming (before ++ other :: after) =
            renderSegments naming (before ++ name :: after)) := by
  refine ⟨fun words => ?_, sanitize_eq name, ?_, ?_, ?_, fun other =>
    ⟨sanitize_inj, fun h naming before after => ?_⟩⟩
  · rw [toList_nameWords, maximalRuns_iff]
  · rw [sanitize_eq_empty_iff, nameWords_eq_nil_iff]
  · exact sanitize_inj.mpr (nameWords_sanitize name)
  · rw [sanitize, String.toList_ofList]
    exact squeeze_underscores name.toList
  · rw [renderSegments_eq_words, renderSegments_eq_words, List.flatMap_append, List.flatMap_append,
      List.flatMap_cons, List.flatMap_cons, h]

theorem sanitize_words_petId :
    nameWords "_pet--id" = nameWords "pet id." ∧ sanitize "_pet--id" = "pet_id" ∧
      renderSegments {} ["get", "_pet--id"] = renderSegments {} ["get", "pet id."] := by
  have hwords : nameWords "_pet--id" = nameWords "pet id." := by decide +kernel
  refine ⟨hwords, by decide +kernel, ?_⟩
  exact ((sanitize_words "pet id.").2.2.2.2.2 "_pet--id").2 hwords {} ["get"] []

end

end ApiAtlas
