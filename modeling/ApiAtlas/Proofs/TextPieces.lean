import ApiAtlas.Text.Pieces

namespace ApiAtlas

variable {cut : Char → Bool} {mark c : Char} {text run : List Char}
  {segments words : List (List Char)}

theorem pieces_eq_splitOnP (cut : Char → Bool) (text : List Char) :
    pieces cut text = text.splitOnP cut := by
  induction text with
  | nil => rw [pieces, List.splitOnP_nil]
  | cons c rest ih =>
    rw [pieces, List.splitOnP_cons_eq_if_modifyHead, ih]
    split
    next => rfl
    next =>
      obtain ⟨first, others, hsplit⟩ :=
        List.exists_cons_of_ne_nil (List.splitOnP_ne_nil cut rest)
      rw [hsplit]
      rfl

theorem pieces_eq_splitOn (mark : Char) (text : List Char) :
    pieces (· = mark) text = text.splitOn mark := by
  rw [pieces_eq_splitOnP, List.splitOn_eq_splitOnP]
  rfl

/-- No separator is left in a piece. -/
theorem cut_of_mem_pieces : ∀ piece ∈ pieces cut text, ∀ c ∈ piece, cut c = false := by
  induction text with
  | nil => simp [pieces]
  | cons c rest ih =>
    rw [pieces]
    split
    next => exact List.forall_mem_cons.mpr ⟨by simp, ih⟩
    next hc =>
      have hc : cut c = false := by simpa using hc
      cases hp : pieces cut rest with
      | nil => simpa using hc
      | cons first others =>
        rw [hp] at ih
        obtain ⟨hfirst, hothers⟩ := List.forall_mem_cons.mp ih
        exact List.forall_mem_cons.mpr ⟨List.forall_mem_cons.mpr ⟨hc, hfirst⟩, hothers⟩

theorem mark_not_mem_pieces : ∀ piece ∈ pieces (· = mark) text, mark ∉ piece := by
  intro piece hp hm
  simpa using cut_of_mem_pieces piece hp mark hm

/-- A separator parts the runs before it from the runs after it. -/
theorem runs_append_cons (hc : cut c = true) (before after : List Char) :
    runs cut (before ++ c :: after) = runs cut before ++ runs cut after := by
  simp only [runs, pieces_eq_splitOnP]
  rw [List.splitOnP_append_cons before after hc, List.filter_append]

theorem runs_cons (hc : cut c = true) (text : List Char) : runs cut (c :: text) = runs cut text :=
  runs_append_cons hc [] text

/-- A separator in front makes no run. -/
theorem runs_cons_mark (text : List Char) :
    runs (· = mark) (mark :: text) = runs (· = mark) text :=
  runs_cons (by simp) text

theorem runs_of_uncut (hne : run ≠ []) (h : ∀ c ∈ run, cut c = false) : runs cut run = [run] := by
  unfold runs
  rw [pieces_eq_splitOnP, List.splitOnP_eq_singleton h]
  simpa using hne

/-- Segments without separators are the runs of the text that they make. -/
theorem runs_intercalate_of_cut (hmark : cut mark = true)
    (h : ∀ segment ∈ segments, segment ≠ [] ∧ ∀ c ∈ segment, cut c = false) :
    runs cut (List.intercalate [mark] segments) = segments := by
  induction segments with
  | nil => rfl
  | cons segment rest ih =>
    obtain ⟨⟨hne, huncut⟩, hrest⟩ := List.forall_mem_cons.mp h
    cases rest with
    | nil => rw [List.intercalate_singleton, runs_of_uncut hne huncut]
    | cons next rest =>
      rw [List.intercalate_cons_cons, List.append_assoc, List.singleton_append,
        runs_append_cons hmark, runs_of_uncut hne huncut, ih hrest]
      rfl

theorem runs_intercalate (h : ∀ segment ∈ segments, segment ≠ [] ∧ mark ∉ segment) :
    runs (· = mark) (List.intercalate [mark] segments) = segments := by
  refine runs_intercalate_of_cut (by simp) fun segment hs => ⟨(h segment hs).1, fun c hc => ?_⟩
  simpa using ne_of_mem_of_not_mem hc (h segment hs).2

theorem mem_runs (h : run ∈ runs cut text) : run ≠ [] ∧ ∀ c ∈ run, cut c = false := by
  obtain ⟨hp, hne⟩ := List.mem_filter.mp h
  exact ⟨by simpa using hne, cut_of_mem_pieces run hp⟩

/-- The words of a text are its longest stretches without a separator: what stands between them is
separators, and a word ends only where the text does or a separator follows. -/
inductive MaximalRuns (cut : Char → Bool) : List Char → List (List Char) → Prop
  | done : MaximalRuns cut [] []
  | skip {c : Char} {text : List Char} {words : List (List Char)} (separator : cut c = true)
      (rest : MaximalRuns cut text words) : MaximalRuns cut (c :: text) words
  | word {run text : List Char} {words : List (List Char)} (nonempty : run ≠ [])
      (uncut : ∀ c ∈ run, cut c = false) (ends : ∀ c ∈ text.head?, cut c = true)
      (rest : MaximalRuns cut text words) : MaximalRuns cut (run ++ text) (run :: words)

theorem MaximalRuns.eq_runs (h : MaximalRuns cut text words) : words = runs cut text := by
  induction h with
  | done => rfl
  | skip separator _ ih => rw [runs_cons separator, ih]
  | @word run text words nonempty uncut ends _ ih =>
    cases text with
    | nil => rw [List.append_nil, runs_of_uncut nonempty uncut, ih]; rfl
    | cons c text =>
      have hc : cut c = true := ends c rfl
      rw [runs_append_cons hc, runs_of_uncut nonempty uncut, ih, runs_cons hc]
      rfl

theorem exists_maximalRuns (cut : Char → Bool) (text : List Char) :
    ∃ words, MaximalRuns cut text words := by
  induction text with
  | nil => exact ⟨[], .done⟩
  | cons c text ih =>
    obtain ⟨words, h⟩ := ih
    by_cases hc : cut c = true
    · exact ⟨words, .skip hc h⟩
    -- A character that is no separator lengthens the word that the rest starts with, if any.
    have huncut : ∀ d ∈ [c], cut d = false := by simpa using hc
    cases h with
    | done => exact ⟨[[c]], .word (List.cons_ne_nil c []) huncut (by simp) .done⟩
    | skip separator rest =>
      exact ⟨_, .word (List.cons_ne_nil c []) huncut (by simpa using separator)
        (.skip separator rest)⟩
    | @word run text words nonempty uncut ends rest =>
      have hlonger : ∀ d ∈ c :: run, cut d = false :=
        List.forall_mem_cons.mpr ⟨by simpa using hc, uncut⟩
      exact ⟨_, .word (List.cons_ne_nil c run) hlonger ends rest⟩

/-- Each text has one list of longest stretches. -/
theorem maximalRuns_iff : MaximalRuns cut text words ↔ words = runs cut text := by
  constructor
  · exact MaximalRuns.eq_runs
  · rintro rfl
    obtain ⟨words, h⟩ := exists_maximalRuns cut text
    exact h.eq_runs ▸ h

theorem MaximalRuns.eq_nil_iff (h : MaximalRuns cut text words) :
    words = [] ↔ ∀ c ∈ text, cut c = true := by
  induction h with
  | done => simp
  | skip separator _ ih => rw [ih, List.forall_mem_cons, and_iff_right separator]
  | word nonempty uncut _ _ _ =>
    obtain ⟨c, hc⟩ := List.exists_mem_of_ne_nil _ nonempty
    refine iff_of_false (List.cons_ne_nil _ _) fun h => ?_
    have hcut := h c (List.mem_append_left _ hc)
    rw [uncut c hc] at hcut
    exact Bool.false_ne_true hcut

theorem runs_eq_nil_iff : runs cut text = [] ↔ ∀ c ∈ text, cut c = true :=
  (maximalRuns_iff.mpr rfl).eq_nil_iff

/-- Behind the first segment, each segment has a mark in front. -/
theorem intercalate_cons_eq_flatMap (segment : List Char) (segments : List (List Char)) :
    List.intercalate [mark] (segment :: segments) = segment ++ segments.flatMap (mark :: ·) := by
  induction segments generalizing segment with
  | nil => rw [List.intercalate_singleton, List.flatMap_nil, List.append_nil]
  | cons next rest ih =>
    rw [List.intercalate_cons_cons, ih, List.flatMap_cons, List.append_assoc,
      List.singleton_append, List.cons_append]

/-- Without some of its segments, a text keeps its characters in their order. -/
theorem intercalate_sublist {fewer : List (List Char)} (h : fewer.Sublist segments) :
    (List.intercalate [mark] fewer).Sublist (List.intercalate [mark] segments) := by
  induction h with
  | slnil => exact List.Sublist.refl _
  | @cons fewer rest segment h ih =>
    refine ih.trans ?_
    cases rest with
    | nil => simp
    | cons next rest =>
      rw [List.intercalate_cons_cons]
      exact List.sublist_append_right _ _
  | @cons_cons fewer rest segment h ih =>
    cases fewer with
    | nil =>
      cases rest with
      | nil => exact List.Sublist.refl _
      | cons next rest =>
        rw [List.intercalate_singleton, List.intercalate_cons_cons, List.append_assoc]
        exact List.sublist_append_left _ _
    | cons first fewer =>
      cases rest with
      | nil => cases h
      | cons next rest =>
        rw [List.intercalate_cons_cons, List.intercalate_cons_cons]
        exact ih.append_left _

/-- The runs of a text, put together, keep its characters in their order. -/
theorem intercalate_runs_sublist (mark : Char) (text : List Char) :
    (List.intercalate [mark] (runs (· = mark) text)).Sublist text := by
  have hpieces : List.intercalate [mark] (pieces (· = mark) text) = text := by
    rw [pieces_eq_splitOn, List.intercalate_splitOn]
  have hkept : (runs (· = mark) text).Sublist (pieces (· = mark) text) := List.filter_sublist
  have hfewer : (List.intercalate [mark] (runs (· = mark) text)).Sublist _ :=
    intercalate_sublist hkept
  rwa [hpieces] at hfewer

end ApiAtlas
