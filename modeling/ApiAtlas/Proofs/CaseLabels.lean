import ApiAtlas.Proofs.ModelOrigins
import ApiAtlas.Proofs.NumberedTexts

namespace ApiAtlas

/-- Labels as they are given to cases that ask for some, from the first to the last. -/
inductive Labelled : List String → List String → Prop
  | nil : Labelled [] []
  | free {wanted labels : List String} {label : String} (h : Labelled wanted labels)
    (new : label ∉ labels) : Labelled (wanted ++ [label]) (labels ++ [label])
  | taken {wanted labels : List String} {label : String} (h : Labelled wanted labels)
    (old : label ∈ labels) :
    Labelled (wanted ++ [label]) (labels ++ [label ++ toString (labels.length + 1)])

namespace Labelled

variable {wanted labels : List String}

theorem give (h : Labelled wanted labels) (label : String) : Labelled (wanted ++ [label])
    (labels ++ [if label ∈ labels then label ++ toString (labels.length + 1) else label]) := by
  split
  next hold => exact h.taken hold
  next hnew => exact h.free hnew

theorem length_eq (h : Labelled wanted labels) : labels.length = wanted.length := by
  induction h with
  | nil => rfl
  | free _ _ ih => simp [ih]
  | taken _ _ ih => simp [ih]

/-- Where all ask for different labels each gets the one it asks for. -/
theorem eq_of_nodup (h : Labelled wanted labels) (hn : wanted.Nodup) : labels = wanted := by
  induction h with
  | nil => rfl
  | free _ _ ih => rw [ih hn.of_append_left]
  | taken _ old ih =>
    rw [ih hn.of_append_left] at old
    exact absurd rfl ((List.nodup_append.mp hn).2.2 _ old _ List.mem_cons_self)

/-- Different labels can be given as they are asked for. -/
theorem of_nodup : ∀ {wanted : List String}, wanted.Nodup → Labelled wanted wanted := by
  intro wanted
  induction wanted using List.reverseRecOn with
  | nil => exact fun _ => .nil
  | append_singleton wanted label ih =>
    intro hn
    obtain ⟨hwanted, -, hnew⟩ := List.nodup_append.mp hn
    exact (ih hwanted).free fun hm => hnew _ hm _ List.mem_cons_self rfl

/-- The label is one that is asked for, or one with the number of a case. -/
def Asked (wanted labels : List String) (label : String) : Prop :=
  label ∈ wanted ∨
    ∃ asked ∈ wanted, ∃ number ≤ labels.length, label = asked ++ toString number

theorem Asked.concat {label : String} (h : Asked wanted labels label) (last given : String) :
    Asked (wanted ++ [last]) (labels ++ [given]) label := by
  rcases h with ha | ⟨asked, ha, number, hle, he⟩
  · exact .inl (List.mem_append_left _ ha)
  · refine .inr ⟨asked, List.mem_append_left _ ha, number, ?_, he⟩
    simp only [List.length_append]
    omega

theorem mem_cases (h : Labelled wanted labels) : ∀ label ∈ labels, Asked wanted labels label := by
  induction h with
  | nil => exact fun _ hm => absurd hm List.not_mem_nil
  | @free wanted labels last _ _ ih =>
    intro label hm
    rcases List.mem_append.mp hm with hm | hm
    · exact (ih label hm).concat last _
    · exact .inl (List.mem_append_right _ hm)
  | @taken wanted labels last _ _ ih =>
    intro label hm
    rcases List.mem_append.mp hm with hm | hm
    · exact (ih label hm).concat last _
    · exact .inr ⟨last, by simp, labels.length + 1, by simp, List.mem_singleton.mp hm⟩

/-- A case whose label is taken gets one that an earlier case has. -/
def Clashes (wanted labels : List String) : Prop :=
  ∃ index label, wanted[index]? = some label ∧ label ∈ labels.take index ∧
    label ++ toString (index + 1) ∈ labels.take index

theorem clashes_concat (h : Labelled wanted labels) (asked given : String) :
    Clashes (wanted ++ [asked]) (labels ++ [given]) ↔ Clashes wanted labels ∨
      asked ∈ labels ∧ asked ++ toString (labels.length + 1) ∈ labels := by
  have hlength := h.length_eq
  constructor
  · rintro ⟨index, label, hw, hold, hnumber⟩
    have hi : index < wanted.length + 1 := by
      simpa using (List.getElem?_eq_some_iff.mp hw).1
    rw [List.take_append_of_le_length (by omega)] at hold hnumber
    rcases Nat.lt_succ_iff_lt_or_eq.mp hi with hlt | rfl
    · rw [List.getElem?_append_left hlt] at hw
      exact .inl ⟨index, label, hw, hold, hnumber⟩
    · simp only [List.getElem?_concat_length, Option.some.injEq] at hw
      subst hw
      rw [← hlength, List.take_length] at hold hnumber
      exact .inr ⟨hold, hnumber⟩
  · rintro (⟨index, label, hw, hold, hnumber⟩ | ⟨hold, hnumber⟩)
    · have hlt := (List.getElem?_eq_some_iff.mp hw).1
      refine ⟨index, label, by rw [List.getElem?_append_left hlt, hw], ?_, ?_⟩
      · rwa [List.take_append_of_le_length (by omega)]
      · rwa [List.take_append_of_le_length (by omega)]
    · refine ⟨labels.length, asked, by rw [hlength, List.getElem?_concat_length], ?_, ?_⟩
      · rwa [List.take_left]
      · rwa [List.take_left]

/-- Labels differ just where no number makes a label that an earlier case has. -/
theorem nodup_iff (h : Labelled wanted labels) : labels.Nodup ↔ ¬ Clashes wanted labels := by
  have hconcat (labels : List String) (label : String) :
      (labels ++ [label]).Nodup ↔ labels.Nodup ∧ label ∉ labels := by
    rw [← List.nodup_reverse, List.reverse_append, List.reverse_singleton, List.singleton_append,
      List.nodup_cons, List.mem_reverse, List.nodup_reverse, and_comm]
  induction h with
  | nil => simp [Clashes]
  | free h new ih =>
    rw [clashes_concat h, hconcat, not_or]
    exact and_congr ih (iff_of_true new fun hold => new hold.1)
  | taken h old ih =>
    rw [clashes_concat h, hconcat, not_or]
    exact and_congr ih (not_congr (and_iff_right old).symm)

/-- Labels that meet come of one that is asked for and is another one with a number behind it. -/
theorem numbered_of_clashes (h : Labelled wanted labels) (hc : Clashes wanted labels) :
    ∃ first ∈ wanted, ∃ second ∈ wanted, ∃ number : Nat, first = second ++ toString number := by
  induction h with
  | nil =>
    obtain ⟨index, label, hw, -⟩ := hc
    simp at hw
  | free h new ih =>
    obtain ⟨first, hf, second, hs, number, he⟩ := ih
      (((clashes_concat h _ _).mp hc).resolve_right fun hold => new hold.1)
    exact ⟨first, List.mem_append_left _ hf, second, List.mem_append_left _ hs, number, he⟩
  | @taken wanted labels label h old ih =>
    rcases (clashes_concat h _ _).mp hc with hc | ⟨-, hnumber⟩
    · obtain ⟨first, hf, second, hs, number, he⟩ := ih hc
      exact ⟨first, List.mem_append_left _ hf, second, List.mem_append_left _ hs, number, he⟩
    · have hlast : label ∈ wanted ++ [label] := by simp
      rcases h.mem_cases _ hnumber with hw | ⟨asked, hw, number, hle, he⟩
      · exact ⟨_, List.mem_append_left _ hw, label, hlast, _, rfl⟩
      · -- The other label has the number of an earlier case, so the numbers differ.
        rcases numbered_of_eq he (by omega) with ⟨digits, he⟩ | ⟨digits, he⟩
        · exact ⟨label, hlast, asked, List.mem_append_left _ hw, digits, he⟩
        · exact ⟨asked, List.mem_append_left _ hw, label, hlast, digits, he⟩

end Labelled

/-- The cases have labels as they are given for the wanted ones, and each is named by its label
within the union. -/
structure CasesFit (context : Context) (wanted : List String) (cases : List Case) : Prop where
  labelled : Labelled wanted (cases.map Case.label)
  contexts : cases.map Case.context = (cases.map Case.label).map context.nest

namespace CasesFit

variable {context : Context} {wanted : List String} {cases : List Case}

theorem nil : CasesFit context [] [] := ⟨.nil, rfl⟩

theorem concat (h : CasesFit context wanted cases) (label : String) (model : Resolved) :
    let given :=
      if cases.any (·.label == label) then label ++ toString (cases.length + 1) else label
    CasesFit context (wanted ++ [label])
      (cases ++ [⟨given, (Site.case context given).context, model⟩]) := by
  intro given
  have hmem : (cases.any (·.label == label)) = true ↔ label ∈ cases.map Case.label := by simp
  refine ⟨?_, ?_⟩
  · have hgive := h.labelled.give label
    simp only [List.length_map, ← hmem] at hgive
    rw [List.map_append]
    exact hgive
  · simp only [List.map_append, List.map_singleton, h.contexts, Site.context]

/-- Cases are named apart where they are labelled apart. -/
theorem nodup_contexts_iff (h : CasesFit context wanted cases) :
    (cases.map Case.context).Nodup ↔ (cases.map Case.label).Nodup := by
  rw [h.contexts]
  exact List.nodup_map_iff fun first second he => (Context.nested.inj he).1

end CasesFit

/-- The labels that branches ask for, numbered from the given number on. -/
def branchLabels (discriminator : Option Discriminator) (branches : List SchemaNode)
    (number : Nat) : List String :=
  ((branches.filter fun branch => !branch.isNullSchema).zipIdx number).map
    fun (branch, place) => caseLabel branch discriminator place

theorem branchLabels_of_null {discriminator : Option Discriminator} {branch : SchemaNode}
    {rest : List SchemaNode} {number : Nat} (h : branch.isNullSchema = true) :
    branchLabels discriminator (branch :: rest) number =
      branchLabels discriminator rest number := by
  simp [branchLabels, h]

theorem branchLabels_cons {discriminator : Option Discriminator} {branch : SchemaNode}
    {rest : List SchemaNode} {number : Nat} (h : ¬ branch.isNullSchema = true) :
    branchLabels discriminator (branch :: rest) number =
      caseLabel branch discriminator number :: branchLabels discriminator rest (number + 1) := by
  simp [branchLabels, h]

/-- The label that the case of a type asks for. -/
def typeLabel (index : Nat) : String := "Case" ++ toString (index + 1)

/-- The labels that the cases of as many types ask for. -/
def typeLabels (count : Nat) : List String := (List.range count).map typeLabel

theorem nodup_typeLabels (count : Nat) : (typeLabels count).Nodup :=
  List.nodup_range.map fun _ _ he => Nat.succ.inj (append_toString_inj.mp he)

namespace Registry

open Resolving

variable {registry : Registry} {calls : Calls} {trail : Trail} {schema : Schema} {pos : Position}

theorem unionCases_fit (branches : List (SchemaNode × Nat)) : ∀ {wanted : List String}
    {cases : List Case}, CasesFit pos.context wanted cases →
      (unionCases calls trail schema pos branches cases).Yields (CasesFit pos.context (wanted ++
        branchLabels schema.discriminator (branches.map Prod.fst) (cases.length + 1))) := by
  induction branches with
  | nil =>
    intro wanted cases h
    exact Yields.pure (by simpa [branchLabels] using h)
  | cons first rest ih =>
    intro wanted cases h
    obtain ⟨branch, index⟩ := first
    rw [unionCases]
    split
    next hnull =>
      rw [List.map_cons, branchLabels_of_null hnull]
      exact ih h
    next hnull =>
      refine Yields.last fun model => ?_
      rw [List.map_cons, branchLabels_cons hnull, List.append_cons wanted]
      have hrest := ih (h.concat (caseLabel branch schema.discriminator (cases.length + 1)) model)
      simpa only [List.length_append, List.length_singleton] using hrest

theorem buildUnion_fit : (buildUnion calls trail schema pos).Yields fun model =>
    ∀ union, model = .union union → CasesFit union.context
      (branchLabels schema.discriminator schema.composition 1) union.cases := by
  refine (unionCases_fit schema.composition.zipIdx CasesFit.nil).bind fun cases hfit => ?_
  split
  next => exact Yields.pure nofun
  next =>
    refine Yields.pure ?_
    rintro union ⟨⟩
    simpa using hfit

theorem buildTypeUnion_fit : (registry.buildTypeUnion calls trail schema pos).Yields fun model =>
    ∀ union, model = .union union → CasesFit union.context
      (typeLabels schema.nonNullTypes.length) union.cases := by
  have hcases : (registry.typeCases calls trail schema pos schema.nonNullTypes.zipIdx).Yields
      fun cases => cases.map (fun case => (case.label, case.context)) =
        schema.nonNullTypes.zipIdx.map fun place =>
          (typeLabel place.2, pos.context.nest (typeLabel place.2)) := by
    refine Yields.mapM_map (fun place => ?_) _
    exact Yields.last fun id => Yields.last fun model => Yields.last fun _ => Yields.pure rfl
  refine hcases.bind fun cases he => Yields.pure ?_
  rintro union ⟨⟩
  have hplaces : schema.nonNullTypes.zipIdx.map Prod.snd =
      List.range schema.nonNullTypes.length := by
    rw [List.zipIdx_map_snd, List.range_eq_range']
  have hlabels : cases.map Case.label = typeLabels schema.nonNullTypes.length := by
    rw [typeLabels, ← hplaces, List.map_map]
    simpa [Function.comp_def] using congrArg (List.map Prod.fst) he
  refine ⟨?_, ?_⟩
  · rw [hlabels]
    exact .of_nodup (nodup_typeLabels _)
  · rw [hlabels, typeLabels, ← hplaces, List.map_map, List.map_map]
    simpa [Function.comp_def] using congrArg (List.map Prod.snd) he

end Registry

/-- The labels that the cases of a union ask for: by the branches of a schema that stands in the
document, or by its types. -/
inductive Document.AsksForLabels (settings : Settings) (document : Document) : List String → Prop
  | branches {schema : Schema}
    (written : (document.surroundings settings).Writes document.endpoints (.inline schema)) :
    AsksForLabels settings document (branchLabels schema.discriminator schema.composition 1)
  | types {schema : Schema}
    (taken : (document.surroundings settings).Takes document.endpoints (.inline schema)) :
    AsksForLabels settings document (typeLabels schema.nonNullTypes.length)

theorem Document.casesFit_of_get? {settings : Settings} {document : Document} {id : ModelId}
    {union : UnionModel} (h : (document.resolve settings).2.1.get? id = some (.union union)) :
    ∃ wanted, document.AsksForLabels settings wanted ∧
      CasesFit union.context wanted union.cases := by
  obtain ⟨depth, trail, schema, pos, arena, after, hfit, hbuilt | htyped⟩ :=
    (Document.makes_of_get? h).of_union
  · have hcases := Registry.buildUnion_fit arena _ after hbuilt union rfl
    obtain ⟨written, hw, rfl | ⟨type, rfl⟩⟩ := hfit.written
    · exact ⟨_, .branches hw, hcases⟩
    · -- A schema has the branches that it has with one of its types alone.
      exact ⟨_, .branches hw, hcases⟩
  · exact ⟨_, .types hfit, Registry.buildTypeUnion_fit arena _ after htyped union rfl⟩

/-- In every union of a document a case is named by its label, so that cases are named apart just
where they are labelled apart. They get the labels that they ask for if these differ. Labels fail to
differ just where a case asks for a taken label that is taken with the number of the case, too. Then
some case asks for the label that another one asks for with a number behind it. -/
theorem Document.case_labels {settings : Settings} {document : Document} {id : ModelId}
    {union : UnionModel} (h : (document.resolve settings).2.1.get? id = some (.union union)) :
    union.cases.map Case.context = (union.cases.map Case.label).map union.context.nest ∧
    ((union.cases.map Case.context).Nodup ↔ (union.cases.map Case.label).Nodup) ∧
    ∃ wanted, document.AsksForLabels settings wanted ∧
      Labelled wanted (union.cases.map Case.label) ∧
      (wanted.Nodup → union.cases.map Case.label = wanted) ∧
      ((union.cases.map Case.label).Nodup ↔
        ¬ Labelled.Clashes wanted (union.cases.map Case.label)) ∧
      (¬ (union.cases.map Case.label).Nodup →
        ∃ first ∈ wanted, ∃ second ∈ wanted,
          ∃ number : Nat, first = second ++ toString number) := by
  obtain ⟨wanted, hasks, hfit⟩ := Document.casesFit_of_get? h
  have hlabels := hfit.labelled
  refine ⟨hfit.contexts, hfit.nodup_contexts_iff, wanted, hasks, hlabels, hlabels.eq_of_nodup,
    hlabels.nodup_iff, fun hn => hlabels.numbered_of_clashes ?_⟩
  exact not_not.mp fun hc => hn (hlabels.nodup_iff.mpr hc)

namespace Document

/-- Two unions: one has two cases of one component, the other has components named like cases. -/
def choices : Document where
  openapi := "3.0.3"
  info := { title := "Choices", version := "1" }
  components := some {
    schemas := [
      ("Case33", .inline { types := some (.single .string) }),
      ("Case3", .inline { types := some (.single .integer) }),
      ("Either", .inline {
        oneOf := [.ref "#/components/schemas/Case3", .ref "#/components/schemas/Case3"] }),
      ("Value", .inline {
        oneOf := [.ref "#/components/schemas/Case33", .ref "#/components/schemas/Case3",
          .inline { types := some (.single .boolean) }] })] }

/-- The second case gets a label of its own. -/
theorem case_labels_choices : ∃ union, (choices.resolve {}).2.1.get? 2 = some (.union union) ∧
    union.cases.map Case.label = ["Case3", "Case32"] ∧ (union.cases.map Case.context).Nodup := by
  let context := Context.named "Either"
  have hmodel : (choices.resolve {}).2.1.get? 2 = some (.union
      ⟨context, none, [⟨"Case3", context.nest "Case3", .ref "Case3" 1⟩,
        ⟨"Case32", context.nest "Case32", .ref "Case3" 1⟩], none, none⟩) := by decide +kernel
  obtain ⟨-, hnamed, -⟩ := case_labels hmodel
  exact ⟨_, hmodel, rfl, hnamed.mpr (by decide)⟩

/-- The last case asks for the label of the second one and gets that of the first one. -/
theorem case_labels_not_distinct : ∃ union,
    (choices.resolve {}).2.1.get? 3 = some (.union union) ∧
      union.cases.map Case.label = ["Case33", "Case3", "Case33"] ∧
      ¬ (union.cases.map Case.label).Nodup ∧ ¬ (union.cases.map Case.context).Nodup := by
  let context := Context.named "Value"
  refine ⟨⟨context, none, [⟨"Case33", context.nest "Case33", .ref "Case33" 0⟩,
    ⟨"Case3", context.nest "Case3", .ref "Case3" 1⟩,
    ⟨"Case33", context.nest "Case33", .value 4⟩], none, none⟩, ?_⟩
  decide +kernel

end Document

end ApiAtlas
