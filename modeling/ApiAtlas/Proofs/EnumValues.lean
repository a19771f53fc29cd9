import ApiAtlas.Proofs.EnumCarriers
import ApiAtlas.Proofs.ModelOrigins

namespace ApiAtlas

namespace EnumModel

variable {model : EnumModel} {raw : String} {value : EnumValue}

theorem decode_of_not_mem (h : raw ∉ model.values) :
    model.decode raw = if model.isOpen then some (.custom raw) else none := by
  have hnone : model.values.findIdx? (· == raw) = none := by
    refine List.findIdx?_eq_none_iff.mpr fun other ho => beq_false_of_ne ?_
    exact fun he => h (he ▸ ho)
  rw [decode, hnone]

/-- A listed text is read as its first place in the list. -/
theorem decode_of_mem (h : raw ∈ model.values) : ∃ index, model.decode raw = some (.known index) ∧
    model.values[index]? = some raw ∧ raw ∉ model.values.take index := by
  cases hf : model.values.findIdx? (· == raw) with
  | none =>
    have hne := List.findIdx?_eq_none_iff.mp hf raw h
    simp at hne
  | some index =>
    obtain ⟨hi, heq, hearlier⟩ := List.findIdx?_eq_some_iff_getElem.mp hf
    refine ⟨index, by rw [decode, hf], ?_, fun hm => ?_⟩
    · rw [List.getElem?_eq_getElem hi, eq_of_beq heq]
    · obtain ⟨place, hp, he⟩ := List.mem_take_iff_getElem.mp hm
      have hlt : place < index := by omega
      exact hearlier place hlt (beq_iff_eq.mpr he)

theorem decode_eq_none_iff :
    model.decode raw = none ↔ model.isOpen = false ∧ raw ∉ model.values := by
  by_cases hm : raw ∈ model.values
  · obtain ⟨index, hd, -⟩ := decode_of_mem hm
    simp [hd, hm]
  · rw [decode_of_not_mem hm]
    cases model.isOpen <;> simp [hm]

/-- What a text is read as is written as this text. -/
theorem encode_of_decode (h : model.decode raw = some value) : model.encode value = some raw := by
  by_cases hm : raw ∈ model.values
  · obtain ⟨index, hd, he, -⟩ := decode_of_mem hm
    cases hd.symm.trans h
    exact he
  · rw [decode_of_not_mem hm] at h
    split at h
    next hopen =>
      cases h
      simp [encode, hopen]
    next => cases h

/-- All values are read back from their texts just where no two have one text. -/
theorem decode_encode_iff_nodup :
    (∀ index < model.values.length,
      (model.encode (.known index)).bind model.decode = some (.known index)) ↔
        model.values.Nodup := by
  constructor
  · intro h
    refine List.nodup_iff_injective_get.mpr fun first second he => Fin.ext ?_
    have hfirst := h first first.isLt
    have hsecond := h second second.isLt
    simp only [encode, List.getElem?_eq_getElem first.isLt, List.getElem?_eq_getElem second.isLt,
      Option.bind_some] at hfirst hsecond
    have htext : model.values[(first : Nat)] = model.values[(second : Nat)] := he
    rw [htext, hsecond] at hfirst
    exact (EnumValue.known.inj (Option.some.inj hfirst)).symm
  · intro hn index hi
    have hvalue : model.encode (.known index) = some model.values[index] :=
      List.getElem?_eq_getElem hi
    obtain ⟨first, hd, hf, -⟩ := decode_of_mem (List.getElem_mem hi)
    have hplace : first = index := by
      obtain ⟨hlt, he⟩ := List.getElem?_eq_some_iff.mp hf
      exact (List.Nodup.getElem_inj_iff hn).mp he
    rw [hvalue, Option.bind_some, hd, hplace]

end EnumModel

/-- The known values of `anyOf` over a string and an enum of strings are the texts of that enum's list,
as often as they stand there. -/
theorem SchemaOf.openStrings?_eq_some {schema : Schema} {texts : List String}
    (h : schema.openStrings? = some texts) : texts ≠ [] ∧ ∃ known values,
      .inline known ∈ schema.anyOf ∧ known.enumValues = some values ∧
        texts = values.filterMap Json.string? := by
  unfold openStrings? at h
  split at h
  next a b hbranches =>
    generalize hsplit : (if a.enumValues.isNone then (a, b) else (b, a)) = parts at h
    obtain ⟨other, known⟩ := parts
    obtain ⟨values, hvalues, h⟩ := Option.bind_eq_some_iff.mp h
    simp only [Bool.and_eq_true, Bool.not_eq_true', Option.ite_none_right_eq_some,
      Option.some.injEq] at h
    obtain ⟨⟨-, hsome⟩, rfl⟩ := h
    refine ⟨fun hnil => ?_, known, values, ?_, hvalues, rfl⟩
    · rw [hnil] at hsome
      cases hsome
    · rw [hbranches]
      split at hsplit <;> (cases hsplit; simp)
  next => cases h

namespace Registry

open Resolving

variable {registry : Registry} {schema : Schema} {pos : Position} {enum : EnumModel}

theorem buildEnum_values {values : List Json}
    (h : registry.buildEnum schema values pos = .ok (.enum enum)) :
    enum.values ≠ [] ∧ enum.values.Nodup := by
  obtain ⟨carrier, hne, -, he⟩ := buildEnum_eq_ok_iff.mp h
  cases he
  rw [(enumOf_lists carrier).texts]
  refine ⟨?_, Entries.nodup_eraseDups _⟩
  obtain ⟨first, hfirst⟩ := List.exists_mem_of_ne_nil _ hne
  exact List.ne_nil_of_mem (List.mem_eraseDups.mpr (List.mem_map_of_mem hfirst))

theorem plainModel_values (h : registry.plainModel schema pos = .ok (.enum enum)) :
    enum.values ≠ [] ∧ (enum.values.Nodup ∨
      enum.isOpen = true ∧ schema.openStrings? = some enum.values) := by
  unfold plainModel at h
  split at h
  next texts _ ho =>
    cases h
    exact ⟨(SchemaOf.openStrings?_eq_some ho).1, .inr ⟨rfl, ho⟩⟩
  next =>
    obtain ⟨hne, hn⟩ := buildEnum_values h
    exact ⟨hne, .inl hn⟩
  next =>
    split at h
    next => cases h
    next => split at h <;> cases h

end Registry

/-- The values are the texts of a list that stands in the document, beside a branch that accepts any
text. -/
def Document.ListsOpenly (settings : Settings) (document : Document) (texts : List String) : Prop :=
  ∃ schema known values,
    (document.surroundings settings).Writes document.endpoints (.inline schema) ∧
      schema.openStrings? = some texts ∧ .inline known ∈ schema.anyOf ∧
      known.enumValues = some values ∧ texts = values.filterMap Json.string?

/-- Every enum of a document has values. They differ, unless they are the texts of a list beside a
branch that accepts any text, which are taken as often as they are listed. Each value is read back
from its text just where the values differ. Every text that is read at all is written as it was; a
text is not read just where the enum is closed and does not list it, and where the enum is open and
does not list it, it is read as itself. -/
theorem Document.enum_values_kept {settings : Settings} {document : Document} {id : ModelId}
    {enum : EnumModel} (h : (document.resolve settings).2.1.get? id = some (.enum enum)) :
    enum.values ≠ [] ∧
    (enum.values.Nodup ∨ enum.isOpen = true ∧ document.ListsOpenly settings enum.values) ∧
    ((∀ index < enum.values.length,
      (enum.encode (.known index)).bind enum.decode = some (.known index)) ↔ enum.values.Nodup) ∧
    (∀ raw value, enum.decode raw = some value → enum.encode value = some raw) ∧
    (∀ raw, enum.decode raw = none ↔ enum.isOpen = false ∧ raw ∉ enum.values) ∧
    ∀ raw, enum.isOpen = true → raw ∉ enum.values → enum.decode raw = some (.custom raw) := by
  obtain ⟨schema, pos, hfit, hplain⟩ := (Document.makes_of_get? h).plain_of_enum
  obtain ⟨hne, hvalues⟩ := Registry.plainModel_values hplain
  have hlisted (ho : schema.openStrings? = some enum.values) :
      document.ListsOpenly settings enum.values := by
    obtain ⟨written, hw, he⟩ := hfit.written
    -- The types of a schema have no part in which values it lists.
    have hlists : written.openStrings? = some enum.values := by
      obtain rfl | ⟨type, rfl⟩ := he
      · exact ho
      · exact ho
    obtain ⟨-, known, values, hknown, hlisted, htexts⟩ := SchemaOf.openStrings?_eq_some hlists
    exact ⟨written, known, values, hw, hlists, hknown, hlisted, htexts⟩
  refine ⟨hne, hvalues.imp_right (And.imp_right hlisted), EnumModel.decode_encode_iff_nodup,
    fun raw value => EnumModel.encode_of_decode, fun raw => EnumModel.decode_eq_none_iff,
    fun raw hopen hm => ?_⟩
  rw [EnumModel.decode_of_not_mem hm, if_pos hopen]

namespace Document

/-- Two components that list texts twice: as an enum, and beside a branch that accepts any text. -/
def sizes : Document where
  openapi := "3.0.3"
  info := { title := "Sizes", version := "1" }
  components := some {
    schemas := [
      ("Size", .inline { enumValues := some [.string "s", .string "m", .string "s"] }),
      ("Label", .inline {
        anyOf := [.inline { types := some (.single .string) },
          .inline {
            types := some (.single .string)
            enumValues := some [.string "s", .string "m", .string "s"] }] })] }

/-- The enum lists each text once, so that its values come back. -/
theorem enum_values_kept_sizes : ∃ enum,
    (sizes.resolve {}).2.1.get? 0 = some (.enum enum) ∧ enum.values = ["s", "m"] ∧
      (∀ index < enum.values.length,
        (enum.encode (.known index)).bind enum.decode = some (.known index)) := by
  have hmodel : (sizes.resolve {}).2.1.get? 0 = some (.enum
      ⟨.closed .string, .named "Size", ["s", "m"], none, none⟩) := by decide +kernel
  obtain ⟨-, -, hback, -⟩ := enum_values_kept hmodel
  exact ⟨_, hmodel, rfl, hback.mpr (by decide)⟩

/-- Beside a branch that accepts any text the third value is written as the text of the first one,
and is read back as that. -/
theorem enum_values_not_kept : ∃ enum,
    (sizes.resolve {}).2.1.get? 1 = some (.enum enum) ∧ enum.values = ["s", "m", "s"] ∧
      ¬ enum.values.Nodup ∧ (enum.encode (.known 2)).bind enum.decode = some (.known 0) := by
  refine ⟨⟨.extensible, .named "Label", ["s", "m", "s"], none, none⟩, ?_⟩
  decide +kernel

end Document

end ApiAtlas
