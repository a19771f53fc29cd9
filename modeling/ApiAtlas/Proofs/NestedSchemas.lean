import ApiAtlas.Proofs.RecordFields

namespace ApiAtlas

section
variable {α β : Type} {read read' : α → Option β} {fields : Fields α} {name : String}

theorem Fields.optional_congr {absent? : α → Option Bool}
    (h : ∀ field ∈ fields, read field.2 = read' field.2) :
    fields.optional name absent? read = fields.optional name absent? read' := by
  unfold Fields.optional
  rcases hs : fields.single? name with _ | _ | a
  · rfl
  · rfl
  · have ha : read a = read' a := h _ (Fields.mem_of_single? hs)
    simp [ha]

theorem Fields.withDefault_congr {fallback : β}
    (h : ∀ field ∈ fields, read field.2 = read' field.2) :
    fields.withDefault name read fallback = fields.withDefault name read' fallback := by
  unfold Fields.withDefault
  rcases hs : fields.single? name with _ | _ | a
  · rfl
  · rfl
  · exact h _ (Fields.mem_of_single? hs)

theorem mapM_congr {items : List α} (h : ∀ a ∈ items, read a = read' a) :
    items.mapM read = items.mapM read' := by
  induction items with
  | nil => rfl
  | cons a rest ih =>
    obtain ⟨ha, hrest⟩ := List.forall_mem_cons.mp h
    rw [List.mapM_cons, List.mapM_cons, ha, ih hrest]

theorem readEntries_congr {members : List (String × α)}
    (h : ∀ m ∈ members, read m.2 = read' m.2) :
    readEntries read members = readEntries read' members := by
  have hmap : members.mapM (fun m => (read m.2).map (m.1, ·)) =
      members.mapM fun m => (read' m.2).map (m.1, ·) :=
    mapM_congr fun m hm => by rw [h m hm]
  rw [readEntries, readEntries, hmap]

end

namespace Datum

variable {datum : Datum}

theorem depth_le_items {items : List Datum} : ∀ a ∈ items, a.depth ≤ depthOfItems items := by
  induction items with
  | nil => simp
  | cons first rest ih =>
    rw [depthOfItems]
    exact List.forall_mem_cons.mpr
      ⟨Nat.le_max_left _ _, fun a ha => Nat.le_trans (ih a ha) (Nat.le_max_right _ _)⟩

theorem depth_le_members {members : List (Datum × Datum)} :
    ∀ m ∈ members, m.2.depth ≤ depthOfMembers members := by
  induction members with
  | nil => simp
  | cons first rest ih =>
    obtain ⟨key, value⟩ := first
    rw [depthOfMembers]
    exact List.forall_mem_cons.mpr
      ⟨Nat.le_max_left _ _, fun m hm => Nat.le_trans (ih m hm) (Nat.le_max_right _ _)⟩

theorem depth_of_items {items : List Datum} (h : datum.items? = some items) :
    ∀ a ∈ items, a.depth < datum.depth := by
  cases datum with
  | list =>
    cases h
    rw [depth]
    exact fun a ha => Nat.lt_succ_of_le (depth_le_items a ha)
  | _ => cases h

theorem mem_of_namedMembers? {members : List (Datum × Datum)} {named : List (String × Datum)}
    (h : namedMembers? members = some named) : ∀ m ∈ named, ∃ key, (key, m.2) ∈ members := by
  induction members generalizing named with
  | nil =>
    cases h
    simp
  | cons pair rest ih =>
    obtain ⟨key, value⟩ := pair
    simp only [namedMembers?, Option.bind_eq_bind, Option.bind_eq_some_iff, Option.pure_def,
      Option.some.injEq] at h
    obtain ⟨name, -, others, ho, rfl⟩ := h
    refine List.forall_mem_cons.mpr ⟨⟨key, List.mem_cons_self⟩, fun m hm => ?_⟩
    obtain ⟨other, hother⟩ := ih ho m hm
    exact ⟨other, List.mem_cons_of_mem _ hother⟩

theorem depth_of_members {members : List (String × Datum)} (h : datum.members? = some members) :
    ∀ m ∈ members, m.2.depth < datum.depth := by
  cases datum with
  | record pairs =>
    intro m hm
    obtain ⟨key, hkey⟩ := mem_of_namedMembers? h m hm
    rw [depth]
    exact Nat.lt_succ_of_le (depth_le_members _ hkey)
  | _ => cases h

end Datum

section
variable {σ : Type} {node node' : Datum → Option σ} {datum : Datum}

theorem Additional.ofDatum?_congr (h : node datum = node' datum) :
    Additional.ofDatum? node datum = Additional.ofDatum? node' datum := by
  unfold Additional.ofDatum?
  split
  next => rfl
  next => rw [h]

/-- Readers of nodes that agree on all that is nested less deep read the same schemas. -/
theorem SchemaOf.ofDatum?_of_below (h : ∀ d : Datum, d.depth < datum.depth → node d = node' d)
    {schema : SchemaOf σ} (hr : SchemaOf.ofDatum? node datum = some schema) :
    SchemaOf.ofDatum? node' datum = some schema := by
  obtain ⟨fields, hf, hr⟩ := SchemaOf.ofDatum?_eq_some.mp hr
  have hdepth := Datum.depth_of_members hf
  have hnode : ∀ field ∈ fields, node field.2 = node' field.2 :=
    fun field hm => h _ (hdepth field hm)
  have hlist : ∀ field ∈ fields, Datum.listOf node field.2 = Datum.listOf node' field.2 := by
    intro field hm
    unfold Datum.listOf
    cases hi : field.2.items? with
    | none => rfl
    | some items =>
      exact mapM_congr fun a ha =>
        h a (Nat.lt_trans (Datum.depth_of_items hi a ha) (hdepth field hm))
  have hentries : ∀ field ∈ fields,
      Datum.entriesOf node field.2 = Datum.entriesOf node' field.2 := by
    intro field hm
    unfold Datum.entriesOf
    cases hms : field.2.members? with
    | none => rfl
    | some members =>
      exact readEntries_congr fun m hmem =>
        h m.2 (Nat.lt_trans (Datum.depth_of_members hms m hmem) (hdepth field hm))
  have hadditional : ∀ field ∈ fields,
      Additional.ofDatum? node field.2 = Additional.ofDatum? node' field.2 :=
    fun field hm => Additional.ofDatum?_congr (hnode field hm)
  refine SchemaOf.ofDatum?_eq_some.mpr ⟨fields, hf, { hr with
    properties := (Fields.withDefault_congr hentries).symm.trans hr.properties
    additional := (Fields.optional_congr hadditional).symm.trans hr.additional
    items := (Fields.optional_congr hnode).symm.trans hr.items
    allOf := (Fields.withDefault_congr hlist).symm.trans hr.allOf
    oneOf := (Fields.withDefault_congr hlist).symm.trans hr.oneOf
    anyOf := (Fields.withDefault_congr hlist).symm.trans hr.anyOf }⟩

theorem SchemaOf.ofDatum?_congr (h : ∀ d : Datum, d.depth < datum.depth → node d = node' d) :
    SchemaOf.ofDatum? node datum = SchemaOf.ofDatum? node' datum :=
  Option.ext fun _ => ⟨SchemaOf.ofDatum?_of_below h,
    SchemaOf.ofDatum?_of_below fun d hd => (h d hd).symm⟩

end

namespace SchemaNode

/-- A bound that a value keeps to does not matter. -/
theorem ofDatumWithin?_eq {depth other : Nat} {datum : Datum} (h : datum.depth ≤ depth)
    (h' : datum.depth ≤ other) : ofDatumWithin? depth datum = ofDatumWithin? other datum := by
  have hpos : 0 < datum.depth := by cases datum <;> simp [Datum.depth]
  induction depth generalizing other datum with
  | zero => omega
  | succ depth ih =>
    obtain ⟨other, rfl⟩ := Nat.exists_eq_add_one_of_ne_zero (show other ≠ 0 by omega)
    have hbelow : SchemaOf.ofDatum? (ofDatumWithin? depth) datum =
        SchemaOf.ofDatum? (ofDatumWithin? other) datum :=
      SchemaOf.ofDatum?_congr fun d hd =>
        ih (by omega) (by omega) (by cases d <;> simp [Datum.depth])
    rw [ofDatumWithin?, ofDatumWithin?, hbelow]

/-- A schema or reference is read from its keywords, as are the nodes below it. -/
theorem ofDatum?_eq (datum : Datum) : SchemaNode.ofDatum? datum =
    match datum.reference? with
    | some path => some (.ref path)
    | none => (SchemaOf.ofDatum? SchemaNode.ofDatum? datum).map .inline := by
  have hdepth : SchemaNode.ofDatum? datum = ofDatumWithin? (datum.depth + 1) datum :=
    ofDatumWithin?_eq (Nat.le_refl _) (Nat.le_succ _)
  have hbelow : SchemaOf.ofDatum? (ofDatumWithin? datum.depth) datum =
      SchemaOf.ofDatum? SchemaNode.ofDatum? datum :=
    SchemaOf.ofDatum?_congr fun d hd => ofDatumWithin?_eq (Nat.le_of_lt hd) (Nat.le_refl _)
  rw [hdepth, ofDatumWithin?]
  cases datum.reference? with
  | some path => rfl
  | none => exact congrArg (Option.map SchemaNode.inline) hbelow

end SchemaNode

end ApiAtlas
