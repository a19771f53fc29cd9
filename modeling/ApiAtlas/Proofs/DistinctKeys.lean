import ApiAtlas.Proofs.Demands
import ApiAtlas.Proofs.EntryOrder
import ApiAtlas.Proofs.RecordFields

namespace ApiAtlas

/-- No two properties of a schema in it have one name. -/
inductive SchemaNode.Distinct : SchemaNode → Prop
  | ref (path : String) : Distinct (.ref path)
  | inline {schema : Schema} (keys : (Entries.keys schema.properties).Nodup)
      (properties : ∀ pair ∈ schema.properties, Distinct pair.2)
      (additional : ∀ node, schema.additional = some (.each node) → Distinct node)
      (items : ∀ node, schema.items = some node → Distinct node)
      (allOf : ∀ node ∈ schema.allOf, Distinct node)
      (oneOf : ∀ node ∈ schema.oneOf, Distinct node)
      (anyOf : ∀ node ∈ schema.anyOf, Distinct node) : Distinct (.inline schema)

/-- No two properties of a schema in the components have one name. -/
def Registry.Distinct (registry : Registry) : Prop :=
  ∀ pair ∈ registry.schemas, pair.2.Distinct

section
variable {α β : Type} {read : α → Option β} {p : β → Prop}

theorem of_mapM {items : List α} {results : List β} (h : items.mapM read = some results)
    (hp : ∀ a b, read a = some b → p b) : ∀ b ∈ results, p b := by
  intro b hb
  obtain ⟨a, -, ha⟩ := forall₂_of_mem_right (mapM_eq_some.mp h) hb
  exact hp a b ha

theorem of_readEntries {members : List (String × α)} {entries : Entries β}
    (h : readEntries read members = some entries) (hp : ∀ a b, read a = some b → p b) :
    (Entries.keys entries).Nodup ∧ ∀ pair ∈ entries, p pair.2 := by
  obtain ⟨pairs, rfl, hpairs⟩ := readEntries_eq_some.mp h
  refine ⟨Entries.nodup_keys_ofPairs pairs, fun pair hm => ?_⟩
  obtain ⟨member, -, -, hread⟩ := forall₂_of_mem_right hpairs (Entries.mem_of_mem_ofPairs hm)
  exact hp member.2 pair.2 hread

variable {fields : Fields α} {name : String} {absent? : α → Option Bool} {q : α → Prop}

theorem Fields.of_withDefault {b fallback : β}
    (h : fields.withDefault name read fallback = some b) (hf : p fallback)
    (hp : ∀ a b, read a = some b → p b) : p b := by
  rcases Fields.withDefault_eq_some.mp h with ⟨-, rfl⟩ | ⟨a, -, hread⟩
  · exact hf
  · exact hp a b hread

theorem Fields.of_optional {o : Option β} (h : fields.optional name absent? read = some o)
    (hp : ∀ a b, read a = some b → p b) : ∀ b, o = some b → p b := by
  rintro b rfl
  rcases Fields.optional_eq_some.mp h with ⟨hnone, -⟩ | ⟨a, c, hc, -, -, hread⟩
  · cases hnone
  · exact hp a b (Option.some.inj hc ▸ hread)

end

namespace SchemaNode

variable {node : Datum → Option SchemaNode} {datum : Datum} {schema : Schema}

/-- A schema whose nodes are read with distinct properties is read with such itself. -/
theorem distinct_of_nodes (hn : ∀ d n, node d = some n → n.Distinct)
    (h : SchemaOf.ofDatum? node datum = some schema) : (inline schema).Distinct := by
  obtain ⟨fields, -, hr⟩ := SchemaOf.ofDatum?_eq_some.mp h
  have hproperties : (Entries.keys schema.properties).Nodup ∧
      ∀ pair ∈ schema.properties, pair.2.Distinct := by
    refine Fields.of_withDefault hr.properties
      (p := fun entries => (Entries.keys entries).Nodup ∧ ∀ pair ∈ entries, pair.2.Distinct)
      ⟨List.nodup_nil, by simp⟩ fun d entries he => ?_
    obtain ⟨members, -, hread⟩ := Option.bind_eq_some_iff.mp he
    exact of_readEntries hread hn
  have hlist {nodes : List SchemaNode} {name : String}
      (hl : Fields.withDefault fields name (Datum.listOf node) [] = some nodes) :
      ∀ n ∈ nodes, n.Distinct := by
    refine Fields.of_withDefault hl (p := fun nodes => ∀ n ∈ nodes, n.Distinct) (by simp)
      fun d results hd => ?_
    obtain ⟨items, -, hread⟩ := Option.bind_eq_some_iff.mp hd
    exact of_mapM hread hn
  have hadditional : ∀ additional, schema.additional = some additional →
      ∀ n, additional = .each n → n.Distinct := by
    refine Fields.of_optional hr.additional fun d additional hd n he => ?_
    subst he
    unfold Additional.ofDatum? at hd
    split at hd
    next => cases hd
    next =>
      obtain ⟨inner, hread, hinner⟩ := Option.map_eq_some_iff.mp hd
      cases hinner
      exact hn _ _ hread
  exact .inline hproperties.1 hproperties.2 (fun n he => hadditional _ he n rfl)
    (Fields.of_optional hr.items hn) (hlist hr.allOf) (hlist hr.oneOf) (hlist hr.anyOf)

theorem distinct_of_ofDatum? {n : SchemaNode} (h : SchemaNode.ofDatum? datum = some n) :
    n.Distinct := by
  suffices hwithin : ∀ depth datum n, ofDatumWithin? depth datum = some n → n.Distinct from
    hwithin _ _ _ h
  intro depth
  induction depth with
  | zero =>
    intro datum n h
    cases h
  | succ depth ih =>
    intro datum n h
    rw [ofDatumWithin?] at h
    split at h
    next path _ =>
      cases h
      exact .ref path
    next =>
      obtain ⟨schema, hs, rfl⟩ := Option.map_eq_some_iff.mp h
      exact distinct_of_nodes ih hs

end SchemaNode

/-- The components of a document have distinct properties, whatever it is read from. -/
theorem Document.distinct_of_ofNode? {source : Node} {document : Document}
    (h : Document.ofNode? source = some document) (openExtensions : List String) :
    Registry.Distinct ⟨document.schemas, openExtensions⟩ := by
  obtain ⟨fields, -, hr⟩ := Document.ofNode?_eq_some.mp h
  have hcomponents : ∀ components, document.components = some components →
      ∀ pair ∈ components.schemas, pair.2.Distinct := by
    refine Fields.of_optional hr.components fun node components hc => ?_
    obtain ⟨inner, -, hinner⟩ := Components.ofNode?_eq_some.mp hc
    refine Fields.of_withDefault hinner.schemas
      (p := fun schemas => ∀ pair ∈ schemas, pair.2.Distinct) (by simp) fun node entries he => ?_
    obtain ⟨members, -, hmembers⟩ := Option.bind_eq_some_iff.mp he
    refine (of_readEntries hmembers fun value n hv => ?_).2
    obtain ⟨datum, -, hn⟩ := Option.bind_eq_some_iff.mp hv
    exact SchemaNode.distinct_of_ofDatum? hn
  intro pair hm
  simp only [Document.schemas] at hm
  cases hd : document.components with
  | none =>
    rw [hd] at hm
    cases hm
  | some components =>
    rw [hd] at hm
    exact hcomponents components hd pair hm

end ApiAtlas
