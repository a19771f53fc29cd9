import ApiAtlas.Proofs.ArenaGrowth
import ApiAtlas.Proofs.Wrappers
import Mathlib.Tactic.Linarith

namespace ApiAtlas

/-- How many names are not taken. -/
def roomFor (names taken : List String) : Nat := names.countP (· ∉ taken)

theorem roomFor_le (names taken : List String) : roomFor names taken ≤ names.length :=
  List.countP_le_length

theorem roomFor_mono {names taken more : List String} (h : ∀ name ∈ taken, name ∈ more) :
    roomFor names more ≤ roomFor names taken := by
  refine List.countP_mono_left fun name _ hm => ?_
  rw [decide_eq_true_iff] at hm ⊢
  exact fun ht => hm (h name ht)

theorem roomFor_lt {names taken more : List String} {name : String} (hn : name ∈ names)
    (ht : name ∉ taken) (hm : name ∈ more) (h : ∀ other ∈ taken, other ∈ more) :
    roomFor names more < roomFor names taken := by
  induction names with
  | nil => simp at hn
  | cons first rest ih =>
    have hrest : roomFor rest more ≤ roomFor rest taken := roomFor_mono h
    unfold roomFor at ih hrest ⊢
    by_cases hf : first = name
    · subst hf
      rw [List.countP_cons_of_neg (by simpa using hm), List.countP_cons_of_pos (by simpa using ht)]
      omega
    · have hlt := ih ((List.mem_cons.mp hn).resolve_left (Ne.symm hf))
      by_cases hmore : first ∈ more
      · rw [List.countP_cons_of_neg (by simpa using hmore), List.countP_cons]
        omega
      · have htaken : first ∉ taken := fun hft => hmore (h first hft)
        rw [List.countP_cons_of_pos (by simpa using hmore),
          List.countP_cons_of_pos (by simpa using htaken)]
        omega

theorem roomFor_append_lt {names taken : List String} {name : String} (hn : name ∈ names)
    (ht : name ∉ taken) : roomFor names (taken ++ [name]) < roomFor names taken :=
  roomFor_lt hn ht (List.mem_append_right _ List.mem_cons_self) fun _ ho =>
    List.mem_append_left _ ho

/-- The number of nodes of a schema. -/
def SchemaOf.size (schema : Schema) : Nat := (SchemaNode.inline schema).size

namespace SchemaNode

theorem one_le_size (node : SchemaNode) : 1 ≤ node.size := by
  cases node with
  | ref path => simp [size]
  | inline schema =>
    rw [size]
    omega

theorem size_le_of_mem_entries {entries : List (String × SchemaNode)} {name : String}
    {node : SchemaNode} (h : (name, node) ∈ entries) : node.size ≤ sizeOfEntries entries := by
  induction entries with
  | nil => simp at h
  | cons pair rest ih =>
    rw [sizeOfEntries]
    rcases List.mem_cons.mp h with he | hr
    · cases he
      simp only
      omega
    · have := ih hr
      omega

theorem size_le_of_mem {nodes : List SchemaNode} {node : SchemaNode} (h : node ∈ nodes) :
    node.size ≤ sizeOfList nodes := by
  induction nodes with
  | nil => simp at h
  | cons first rest ih =>
    rw [sizeOfList]
    rcases List.mem_cons.mp h with he | hr
    · cases he
      omega
    · have := ih hr
      omega

end SchemaNode

namespace SchemaOf

variable {schema : Schema} {node : SchemaNode} {name : String}

theorem size_eq (schema : Schema) : schema.size = 1 + SchemaNode.sizeOfEntries schema.properties +
    SchemaNode.sizeOfAdditional schema.additional + SchemaNode.sizeOfItems schema.items +
    SchemaNode.sizeOfList schema.allOf + SchemaNode.sizeOfList schema.oneOf +
    SchemaNode.sizeOfList schema.anyOf := by
  cases schema
  rw [size, SchemaNode.size]

theorem size_property (h : (name, node) ∈ schema.properties) : node.size < schema.size := by
  have := SchemaNode.size_le_of_mem_entries h
  rw [size_eq]
  omega

theorem size_branch (h : node ∈ schema.allOf) : node.size < schema.size := by
  have := SchemaNode.size_le_of_mem h
  rw [size_eq]
  omega

theorem size_composition (h : node ∈ schema.composition) : node.size < schema.size := by
  rw [size_eq]
  unfold composition at h
  split at h
  · have := SchemaNode.size_le_of_mem h
    omega
  · have := SchemaNode.size_le_of_mem h
    omega

theorem size_items (h : schema.items = some node) : node.size < schema.size := by
  rw [size_eq, h, SchemaNode.sizeOfItems]
  omega

theorem size_additional (h : schema.additionalSchema? = some node) : node.size < schema.size := by
  unfold additionalSchema? at h
  split at h
  next other ha =>
    cases Option.some.inj h
    rw [size_eq, ha, SchemaNode.sizeOfAdditional]
    omega
  next => cases h

theorem size_peel {peeled : Peeled} (h : schema.peel? = some peeled) :
    peeled.node.size < schema.size := by
  obtain ⟨-, hw⟩ := wraps_of_peel? h
  cases hw with
  | sole _ hb => exact size_branch (List.fst_mem_of_mem_zipIdx hb)
  | null _ hb => exact size_composition (List.fst_mem_of_mem_zipIdx hb)

end SchemaOf

theorem SchemaNode.size_unwrapWithin (fuel : Nat) : ∀ (node : SchemaNode) (pointer : String),
    (unwrapWithin fuel node pointer).node.size ≤ node.size := by
  induction fuel with
  | zero =>
    intro node pointer
    cases node <;> exact Nat.le_refl _
  | succ fuel ih =>
    intro node pointer
    cases node with
    | ref path => exact Nat.le_refl _
    | inline schema =>
      rw [unwrapWithin]
      split
      next => exact Nat.le_refl _
      next peeled hp => exact Nat.le_trans (ih _ _) (Nat.le_of_lt (SchemaOf.size_peel hp))

theorem SchemaNode.size_bare (node : SchemaNode) : node.bare.size ≤ node.size :=
  size_unwrapWithin _ _ _

/-- Fuel of the size of a node is enough to take off its wrappers. -/
theorem SchemaNode.unwrapWithin_eq_unwrap (fuel : Nat) : ∀ (fuel' : Nat) (node : SchemaNode)
    (pointer : String), node.size ≤ fuel → node.size ≤ fuel' →
      unwrapWithin fuel node pointer = unwrapWithin fuel' node pointer := by
  induction fuel with
  | zero =>
    intro fuel' node pointer hf _
    have hone := node.one_le_size
    omega
  | succ fuel ih =>
    intro fuel' node pointer hf hf'
    cases fuel' with
    | zero =>
      have hone := node.one_le_size
      omega
    | succ fuel' =>
      cases node with
      | ref path => rfl
      | inline schema =>
        rw [unwrapWithin, unwrapWithin]
        cases hp : schema.peel? with
        | none => rfl
        | some peeled =>
          have hsize : peeled.node.size < (SchemaNode.inline schema).size := SchemaOf.size_peel hp
          simp only [ih fuel' peeled.node _ (by omega) (by omega)]

namespace SchemaNode

variable {schema : Schema} {peeled : Peeled}

theorem bare_wrapper (h : schema.peel? = some peeled) :
    (SchemaNode.inline schema).bare = peeled.node.bare := by
  have hless : peeled.node.size < (SchemaNode.inline schema).size := SchemaOf.size_peel h
  have hsize : (SchemaNode.inline schema).size = (SchemaNode.inline schema).size - 1 + 1 := by omega
  unfold bare unwrap
  rw [hsize, unwrapWithin, h]
  simp only
  rw [unwrapWithin_node _ _ _ "", unwrapWithin_eq_unwrap _ peeled.node.size _ _ (by omega)
    (Nat.le_refl _)]

/-- A node is a reference, a schema that wraps nothing, or a wrapper of such a node. -/
theorem peel_induction {motive : SchemaNode → Prop} (ref : ∀ path, motive (.ref path))
    (bare : ∀ schema : Schema, schema.peel? = none → motive (.inline schema))
    (wrapper : ∀ (schema : Schema) (peeled : Peeled), schema.peel? = some peeled →
      motive peeled.node → motive (.inline schema)) (node : SchemaNode) : motive node := by
  induction hn : node.size using Nat.strong_induction_on generalizing node with
  | _ size ih =>
    cases node with
    | ref path => exact ref path
    | inline schema =>
      cases hp : schema.peel? with
      | none => exact bare schema hp
      | some peeled =>
        have hless : peeled.node.size < (SchemaNode.inline schema).size := SchemaOf.size_peel hp
        exact wrapper schema peeled hp (ih _ (hn ▸ hless) peeled.node rfl)

/-- What is left without its wrappers wraps nothing. -/
theorem peel?_of_bare {node : SchemaNode} (h : node.bare = .inline schema) :
    schema.peel? = none := by
  induction node using peel_induction with
  | ref path =>
    rw [bare_ref] at h
    cases h
  | bare other hp =>
    rw [bare_inline hp] at h
    cases h
    exact hp
  | wrapper other peeled hp ih =>
    rw [bare_wrapper hp] at h
    exact ih h

end SchemaNode

namespace Registry

variable {registry : Registry} {arena after : Arena} {trail : Trail} {name : String}
  {body : SchemaNode} {schema : Schema}

/-- How many calls for ever smaller nodes and for components that are only other names may be nested
before a component is entered or merged. -/
def stride (registry : Registry) : Nat :=
  registry.schemas.length + 2 * SchemaNode.sizeOfEntries registry.schemas + 1

/-- How deep calls may be nested below a call, without those for ever smaller nodes. -/
def depth (registry : Registry) (arena : Arena) (trail : Trail) : Nat :=
  let names := Entries.keys registry.schemas
  (roomFor names (Entries.keys arena.memo) * (registry.schemas.length + 1) +
    roomFor names trail.inheriting) * registry.stride + roomFor names trail.aliases

theorem depth_mono (h : arena.Recalls after) :
    registry.depth after trail ≤ registry.depth arena trail := by
  unfold depth
  have hr : roomFor (Entries.keys registry.schemas) (Entries.keys after.memo) ≤
      roomFor (Entries.keys registry.schemas) (Entries.keys arena.memo) :=
    roomFor_mono fun name hn => Entries.has_iff_mem_keys.mp (h name (Entries.has_iff_mem_keys.mpr hn))
  exact Nat.add_le_add_right (Nat.mul_le_mul_right _ (Nat.add_le_add_right
    (Nat.mul_le_mul_right _ hr) _)) _

/-- Below an arena there is room for calls for a schema of `weight`. -/
def Room (registry : Registry) (limit : Nat) (trail : Trail) (weight : Nat) (arena : Arena) : Prop :=
  registry.depth arena trail + weight ≤ limit

theorem Room.kept {limit weight : Nat} (h : arena.Recalls after)
    (hr : registry.Room limit trail weight arena) : registry.Room limit trail weight after := by
  have hd : registry.depth after trail ≤ registry.depth arena trail := depth_mono h
  unfold Room at hr ⊢
  omega

theorem Room.of_le {limit limit' weight smaller : Nat}
    (h : registry.Room limit trail weight arena) (hle : smaller + limit ≤ weight + limit') :
    registry.Room limit' trail smaller arena := by
  unfold Room at h ⊢
  omega

theorem mem_keys_of_get? (h : Entries.get? registry.schemas name = some body) :
    name ∈ Entries.keys registry.schemas :=
  Entries.has_iff_mem_keys.mp (Entries.has_iff.mpr ⟨body, h⟩)

/-- Following another name takes it out of those to be followed. -/
theorem depth_follow (arena : Arena) (hb : Entries.get? registry.schemas name = some body)
    (hn : name ∉ trail.aliases) :
    registry.depth arena { trail with aliases := trail.aliases ++ [name] } <
      registry.depth arena trail := by
  have hr := roomFor_append_lt (mem_keys_of_get? hb) hn
  unfold depth
  simp only
  omega

theorem size_le_of_get? (hb : Entries.get? registry.schemas name = some body) :
    body.size ≤ SchemaNode.sizeOfEntries registry.schemas :=
  SchemaNode.size_le_of_mem_entries (Entries.mem_of_get? hb)

/-- Merging an unfinished component takes it out of those to be merged. -/
theorem depth_inherit (arena : Arena) (hb : Entries.get? registry.schemas name = some (.inline schema))
    (hn : name ∉ trail.inheriting) :
    registry.depth arena { trail with inheriting := trail.inheriting ++ [name] } +
      2 * schema.size < registry.depth arena trail := by
  have hr := roomFor_append_lt (mem_keys_of_get? hb) hn
  have hsize : schema.size ≤ SchemaNode.sizeOfEntries registry.schemas := size_le_of_get? hb
  unfold depth
  simp only
  have hstep : (roomFor (Entries.keys registry.schemas) (Entries.keys arena.memo) *
      (registry.schemas.length + 1) + roomFor (Entries.keys registry.schemas)
        (trail.inheriting ++ [name]) + 1) * registry.stride ≤
      (roomFor (Entries.keys registry.schemas) (Entries.keys arena.memo) *
        (registry.schemas.length + 1) + roomFor (Entries.keys registry.schemas)
          trail.inheriting) * registry.stride :=
    Nat.mul_le_mul_right _ (by omega)
  rw [Nat.add_mul, Nat.one_mul] at hstep
  unfold stride at hstep ⊢
  omega

/-- Entering a component takes it out of those to be entered, whatever was followed or merged. -/
theorem depth_enter (hb : Entries.get? registry.schemas name = some body)
    (hn : Entries.get? arena.memo name = none) (trail : Trail) (id : ModelId)
    (scope : List String) :
    registry.depth ((arena.reserve scope).2.remember name id) {} + 2 * body.size <
      registry.depth arena trail := by
  have hmemo : ((arena.reserve scope).2.remember name id).memo = arena.memo ++ [(name, id)] :=
    Entries.set_of_get?_eq_none hn
  have hkeys : Entries.keys ((arena.reserve scope).2.remember name id).memo =
      Entries.keys arena.memo ++ [name] := by
    rw [hmemo]
    exact List.map_append
  have hnotin : name ∉ Entries.keys arena.memo := by
    rw [← Entries.has_iff_mem_keys, Entries.has_eq_false_iff.mpr hn]
    simp
  have hr := roomFor_append_lt (mem_keys_of_get? hb) hnotin
  have hsize := size_le_of_get? hb
  have hinherit := roomFor_le (Entries.keys registry.schemas) []
  have hlength : (Entries.keys registry.schemas).length = registry.schemas.length :=
    List.length_map _
  unfold depth
  simp only [hkeys]
  generalize roomFor (Entries.keys registry.schemas) (Entries.keys arena.memo ++ [name]) = u at *
  generalize roomFor (Entries.keys registry.schemas) (Entries.keys arena.memo) = v at *
  have hstep : (u * (registry.schemas.length + 1) + roomFor (Entries.keys registry.schemas) [] + 1) *
      registry.stride ≤ (v * (registry.schemas.length + 1) +
        roomFor (Entries.keys registry.schemas) trail.inheriting) * registry.stride := by
    refine Nat.mul_le_mul_right _ ?_
    have hv : (u + 1) * (registry.schemas.length + 1) ≤ v * (registry.schemas.length + 1) :=
      Nat.mul_le_mul_right _ hr
    rw [Nat.add_mul, Nat.one_mul] at hv
    omega
  rw [Nat.add_mul, Nat.one_mul] at hstep
  unfold stride at hstep ⊢
  omega

/-- The budget of a resolution is as deep as calls go. -/
theorem depth_le_budget (size : Nat) :
    registry.depth arena {} + 2 * size + 1 ≤ registry.budget size := by
  have hlength : (Entries.keys registry.schemas).length = registry.schemas.length :=
    List.length_map _
  have hm := roomFor_le (Entries.keys registry.schemas) (Entries.keys arena.memo)
  have hi := roomFor_le (Entries.keys registry.schemas) []
  rw [hlength] at hm hi
  unfold depth budget stride
  simp only
  generalize registry.schemas.length = n at *
  generalize SchemaNode.sizeOfEntries registry.schemas = k at *
  generalize roomFor (Entries.keys registry.schemas) (Entries.keys arena.memo) = u at *
  generalize roomFor (Entries.keys registry.schemas) [] = v at *
  have hfirst : u * (n + 1) + v ≤ (n + 1) * (n + 1) := by nlinarith
  have hsecond : (u * (n + 1) + v) * (n + 2 * k + 1) ≤ (n + 1) * (n + 1) * (n + 2 * k + 1) :=
    Nat.mul_le_mul_right _ hfirst
  nlinarith [Nat.zero_le (n * n * k), Nat.zero_le (n * n * size), Nat.zero_le (n * size)]

theorem roomFor_keys_lt (registry : Registry) (seen : List String) :
    roomFor (Entries.keys registry.schemas) seen < registry.schemas.length + 1 := by
  have hle := roomFor_le (Entries.keys registry.schemas) seen
  rw [show (Entries.keys registry.schemas).length = registry.schemas.length from List.length_map _]
    at hle
  omega

/-- Components are followed the same in two registries where they are the same in both, and with
whatever fuel that is more than the components that may still come. -/
theorem writtenComponent_congr {other : Registry} {p : String → Prop}
    (hsame : ∀ name, p name → Entries.get? other.schemas name = Entries.get? registry.schemas name)
    (hnext : ∀ name target, p name → Arena.AliasOf registry name target → p target) (fuel : Nat) :
    ∀ (fuel' : Nat) (seen : List String) (path location : String),
      (∀ name, Section.schemas.named? path = some name → p name) →
      roomFor (Entries.keys registry.schemas) seen < fuel →
      roomFor (Entries.keys other.schemas) seen < fuel' →
      other.writtenComponent fuel' seen path location =
        registry.writtenComponent fuel seen path location := by
  induction fuel with
  | zero => intro fuel' seen path location _ hr; omega
  | succ fuel ih =>
    intro fuel' seen path location hpath hr hr'
    cases fuel' with
    | zero => omega
    | succ fuel' =>
      rw [writtenComponent, writtenComponent, Section.parseName_eq]
      cases hn : Section.schemas.named? path with
      | none => rfl
      | some name =>
        have hp := hpath name hn
        simp only [bind, Except.bind, hsame name hp]
        split
        next => rfl
        next hseen =>
          cases hb : Entries.get? registry.schemas name with
          | none => rfl
          | some body =>
            cases body with
            | inline schema => rfl
            | ref next =>
              have hseen' : name ∉ seen := by simpa using hseen
              have hlt := roomFor_append_lt (mem_keys_of_get? hb) hseen'
              have hlt' := roomFor_append_lt (mem_keys_of_get? ((hsame name hp).trans hb)) hseen'
              refine ih fuel' _ next _ (fun target ht => ?_) (by omega) (by omega)
              exact hnext name target hp ⟨.ref next, next, hb, SchemaNode.bare_ref next, ht⟩

end Registry

end ApiAtlas
