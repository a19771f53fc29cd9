import ApiAtlas.Proofs.RecordFields
import ApiAtlas.Proofs.TextPlaces

namespace ApiAtlas

namespace Order

variable {α : Type}

@[simp] theorem distinct_nil (order : Order) : order.distinct [] = [] := by
  cases order <;> rfl

/-- Ascending names are the distinct names of any list of the same names. -/
theorem eq_distinct {names given : List String} (h : names.Pairwise (· < ·))
    (hm : ∀ name, name ∈ names ↔ name ∈ given) : names = Order.ascending.distinct given := by
  have hperm : names.Perm given.eraseDups :=
    (List.perm_ext_iff_of_nodup (h.imp ne_of_lt) (Entries.nodup_eraseDups given)).mpr fun name => by
      rw [hm, List.mem_eraseDups]
  exact (hperm.trans (List.perm_insertionSort (· ≤ ·) _).symm).eq_of_pairwise
    (fun _ _ _ _ => le_antisymm) (h.imp le_of_lt) (List.pairwise_insertionSort (· ≤ ·) _)

theorem ascending_distinct (names : List String) :
    (Order.ascending.distinct names).Pairwise (· < ·) := by
  have hnodup : (Order.ascending.distinct names).Nodup :=
    (List.perm_insertionSort (· ≤ ·) _).nodup_iff.mpr (Entries.nodup_eraseDups names)
  exact (List.pairwise_insertionSort (· ≤ ·) _).imp₂ (fun _ _ => lt_of_le_of_ne) hnodup

/-- The keys of arranged members that satisfy `keep`. -/
theorem distinct_keys_arrange (order : Order) (members : List (String × α)) (keep : String → Bool) :
    ((Entries.keys (order.arrange members)).filter keep).eraseDups =
      order.distinct ((Entries.keys members).filter keep) := by
  cases order with
  | written => rfl
  | ascending =>
    have hasc : ((Entries.keys (Entries.sorted members)).filter keep).Pairwise (· < ·) :=
      (Entries.ascending_sorted members).filter keep
    rw [arrange, Entries.eraseDups_of_nodup (hasc.imp ne_of_lt)]
    refine eq_distinct hasc fun name => ?_
    have hperm : (Entries.keys (Entries.sorted members)).Perm
        (Entries.keys (Entries.ofPairs members)) :=
      (Entries.sorted_perm_ofPairs members).map Prod.fst
    simp [hperm.mem_iff, Entries.keys_ofPairs]

/-- Of several members of a key the last one is found. -/
theorem get?_arrange (order : Order) (members : List (String × α)) (key : String) :
    Entries.get? (order.arrange members).reverse key = Entries.get? members.reverse key := by
  cases order with
  | written => rfl
  | ascending =>
    have hnodup : (Entries.keys (Entries.sorted members)).Nodup :=
      (Entries.ascending_sorted members).nodup
    calc Entries.get? (Entries.sorted members).reverse key
      _ = Entries.get? (Entries.sorted members) key :=
        (Entries.get?_perm (List.reverse_perm _).symm hnodup key).symm
      _ = Entries.get? members.reverse key := Entries.get?_sorted members key

end Order

section
variable {node child : Node} {step : Node.Step} {places more : List Place} {place : Place}

theorem keep_nil : Keep node [] := by simp [Keep]

theorem keep_append (h : Keep node places) (h' : Keep node more) : Keep node (places ++ more) :=
  fun place hp => (List.mem_append.mp hp).elim (h place) (h' place)

theorem keep_cons (h : place.keys = place.order.distinct (place.names node))
    (h' : Keep node places) : Keep node (place :: places) :=
  List.forall_mem_cons.mpr ⟨h, h'⟩

/-- What keeps its order below keeps it from above. -/
theorem Keep.under (h : Keep child places) (hf : node.follow? step = some child) :
    Keep node (placesUnder step places) := by
  intro place hp
  obtain ⟨inner, hi, rfl⟩ := List.mem_map.mp hp
  have hnames : (inner.under step).names node = inner.names child := by
    simp [Place.names, Place.under, Node.namesAt, Node.walk?, hf]
  rw [hnames]
  exact h inner hi

/-- Where nothing stands there are only empty maps. -/
theorem keep_missing (hf : node.follow? step = none) (h : ∀ place ∈ places, place.keys = []) :
    Keep node (placesUnder step places) := by
  intro place hp
  obtain ⟨inner, hi, rfl⟩ := List.mem_map.mp hp
  have hnames : (inner.under step).names node = [] := by
    simp [Place.names, Place.under, Node.namesAt, Node.walk?, hf]
  rw [hnames, Order.distinct_nil]
  exact h inner hi

end

theorem keep_values {β : Type} {node : Node} {places : β → List Place} {entries : Entries β}
    (h : ∀ key b, (key, b) ∈ entries →
      ∃ child, node.follow? (.key key) = some child ∧ Keep child (places b)) :
    Keep node (placesOfValues places entries) := by
  induction entries with
  | nil => exact keep_nil
  | cons entry rest ih =>
    obtain ⟨key, b⟩ := entry
    obtain ⟨child, hf, hk⟩ := h key b List.mem_cons_self
    exact keep_append (hk.under hf) (ih fun key b hm => h key b (List.mem_cons_of_mem _ hm))

/-- A way of reading nodes: what stands for a node, in which order its members come, and how it is
taken as a map or a list. Names and items lead where the steps down the text lead. -/
structure Reading (α : Type) where
  order : Order
  stands : Node → α → Prop
  members? : α → Option (List (String × α))
  items? : α → Option (List α)
  keys : ∀ {node a members}, stands node a → members? a = some members → ∀ keep : String → Bool,
    ((Entries.keys members).filter keep).eraseDups =
      order.distinct ((Entries.keys node.named).filter keep)
  found : ∀ {node a members key b}, stands node a → members? a = some members →
    Entries.get? members.reverse key = some b →
      ∃ child, node.follow? (.key key) = some child ∧ stands child b
  missing : ∀ {node a members key}, stands node a → members? a = some members →
    Entries.get? members.reverse key = none → node.follow? (.key key) = none
  item : ∀ {node a items index b}, stands node a → items? a = some items →
    items[index]? = some b → ∃ child, node.follow? (.item index) = some child ∧ stands child b

namespace Reading

variable {α β : Type} {reading : Reading α} {node : Node} {a : α} {read : α → Option β}
  {places : β → List Place} {fields : Fields α} {step : String → Node.Step} {name : String}
  {absent? : α → Option Bool}

/-- The maps of what `read` gives keep their order. -/
def Keeps (reading : Reading α) (read : α → Option β) (places : β → List Place) : Prop :=
  ∀ {node a b}, reading.stands node a → read a = some b → Keep node (places b)

/-- The fields of a record stand where steps by their names lead. -/
structure Lie (reading : Reading α) (node : Node) (step : String → Node.Step) (fields : Fields α) :
    Prop where
  found : ∀ {name b}, fields.single? name = some (some b) →
    ∃ child, node.follow? (step name) = some child ∧ reading.stands child b
  missing : ∀ {name}, fields.single? name = some none → node.follow? (step name) = none

theorem lie_members (h : reading.stands node a) (hm : reading.members? a = some fields) :
    reading.Lie node .key fields :=
  ⟨fun hs => reading.found h hm (Fields.get?_of_single? hs).2,
    fun hs => reading.missing h hm (Fields.get?_of_single? hs).2⟩

/-- The entries that are read from the members of a map. -/
theorem of_readEntries {members : List (String × α)} {entries : Entries β}
    (h : reading.stands node a) (hm : reading.members? a = some members)
    (hr : readEntries read members = some entries) {key : String} {b : β}
    (hb : (key, b) ∈ entries) : ∃ a child, node.follow? (.key key) = some child ∧
      reading.stands child a ∧ read a = some b := by
  obtain ⟨pairs, rfl, hp⟩ := readEntries_eq_some.mp hr
  have hget := Entries.get?_of_mem_nodup (Entries.nodup_keys_ofPairs pairs) hb
  rw [Entries.get?_ofPairs] at hget
  obtain ⟨b', hb', hread⟩ :=
    get?_of_forall₂ (R := fun a b => read a = some b) (List.forall₂_reverse_iff.mpr hp) hget
  obtain ⟨child, hf, hs⟩ := reading.found h hm hb'
  exact ⟨b', child, hf, hs, hread⟩

/-- The keys of what is read from some of the members of a map. -/
theorem keys_readEntries (part : Part) {members : List (String × α)} {entries : Entries β}
    (h : reading.stands node a) (hm : reading.members? a = some members)
    (hr : readEntries read (members.filter fun m => part.takes m.1) = some entries) :
    Entries.keys entries = reading.order.distinct ((Entries.keys node.named).filter part.takes) := by
  obtain ⟨pairs, rfl, hp⟩ := readEntries_eq_some.mp hr
  rw [Entries.keys_ofPairs, ← keys_of_forall₂ (R := fun a b => read a = some b) hp,
    ← reading.keys h hm]
  simp [Entries.keys, List.filter_map, Function.comp_def]

theorem keep_entries (h : reading.stands node a) {entries : Entries β}
    (hr : (reading.members? a).bind (readEntries read) = some entries)
    (each : reading.Keeps read places) :
    Keep node (placesOfEntries reading.order places entries) := by
  obtain ⟨members, hm, hr⟩ := Option.bind_eq_some_iff.mp hr
  refine keep_cons ?_ (keep_values fun key b hb => ?_)
  · have hall : readEntries read (members.filter fun m => Part.all.takes m.1) = some entries := by
      simpa [Part.takes] using hr
    exact keys_readEntries .all h hm hall
  · obtain ⟨a, child, hf, hs, hread⟩ := of_readEntries h hm hr hb
    exact ⟨child, hf, each hs hread⟩

theorem keep_items_from {items : List α} {results : List β} {start : Nat}
    (hr : List.Forall₂ (fun a b => read a = some b) items results) (each : reading.Keeps read places)
    (h : ∀ index a, items[index]? = some a →
      ∃ child, node.follow? (.item (start + index)) = some child ∧ reading.stands child a) :
    Keep node (placesOfItems places start results) := by
  induction hr generalizing start with
  | nil => exact keep_nil
  | cons hb _ ih =>
    obtain ⟨child, hf, hs⟩ := h 0 _ rfl
    refine keep_append ((each hs hb).under hf) (ih fun index a ha => ?_)
    rw [Nat.add_right_comm, Nat.add_assoc]
    exact h (index + 1) a ha

theorem keep_items (h : reading.stands node a) {results : List β}
    (hr : (reading.items? a).bind (fun items => items.mapM read) = some results)
    (each : reading.Keeps read places) : Keep node (placesOfItems places 0 results) := by
  obtain ⟨items, hi, hr⟩ := Option.bind_eq_some_iff.mp hr
  refine keep_items_from (mapM_eq_some.mp hr) each fun index a ha => ?_
  rw [Nat.zero_add]
  exact reading.item h hi ha

namespace Lie

variable (h : reading.Lie node step fields) (each : reading.Keeps read places)
include h each

theorem demand {b : β} (hr : Fields.demand fields name read = some b) :
    Keep node (placesUnder (step name) (places b)) := by
  obtain ⟨a, hs, hr⟩ := Fields.demand_eq_some.mp hr
  obtain ⟨child, hf, hs⟩ := h.found hs
  exact (each hs hr).under hf

theorem optional {o : Option β} (hr : Fields.optional fields name absent? read = some o) :
    Keep node (placesUnder (step name) (placesOfOption places o)) := by
  rcases Fields.optional_eq_some.mp hr with ⟨rfl, -⟩ | ⟨a, b, rfl, hs, -, hr⟩
  · exact keep_nil
  · obtain ⟨child, hf, hs⟩ := h.found hs
    exact (each hs hr).under hf

/-- A field that may be missing, in whose place stands what has no keys. -/
theorem withDefault {b fallback : β}
    (hr : Fields.withDefault fields name read fallback = some b)
    (hempty : ∀ place ∈ places fallback, place.keys = []) :
    Keep node (placesUnder (step name) (places b)) := by
  rcases Fields.withDefault_eq_some.mp hr with ⟨hs, rfl⟩ | ⟨a, hs, hr⟩
  · exact keep_missing (h.missing hs) hempty
  · obtain ⟨child, hf, hs⟩ := h.found hs
    exact (each hs hr).under hf

end Lie

theorem Lie.entries (h : reading.Lie node step fields) {entries : Entries β}
    (hr : Fields.withDefault fields name
      (fun a => (reading.members? a).bind (readEntries read)) [] = some entries)
    (each : reading.Keeps read places) :
    Keep node (placesUnder (step name) (placesOfEntries reading.order places entries)) :=
  h.withDefault (fun hs hr => keep_entries hs hr each) hr (by simp [placesOfEntries, placesOfValues,
    Entries.keys])

theorem Lie.list (h : reading.Lie node step fields) {results : List β}
    (hr : Fields.withDefault fields name
      (fun a => (reading.items? a).bind fun items => items.mapM read) [] = some results)
    (each : reading.Keeps read places) :
    Keep node (placesUnder (step name) (placesOfItems places 0 results)) :=
  h.withDefault (fun hs hr => keep_items hs hr each) hr (by simp [placesOfItems])

/-- The members that are not declared. -/
theorem keep_others (h : reading.stands node a) (hm : reading.members? a = some fields)
    {declared : List String} {extensions : Entries β}
    (hr : readEntries read (Fields.others fields declared) = some extensions) :
    Keep node [⟨[], .others declared, reading.order, Entries.keys extensions⟩] :=
  keep_cons (keys_readEntries (.others declared) h hm hr) keep_nil

end Reading

theorem Node.named_object (members : List (String × Json)) :
    (Json.object members).node.named = members.map fun (k, v) => (k, v.node) := by
  rw [Json.node, Node.named]
  induction members with
  | nil => rfl
  | cons m ms ih => simpa [Json.nodesOfMembers, Node.text?] using ih

theorem Node.named_of_namedMembers? {members : List (Node × Node)} {named : List (String × Node)}
    (h : Node.namedMembers? members = some named) :
    members.filterMap (fun (key, value) => key.text?.map fun name => (name, value)) = named := by
  induction members generalizing named with
  | nil => simpa [Node.namedMembers?] using h
  | cons m ms ih =>
    obtain ⟨key, value⟩ := m
    simp only [Node.namedMembers?, Option.bind_eq_bind, Option.bind_eq_some_iff, Option.pure_def,
      Option.some.injEq] at h
    obtain ⟨name, hname, others, ho, rfl⟩ := h
    simp [hname, ih ho]

theorem Node.named_of_members? {node : Node} {members : List (String × Node)}
    (h : node.members? = some members) : node.named = members := by
  cases node with
  | scalar s =>
    simp only [Node.members?] at h
    split at h <;> simp_all [Node.named]
  | sequence => cases h
  | mapping plain pairs => exact Node.named_of_namedMembers? h

namespace Reading

/-- The nodes of a text as they are. -/
def nodes : Reading Node where
  order := .written
  stands node a := node = a ∧ ∃ room, node.OfJson room
  members? := Node.members?
  items? := Node.items?
  keys := by
    rintro node _ members ⟨rfl, -⟩ hm keep
    rw [Node.named_of_members? hm]
    rfl
  found := by
    rintro node _ members key b ⟨rfl, room, hj⟩ hm hb
    obtain ⟨left, -, hmembers⟩ := hj.of_members? hm
    rw [← Node.named_of_members? hm] at hb hmembers
    exact ⟨b, hb, rfl, left, hmembers _ (List.mem_reverse.mp (Entries.mem_of_get? hb))⟩
  missing := by
    rintro node _ members key ⟨rfl, -⟩ hm hb
    rwa [← Node.named_of_members? hm] at hb
  item := by
    rintro node _ items index b ⟨rfl, room, hj⟩ hi hb
    cases node with
    | scalar s =>
      simp only [Node.items?] at hi
      split at hi <;> simp_all
    | sequence positional plain items =>
      cases hi
      obtain ⟨left, -, hitems⟩ := hj.of_items? rfl
      exact ⟨b, hb, rfl, left, hitems b (List.mem_of_getElem? hb)⟩
    | mapping => cases hi

/-- A key of an object leads to the last value that it has there. -/
theorem get?_arranged (order : Order) (members : List (String × Json)) (key : String) :
    Entries.get? ((order.arrange members).map
        fun (k, v) => (k, (v.arranged order).datum)).reverse key =
      (Entries.get? members.reverse key).map fun v => (v.arranged order).datum := by
  rw [← List.map_reverse, Entries.get?_map fun v => (Json.arranged order v).datum,
    Order.get?_arrange]

theorem follow?_object (members : List (String × Json)) (key : String) :
    (Json.object members).node.follow? (.key key) =
      (Entries.get? members.reverse key).map Json.node := by
  rw [Node.follow?, Node.named_object, ← List.map_reverse, Entries.get?_map Json.node]

/-- Values settled by the text, their members in an order. -/
def values (order : Order) : Reading Datum where
  order := order
  stands node a := ∃ v : Json, node = v.node ∧ a = (v.arranged order).datum
  members? := Datum.members?
  items? := Datum.items?
  keys := by
    rintro _ _ members ⟨v, rfl, rfl⟩ hm keep
    obtain ⟨ms, rfl, rfl⟩ := Json.members_arranged hm
    rw [Node.named_object, Entries.keys_map fun v => (Json.arranged order v).datum,
      Entries.keys_map Json.node]
    exact order.distinct_keys_arrange ms keep
  found := by
    rintro _ _ members key b ⟨v, rfl, rfl⟩ hm hb
    obtain ⟨ms, rfl, rfl⟩ := Json.members_arranged hm
    rw [get?_arranged, Option.map_eq_some_iff] at hb
    obtain ⟨w, hw, rfl⟩ := hb
    exact ⟨w.node, by rw [follow?_object, hw, Option.map_some], w, rfl, rfl⟩
  missing := by
    rintro _ _ members key ⟨v, rfl, rfl⟩ hm hb
    obtain ⟨ms, rfl, rfl⟩ := Json.members_arranged hm
    rw [get?_arranged, Option.map_eq_none_iff] at hb
    rw [follow?_object, hb, Option.map_none]
  item := by
    rintro _ _ items index b ⟨v, rfl, rfl⟩ hi hb
    obtain ⟨vs, rfl, rfl⟩ := Json.items_arranged hi
    obtain ⟨w, hw, rfl⟩ := List.getElem?_map .. ▸ hb |> Option.map_eq_some_iff.mp
    refine ⟨w.node, ?_, w, rfl, rfl⟩
    rw [Json.node, Node.follow?, Json.nodes_eq, List.getElem?_map, hw, Option.map_some]

theorem nodes_stands {room : Nat} {node : Node} (h : node.OfJson room) : nodes.stands node node :=
  ⟨rfl, room, h⟩

/-- Positions stand for the fields of a record. -/
theorem lie_positions {reading : Reading α} {node : Node} {declared : List Field} {items : List α}
    {fields : Fields α} (hf : Fields.ofPositions? declared items = some fields)
    {positional plain : Bool} {children : List Node}
    (hn : node = .sequence positional plain children)
    (hc : List.Forall₂ reading.stands children items) :
    reading.Lie node (.field declared) fields := by
  subst hn
  unfold Fields.ofPositions? at hf
  split at hf
  next =>
    cases hf
    have hzip := forall₂_zip hc (declared.map Field.name)
    refine ⟨fun hs => ?_, fun hs => ?_⟩
    · exact get?_of_forall₂ hzip (Fields.get?_of_single? hs).1
    · have hnone := (Fields.get?_of_single? hs).1
      rw [← Entries.has_eq_false_iff, ← Bool.not_eq_true, Entries.has_iff_mem_keys,
        ← keys_of_forall₂ (R := reading.stands) hzip, ← Entries.has_iff_mem_keys, Bool.not_eq_true,
        Entries.has_eq_false_iff] at hnone
      exact hnone
  next => cases hf

/-- The fields of a record, which may be a list, as nodes. -/
theorem lie_nodes {room : Nat} {node : Node} {declared : List Field} {fields : Fields Node}
    (h : node.OfJson room) (hf : node.fields? declared = some fields) :
    nodes.Lie node (.field declared) fields := by
  cases node with
  | sequence positional plain items =>
    simp only [Node.fields?] at hf
    split at hf
    next =>
      obtain ⟨left, -, hitems⟩ := h.of_items? rfl
      exact lie_positions hf rfl (List.forall₂_same.mpr fun item hi => ⟨rfl, left, hitems item hi⟩)
    next => cases hf
  | scalar s =>
    have hl : nodes.Lie _ .key fields := lie_members (nodes_stands h) hf
    exact ⟨hl.found, hl.missing⟩
  | mapping plain members =>
    have hl : nodes.Lie _ .key fields := lie_members (nodes_stands h) hf
    exact ⟨hl.found, hl.missing⟩

/-- The fields of a record, which may be a list, as values. -/
theorem lie_values {order : Order} {v : Json} {declared : List Field} {fields : Fields Datum}
    (hf : (v.arranged order).datum.fields? declared = some fields) :
    (values order).Lie v.node (.field declared) fields := by
  rcases Json.of_fields? hf with ⟨arranged, ha⟩ | ⟨pairs, hp⟩
  · obtain ⟨vs, rfl, rfl⟩ := Json.exists_of_arranged_array ha
    rw [ha, Json.datum, Datum.fields?, Json.dataOf_eq] at hf
    refine lie_positions hf rfl ?_
    rw [Json.nodes_eq, List.map_map, List.forall₂_map_left_iff, List.forall₂_map_right_iff]
    exact List.forall₂_same.mpr fun v _ => ⟨v, rfl, rfl⟩
  · obtain ⟨ms, rfl, rfl⟩ := Json.exists_of_arranged_object hp
    rw [hp, Json.fields?_datum, ← Json.members?_datum, ← hp] at hf
    have hl : (values order).Lie _ .key fields := lie_members ⟨.object ms, rfl, rfl⟩ hf
    exact ⟨hl.found, hl.missing⟩

theorem keeps_nothing {reading : Reading α} {read : α → Option β} :
    reading.Keeps read fun _ => [] :=
  fun _ _ => keep_nil

/-- A node that is read by way of a value. -/
theorem keeps_viaDatum {read : Datum → Option β} {places : β → List Place}
    (each : (values .written).Keeps read places) : nodes.Keeps (Node.viaDatum read) places := by
  rintro node _ b ⟨rfl, room, hj⟩ hr
  obtain ⟨datum, hd, hr⟩ := Option.bind_eq_some_iff.mp hr
  obtain ⟨v, -, rfl, rfl⟩ := hj.of_datum? hd
  exact each ⟨v, rfl, by rw [Json.arranged_written]⟩ hr

end Reading

section
variable {σ β : Type} {order : Order} {read : Datum → Option β} {places : β → List Place}
  {node : Datum → Option σ} {each : σ → List Place}

open Reading

theorem Referable.keeps (h : (values order).Keeps read places) :
    (values order).Keeps (Referable.ofDatum? read) (Referable.places places) := by
  intro _ datum referable hs hr
  unfold Referable.ofDatum? at hr
  split at hr
  next =>
    cases hr
    exact keep_nil
  next =>
    obtain ⟨b, hb, rfl⟩ := Option.map_eq_some_iff.mp hr
    exact h hs hb

theorem Discriminator.keeps :
    (values order).Keeps Discriminator.ofDatum? (Discriminator.places order) := by
  rintro _ _ d ⟨v, rfl, rfl⟩ hr
  obtain ⟨fields, hf, hd⟩ := Discriminator.ofDatum?_eq_some.mp hr
  exact (lie_values hf).entries hd.mapping keeps_nothing

theorem Additional.keeps (h : (values order).Keeps node each) :
    (values order).Keeps (Additional.ofDatum? node) (Additional.places each) := by
  intro _ datum additional hs hr
  unfold Additional.ofDatum? at hr
  split at hr
  next =>
    cases hr
    exact keep_nil
  next =>
    obtain ⟨b, hb, rfl⟩ := Option.map_eq_some_iff.mp hr
    exact h hs hb

theorem SchemaOf.keeps (h : (values order).Keeps node each) :
    (values order).Keeps (SchemaOf.ofDatum? node) (SchemaOf.places order each) := by
  intro _ datum schema hs hr
  obtain ⟨fields, hf, hr⟩ := SchemaOf.ofDatum?_eq_some.mp hr
  have hl := lie_members hs hf
  exact keep_append (keep_append (keep_append (keep_append (keep_append (keep_append (keep_append
    (hl.entries hr.properties h)
    (hl.optional (Additional.keeps h) hr.additional))
    (hl.optional h hr.items))
    (hl.list hr.allOf h))
    (hl.list hr.oneOf h))
    (hl.list hr.anyOf h))
    (hl.optional Discriminator.keeps hr.discriminator))
    (keep_others hs hf hr.extensions)

theorem SchemaNode.keepsWithin (depth : Nat) :
    (values order).Keeps (SchemaNode.ofDatumWithin? depth) (SchemaNode.places order) := by
  induction depth with
  | zero => exact fun _ hr => by simp [SchemaNode.ofDatumWithin?] at hr
  | succ depth ih =>
    intro _ datum node hs hr
    rw [SchemaNode.ofDatumWithin?] at hr
    split at hr
    next =>
      cases hr
      exact keep_nil
    next =>
      obtain ⟨schema, hschema, rfl⟩ := Option.map_eq_some_iff.mp hr
      rw [SchemaNode.places_inline]
      exact SchemaOf.keeps ih hs hschema

theorem SchemaNode.keeps :
    (values order).Keeps SchemaNode.ofDatum? (SchemaNode.places order) :=
  fun hs hr => SchemaNode.keepsWithin _ hs hr

theorem MediaType.keeps : (values order).Keeps MediaType.ofDatum? (MediaType.places order) := by
  intro _ datum media hs hr
  obtain ⟨fields, hf, hr⟩ := MediaType.ofDatum?_eq_some.mp hr
  have hl := lie_members hs hf
  exact keep_append (keep_append
    (hl.optional SchemaNode.keeps hr.schema)
    (hl.entries hr.encoding keeps_nothing))
    (keep_others hs hf hr.extensions)

theorem Parameter.keeps : (values order).Keeps Parameter.ofDatum? (Parameter.places order) := by
  rintro _ _ parameter ⟨v, rfl, rfl⟩ hr
  obtain ⟨fields, hf, hr⟩ := Parameter.ofDatum?_eq_some.mp hr
  have hl := lie_values hf
  exact keep_append
    (hl.optional SchemaNode.keeps hr.schema)
    (hl.entries hr.content MediaType.keeps)

theorem RequestBody.keeps :
    (values order).Keeps RequestBody.ofDatum? (RequestBody.places order) := by
  intro _ datum body hs hr
  obtain ⟨fields, hf, hr⟩ := RequestBody.ofDatum?_eq_some.mp hr
  have hl := lie_members hs hf
  exact keep_append
    (hl.demand (fun hs hr => keep_entries hs hr MediaType.keeps) hr.content)
    (keep_others hs hf hr.extensions)

theorem Response.keeps : (values order).Keeps Response.ofDatum? (Response.places order) := by
  intro _ datum response hs hr
  obtain ⟨fields, hf, hr⟩ := Response.ofDatum?_eq_some.mp hr
  have hl := lie_members hs hf
  exact keep_append (hl.entries hr.content MediaType.keeps) (keep_others hs hf hr.extensions)

theorem Responses.keeps : Reading.nodes.Keeps Responses.ofNode? Responses.places := by
  rintro node _ responses ⟨rfl, room, hj⟩ hr
  obtain ⟨entries, he, hr⟩ := Option.bind_eq_some_iff.mp hr
  obtain ⟨members, hm, hread⟩ := Option.bind_eq_some_iff.mp he
  obtain ⟨hext, hent⟩ := Responses.ofEntries?_eq_some.mp hr
  have hkeys : Entries.keys entries = (Entries.keys node.named).eraseDups := by
    have hall : readEntries Node.json? (members.filter fun m => Part.all.takes m.1) =
        some entries := by
      simpa [Part.takes] using hread
    have htakes : Part.all.takes = fun _ => true := rfl
    have hk := Reading.keys_readEntries .all (Reading.nodes_stands hj) hm hall
    rwa [htakes, List.filter_true] at hk
  have hpart : ∀ part : Part, Entries.keys (entries.filter fun e => part.takes e.1) =
      ((Entries.keys node.named).filter part.takes).eraseDups := by
    intro part
    rw [← Entries.filter_eraseDups, ← hkeys]
    simp [Entries.keys, List.filter_map, Function.comp_def]
  refine keep_cons ?_ (keep_cons ?_ (keep_values fun key response hm' => ?_))
  · rw [← keys_of_forall₂
      (R := fun (v : Json) r => Referable.ofDatum? Response.ofDatum? v.datum = some r) hent]
    exact hpart .statuses
  · rw [hext]
    exact hpart .vendor
  · obtain ⟨⟨status, value⟩, hmem, hkey, hresponse⟩ := forall₂_of_mem_right hent hm'
    obtain rfl : status = key := hkey
    have hentry : (status, value) ∈ entries := (List.mem_filter.mp hmem).1
    obtain ⟨_, child, hf, ⟨rfl, room', hj'⟩, hjson⟩ :=
      Reading.of_readEntries (Reading.nodes_stands hj) hm hread hentry
    obtain ⟨w, -, rfl, hw⟩ := hj'.of_json? hjson
    exact ⟨w.node, hf, Referable.keeps Response.keeps ⟨w, rfl, by rw [← hw]⟩ hresponse⟩

theorem Operation.keeps : Reading.nodes.Keeps Operation.ofNode? Operation.places := by
  intro node _ operation hs hr
  obtain ⟨fields, hf, hr⟩ := Operation.ofNode?_eq_some.mp hr
  have hl := lie_members hs hf
  exact keep_append (keep_append (keep_append
    (hl.list hr.parameters (keeps_viaDatum (Referable.keeps Parameter.keeps)))
    (hl.optional (keeps_viaDatum (Referable.keeps RequestBody.keeps)) hr.requestBody))
    (hl.withDefault Responses.keeps hr.responses (by simp [Responses.places, placesOfValues,
      Entries.keys])))
    (keep_others hs hf hr.extensions)

theorem PathItem.keeps : Reading.nodes.Keeps PathItem.ofNode? PathItem.places := by
  rintro node _ item ⟨rfl, room, hj⟩ hr
  obtain ⟨fields, hf, hr⟩ := PathItem.ofNode?_eq_some.mp hr
  have hl := lie_nodes hj hf
  exact keep_append (keep_append (keep_append (keep_append (keep_append (keep_append (keep_append
    (keep_append
    (hl.list hr.parameters (keeps_viaDatum (Referable.keeps Parameter.keeps)))
    (hl.optional Operation.keeps hr.get))
    (hl.optional Operation.keeps hr.post))
    (hl.optional Operation.keeps hr.put))
    (hl.optional Operation.keeps hr.delete))
    (hl.optional Operation.keeps hr.patch))
    (hl.optional Operation.keeps hr.options))
    (hl.optional Operation.keeps hr.head))
    (hl.optional Operation.keeps hr.trace)

theorem Components.keeps : Reading.nodes.Keeps Components.ofNode? Components.places := by
  rintro node _ components ⟨rfl, room, hj⟩ hr
  obtain ⟨fields, hf, hr⟩ := Components.ofNode?_eq_some.mp hr
  have hl := lie_nodes hj hf
  exact keep_append (keep_append (keep_append
    (hl.entries hr.schemas (keeps_viaDatum SchemaNode.keeps))
    (hl.entries hr.responses (keeps_viaDatum (Referable.keeps Response.keeps))))
    (hl.entries hr.parameters (keeps_viaDatum (Referable.keeps Parameter.keeps))))
    (hl.entries hr.requestBodies (keeps_viaDatum (Referable.keeps RequestBody.keeps)))

theorem Document.keeps : Reading.nodes.Keeps Document.ofNode? Document.places := by
  rintro node _ document ⟨rfl, room, hj⟩ hr
  obtain ⟨fields, hf, hr⟩ := Document.ofNode?_eq_some.mp hr
  have hl := lie_nodes hj hf
  exact keep_append
    (hl.entries hr.paths PathItem.keeps)
    (hl.optional Components.keeps hr.components)

end

namespace Document

/-- Every map of a document has exactly the distinct names that its mapping has in the text. They
stand in order of first occurrence, at whatever depth, except within a response that is written in
place under an operation, where they ascend. So all maps follow the text if and only if the text
itself has ascending names wherever such a response has a map. -/
theorem keys_in_order {text : String} {document : Document}
    (h : Document.ofJson text = .ok document) : ∃ node, Json.readNode text = some node ∧
      (∀ place ∈ document.places, place.keys = place.order.distinct (place.names node)) ∧
      ((∀ place ∈ document.places, place.keys = (place.names node).eraseDups) ↔
        ∀ place ∈ document.places, place.order = .ascending →
          (place.names node).eraseDups.Pairwise (· < ·)) := by
  obtain ⟨node, hn, hd, -⟩ := ofJson_eq_ok.mp h
  have hkeep : Keep node document.places :=
    Document.keeps (Reading.nodes_stands (Json.ofJson_of_readNode hn)) hd
  refine ⟨node, hn, hkeep, fun hall place hp ho => ?_, fun hall place hp => ?_⟩
  · have hk := hkeep place hp
    rw [ho, hall place hp] at hk
    rw [hk]
    exact Order.ascending_distinct _
  · rw [hkeep place hp]
    cases ho : place.order with
    | written => rfl
    | ascending => exact (Order.eq_distinct (hall place hp ho) fun _ => List.mem_eraseDups).symm

/-- A text in which an operation and a definition have the same response. -/
def twiceAnswered : String :=
  "\x7b\"openapi\":\"3.0.3\",\"info\":\x7b\"title\":\"\",\"version\":\"\"\x7d," ++
  "\"paths\":\x7b\"/\":\x7b\"get\":\x7b\"responses\":\x7b\"200\":" ++ response ++
  "\x7d\x7d\x7d\x7d,\"components\":\x7b\"responses\":\x7b\"A\":" ++ response ++ "\x7d\x7d\x7d"
where
  response := "\x7b\"description\":\"\"," ++
    "\"content\":\x7b\"text/plain\":\x7b\x7d,\"image/png\":\x7b\x7d\x7d\x7d"

/-- The media types of the response come in two orders, of which the text has one. -/
theorem twiceAnswered_read : ∃ document node,
    Document.ofJson twiceAnswered = .ok document ∧ Json.readNode twiceAnswered = some node ∧
      (∃ place ∈ document.places, place.names node = ["text/plain", "image/png"] ∧
        place.keys = ["text/plain", "image/png"]) ∧
      ∃ place ∈ document.places, place.names node = ["text/plain", "image/png"] ∧
        place.keys = ["image/png", "text/plain"] := by
  have h : ((Document.ofJson twiceAnswered).toOption.bind fun document =>
      (Json.readNode twiceAnswered).map fun node =>
        document.places.any (fun place => place.names node = ["text/plain", "image/png"] ∧
          place.keys = ["text/plain", "image/png"]) &&
        document.places.any (fun place => place.names node = ["text/plain", "image/png"] ∧
          place.keys = ["image/png", "text/plain"])) = some true := by decide +kernel
  obtain ⟨document, hd, h⟩ := Option.bind_eq_some_iff.mp h
  obtain ⟨node, hn, h⟩ := Option.map_eq_some_iff.mp h
  have hread : Document.ofJson twiceAnswered = .ok document := by
    cases hresult : Document.ofJson twiceAnswered with
    | ok read =>
      rw [hresult] at hd
      exact congrArg Except.ok (Option.some.inj hd)
    | error error =>
      rw [hresult] at hd
      cases hd
  rw [Bool.and_eq_true, List.any_eq_true, List.any_eq_true] at h
  simp only [decide_eq_true_eq] at h
  exact ⟨document, node, hread, hn, h⟩

theorem keys_in_order_twiceAnswered : ∃ document node,
    Document.ofJson twiceAnswered = .ok document ∧ Json.readNode twiceAnswered = some node ∧
      ∀ place ∈ document.places, place.keys = place.order.distinct (place.names node) := by
  obtain ⟨document, _, hd, -⟩ := twiceAnswered_read
  obtain ⟨node, hn, hkeep, -⟩ := keys_in_order hd
  exact ⟨document, node, hd, hn, hkeep⟩

/-- The response of the operation does not follow the text. -/
theorem keys_not_in_order : ∃ document node,
    Document.ofJson twiceAnswered = .ok document ∧ Json.readNode twiceAnswered = some node ∧
      ¬ ∀ place ∈ document.places, place.keys = (place.names node).eraseDups := by
  obtain ⟨document, node, hd, hn, -, place, hp, hnames, hkeys⟩ := twiceAnswered_read
  refine ⟨document, node, hd, hn, fun hall => ?_⟩
  have h := hall place hp
  rw [hnames, hkeys] at h
  exact absurd h (by decide)

end Document

end ApiAtlas
