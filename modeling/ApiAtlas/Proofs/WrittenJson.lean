import Mathlib.Algebra.Group.Int.Defs
import ApiAtlas.Document.Reader
import ApiAtlas.Proofs.EntryOrder

namespace ApiAtlas

/-- The order of members: as a text has them, or ascending by their keys. -/
inductive Order
  | written
  | ascending
deriving Repr, DecidableEq

namespace Order

variable {α β : Type} {order : Order} {members : List (String × α)}

/-- The members in an order. Ascending, each key stands once, with its last value. -/
def arrange : Order → List (String × α) → List (String × α)
  | .written, members => members
  | .ascending, members => Entries.sorted members

theorem arrange_map (order : Order) (f : α → β) (members : List (String × α)) :
    order.arrange (members.map fun (key, value) => (key, f value)) =
      (order.arrange members).map fun (key, value) => (key, f value) := by
  cases order with
  | written => rfl
  | ascending => exact Entries.sorted_map f members

theorem mem_of_mem_arrange {member : String × α} (h : member ∈ order.arrange members) :
    member ∈ members := by
  cases order with
  | written => exact h
  | ascending =>
    exact Entries.mem_of_mem_ofPairs ((Entries.sorted_perm_ofPairs members).mem_iff.mp h)

theorem arrange_perm (order : Order) (h : (Entries.keys members).Nodup) :
    (order.arrange members).Perm members := by
  cases order with
  | written => exact .refl members
  | ascending => exact Entries.sorted_perm_of_nodup h

end Order

namespace Json

mutual

/-- The value with the members of all objects in an order. -/
def arranged (order : Order) : Json → Json
  | .array items => .array (arrangedItems order items)
  | .object members => .object (order.arrange (arrangedMembers order members))
  | atom => atom

/-- All the items with their members in an order. -/
def arrangedItems (order : Order) : List Json → List Json
  | [] => []
  | v :: vs => v.arranged order :: arrangedItems order vs

/-- All the values with their members in an order. -/
def arrangedMembers (order : Order) : List (String × Json) → List (String × Json)
  | [] => []
  | (k, v) :: ms => (k, v.arranged order) :: arrangedMembers order ms

end

mutual

/-- The node that the text of a value holds. -/
def node : Json → Node
  | .null => .scalar { datum := some .null, absent := some true }
  | .bool b => .scalar { truth := some b, datum := some (.bool b) }
  | .int z => .scalar { datum := some (Json.int z).datum }
  | .float x => .scalar { datum := some (.float (some x)) }
  | .string s => .scalar { text := some s, datum := some (.string s) }
  | .array items => .sequence true true (nodes items)
  | .object members => .mapping true (nodesOfMembers members)

/-- The nodes of items. -/
def nodes : List Json → List Node
  | [] => []
  | v :: vs => v.node :: nodes vs

/-- The nodes of members. -/
def nodesOfMembers : List (String × Json) → List (Node × Node)
  | [] => []
  | (k, v) :: ms => (.scalar { text := some k, datum := some (.string k) }, v.node) ::
    nodesOfMembers ms

end

variable {order : Order}

theorem arrangedItems_eq (order : Order) (items : List Json) :
    arrangedItems order items = items.map (arranged order) := by
  induction items with
  | nil => rfl
  | cons v vs ih => rw [arrangedItems, ih, List.map_cons]

theorem arrangedMembers_eq (order : Order) (members : List (String × Json)) :
    arrangedMembers order members = members.map fun (k, v) => (k, v.arranged order) := by
  induction members with
  | nil => rfl
  | cons m ms ih => rw [arrangedMembers, ih, List.map_cons]

theorem nodes_eq (items : List Json) : nodes items = items.map node := by
  induction items with
  | nil => rfl
  | cons v vs ih => rw [nodes, ih, List.map_cons]

theorem dataOf_eq (items : List Json) : dataOf items = items.map datum := by
  induction items with
  | nil => rfl
  | cons v vs ih => rw [dataOf, ih, List.map_cons]

/-- Induction over a value and what is in it. -/
theorem induct {P : Json → Prop} (scalar : ∀ v, v.isScalar = true → P v)
    (array : ∀ items, (∀ v ∈ items, P v) → P (.array items))
    (object : ∀ members, (∀ m ∈ members, P m.2) → P (.object members)) : ∀ v, P v
  | .null => scalar _ rfl
  | .bool _ => scalar _ rfl
  | .int _ => scalar _ rfl
  | .float _ => scalar _ rfl
  | .string _ => scalar _ rfl
  | .array items => array items fun v hv =>
    have := List.sizeOf_lt_of_mem hv
    induct scalar array object v
  | .object members => object members fun m hm =>
    have := List.sizeOf_lt_of_mem hm
    induct scalar array object m.2
decreasing_by
  · simp only [Json.array.sizeOf_spec]
    omega
  · obtain ⟨k, v⟩ := m
    simp only [Json.object.sizeOf_spec, Prod.mk.sizeOf_spec] at *
    omega

theorem arranged_scalar {v : Json} (h : v.isScalar = true) : v.arranged order = v := by
  cases v <;> first | rfl | cases h

theorem arranged_array (items : List Json) :
    (Json.array items).arranged order = .array (items.map (arranged order)) := by
  rw [arranged, arrangedItems_eq]

theorem arranged_object (members : List (String × Json)) : (Json.object members).arranged order =
    .object ((order.arrange members).map fun (k, v) => (k, v.arranged order)) := by
  rw [arranged, arrangedMembers_eq, Order.arrange_map]

theorem exists_of_arranged_object {v : Json} {pairs : List (String × Json)}
    (h : v.arranged order = .object pairs) : ∃ members, v = .object members ∧
      pairs = (order.arrange members).map fun (k, v) => (k, v.arranged order) := by
  cases v with
  | object members => exact ⟨members, rfl, by simpa [arranged_object] using h.symm⟩
  | _ => cases h

theorem exists_of_arranged_array {v : Json} {items : List Json}
    (h : v.arranged order = .array items) :
    ∃ vs, v = .array vs ∧ items = vs.map (arranged order) := by
  cases v with
  | array vs => exact ⟨vs, rfl, by simpa [arranged_array] using h.symm⟩
  | _ => cases h

@[simp] theorem arranged_written (v : Json) : v.arranged .written = v := by
  induction v using induct with
  | scalar v hv => exact arranged_scalar hv
  | array items ih => rw [arranged_array, List.map_congr_left ih, List.map_id']
  | object members ih =>
    rw [arranged_object]
    have hsame : ∀ m ∈ members, (fun (k, v) => (k, arranged .written v)) m = m :=
      fun (k, v) hm => congrArg (Prod.mk k) (ih (k, v) hm)
    exact congrArg Json.object ((List.map_congr_left hsame).trans (List.map_id' members))

/-- Arranging once more changes nothing. -/
@[simp] theorem arranged_arranged (v : Json) :
    (v.arranged .ascending).arranged order = v.arranged .ascending := by
  cases order with
  | written => exact arranged_written _
  | ascending =>
    induction v using induct with
    | scalar v hv => rw [arranged_scalar hv, arranged_scalar hv]
    | array items ih =>
      rw [arranged_array, arranged_array, List.map_map]
      exact congrArg Json.array (List.map_congr_left ih)
    | object members ih =>
      rw [arranged_object, arranged_object, Order.arrange_map, List.map_map]
      simp only [Order.arrange, Entries.sorted_of_ascending (Entries.ascending_sorted members)]
      refine congrArg Json.object (List.map_congr_left fun m hm => ?_)
      have hmem : m ∈ Order.ascending.arrange members := hm
      rw [Function.comp_apply, ih m (Order.mem_of_mem_arrange hmem)]

/-- Values whose numbers a text can hold and whose collections are nested at most this deep. -/
inductive Within : Nat → Json → Prop
  | null {room : Nat} : Within room .null
  | bool {room : Nat} (b : Bool) : Within room (.bool b)
  | int {room : Nat} {z : Int} (least : -(2 ^ 63 : Int) ≤ z) (most : z < 2 ^ 64) :
    Within room (.int z)
  | float {room : Nat} (x : Binary64) : Within room (.float x)
  | string {room : Nat} (s : String) : Within room (.string s)
  | array {room : Nat} {items : List Json} (each : ∀ v ∈ items, Within room v) :
    Within (room + 1) (.array items)
  | object {room : Nat} {members : List (String × Json)}
    (each : ∀ m ∈ members, Within room m.2) : Within (room + 1) (.object members)

end Json

namespace Node

/-- The nodes of JSON texts: those of values, and what no reader accepts. -/
inductive OfJson : Nat → Node → Prop
  | unreadable {room : Nat} : OfJson room .unreadable
  | value {room : Nat} {v : Json} (fits : v.Within room) : OfJson room v.node
  | sequence {room : Nat} {items : List Node} (each : ∀ item ∈ items, OfJson room item) :
    OfJson (room + 1) (.sequence true true items)
  | mapping {room : Nat} {members : List (Node × Node)}
    (key : ∀ m ∈ members, m.1 = .unreadable ∨ ∃ name, m.1 = (Json.string name).node)
    (each : ∀ m ∈ members, OfJson room m.2) : OfJson (room + 1) (.mapping true members)

end Node

namespace Json

theorem ofJson_numberScalar (isWhole : Bool) (d : Decimal) (room : Nat) :
    (Node.scalar (numberScalar isWhole d)).OfJson room := by
  unfold numberScalar
  simp only
  split
  next h =>
    exact .value (v := .int (digitsValue d.whole)) (.int (by omega) (by exact_mod_cast h.2.2))
  next =>
    split
    next h =>
      obtain ⟨-, -, hpos, hmost⟩ := h
      obtain ⟨n, hn⟩ := Nat.exists_eq_succ_of_ne_zero hpos
      rw [hn] at hmost ⊢
      refine .value (v := .int (.negSucc n)) (.int ?_ (by omega))
      have : n + 1 ≤ 2 ^ 63 := hmost
      omega
    next =>
      split
      next x _ => exact .value (v := .float x) (.float x)
      next => exact .unreadable

theorem exists_of_number? {cs rest : List Char} {scalar : Scalar}
    (h : number? cs = some (scalar, rest)) : ∃ isWhole d, scalar = numberScalar isWhole d := by
  unfold number? at h
  simp only [Option.bind_eq_bind, Option.pure_def] at h
  split at h
  next => cases h
  next =>
    simp only [Option.bind_eq_some_iff, Option.some.injEq, Prod.mk.injEq] at h
    obtain ⟨_, -, _, -, he, -⟩ := h
    exact ⟨_, _, he.symm⟩

theorem ofJson_stringScalar (units : List Nat) (room : Nat) :
    (Node.scalar (stringScalar units)).OfJson room := by
  unfold stringScalar
  split
  next cs _ => exact .value (v := .string (String.ofList cs)) (.string _)
  next => exact .unreadable

theorem stringScalar_eq (units : List Nat) : Node.scalar (stringScalar units) = .unreadable ∨
    ∃ name, Node.scalar (stringScalar units) = (Json.string name).node := by
  unfold stringScalar
  split
  next cs _ => exact .inr ⟨String.ofList cs, rfl⟩
  next => exact .inl rfl

/-- A collection takes up room. -/
theorem ofJson_within {room : Nat} {node : Node} (h : node.OfJson (room - 1 + 1)) :
    (within room node).OfJson room := by
  unfold within
  split
  next => exact .unreadable
  next hr => rwa [Nat.sub_add_cancel (Nat.pos_of_ne_zero hr)] at h

/-- What is read from a text in so many steps comes of values, nested no deeper than there was
room. -/
structure ReadsOfJson (fuel : Nat) : Prop where
  value : ∀ {room : Nat} {cs rest : List Char} {node : Node},
    valueFrom fuel room cs = some (node, rest) → node.OfJson room
  items : ∀ {room : Nat} {cs rest : List Char} {items : List Node},
    itemsFrom fuel room cs = some (items, rest) → ∀ item ∈ items, item.OfJson room
  members : ∀ {room : Nat} {cs rest : List Char} {members : List (Node × Node)},
    membersFrom fuel room cs = some (members, rest) → ∀ m ∈ members,
      (m.1 = .unreadable ∨ ∃ name, m.1 = (Json.string name).node) ∧ m.2.OfJson room

namespace ReadsOfJson

variable {fuel room : Nat} {cs rest : List Char}

theorem value_succ {node : Node} (reads : ReadsOfJson fuel)
    (h : valueFrom (fuel + 1) room cs = some (node, rest)) : node.OfJson room := by
  rw [valueFrom] at h
  split at h
  next =>
    split at h
    next =>
      cases h
      exact ofJson_within (.mapping (by simp) (by simp))
    next =>
      simp only [Option.map_eq_some_iff, Prod.mk.injEq] at h
      obtain ⟨⟨members, _⟩, hm, rfl, rfl⟩ := h
      have hall := reads.members hm
      exact ofJson_within (.mapping (fun m h => (hall m h).1) fun m h => (hall m h).2)
  next =>
    split at h
    next =>
      cases h
      exact ofJson_within (.sequence (by simp))
    next =>
      simp only [Option.map_eq_some_iff, Prod.mk.injEq] at h
      obtain ⟨⟨items, _⟩, hi, rfl, rfl⟩ := h
      exact ofJson_within (.sequence (reads.items hi))
  next =>
    simp only [Option.map_eq_some_iff, Prod.mk.injEq] at h
    obtain ⟨⟨units, _⟩, -, rfl, -⟩ := h
    exact ofJson_stringScalar units room
  next =>
    split at h
    next => cases h; exact .value (v := .null) .null
    next =>
      split at h
      next => cases h; exact .value (v := .bool true) (.bool true)
      next =>
        split at h
        next => cases h; exact .value (v := .bool false) (.bool false)
        next =>
          simp only [Option.map_eq_some_iff, Prod.mk.injEq] at h
          obtain ⟨⟨scalar, _⟩, hn, rfl, -⟩ := h
          obtain ⟨isWhole, d, rfl⟩ := exists_of_number? hn
          exact ofJson_numberScalar isWhole d room

theorem items_succ {items : List Node} (reads : ReadsOfJson fuel)
    (h : itemsFrom (fuel + 1) room cs = some (items, rest)) :
    ∀ item ∈ items, item.OfJson room := by
  rw [itemsFrom] at h
  simp only [Option.bind_eq_bind, Option.bind_eq_some_iff] at h
  obtain ⟨⟨first, cs'⟩, hfirst, h⟩ := h
  have hf : first.OfJson room := reads.value hfirst
  split at h
  next =>
    simp only [Option.map_eq_some_iff, Prod.mk.injEq] at h
    obtain ⟨⟨others, _⟩, ho, rfl, rfl⟩ := h
    exact List.forall_mem_cons.mpr ⟨hf, reads.items ho⟩
  next =>
    cases h
    exact List.forall_mem_singleton.mpr hf
  next => cases h

theorem members_succ {members : List (Node × Node)} (reads : ReadsOfJson fuel)
    (h : membersFrom (fuel + 1) room cs = some (members, rest)) : ∀ m ∈ members,
    (m.1 = .unreadable ∨ ∃ name, m.1 = (Json.string name).node) ∧ m.2.OfJson room := by
  rw [membersFrom] at h
  split at h
  next =>
    simp only [Option.bind_eq_bind, Option.bind_eq_some_iff] at h
    obtain ⟨⟨units, cs'⟩, -, h⟩ := h
    split at h
    next =>
      simp only [Option.bind_eq_some_iff] at h
      obtain ⟨⟨value, cs'⟩, hvalue, h⟩ := h
      have hv : value.OfJson room := reads.value hvalue
      split at h
      next =>
        simp only [Option.map_eq_some_iff, Prod.mk.injEq] at h
        obtain ⟨⟨others, _⟩, ho, rfl, rfl⟩ := h
        exact List.forall_mem_cons.mpr ⟨⟨stringScalar_eq units, hv⟩, reads.members ho⟩
      next =>
        cases h
        exact List.forall_mem_singleton.mpr ⟨stringScalar_eq units, hv⟩
      next => cases h
    next => cases h
  next => cases h

end ReadsOfJson

theorem readsOfJson (fuel : Nat) : ReadsOfJson fuel := by
  induction fuel with
  | zero => constructor <;> simp [valueFrom, itemsFrom, membersFrom]
  | succ fuel ih => exact ⟨ih.value_succ, ih.items_succ, ih.members_succ⟩

theorem ofJson_of_readNode {text : String} {node : Node} (h : readNode text = some node) :
    node.OfJson maxDepth := by
  simp only [readNode, readChars, Option.bind_eq_bind, Option.bind_eq_some_iff] at h
  obtain ⟨⟨value, rest⟩, hv, h⟩ := h
  split at h
  next =>
    cases h
    exact (readsOfJson _).value hv
  next => cases h

theorem datum?_node (v : Json) : v.node.datum? = some v.datum := by
  induction v using induct with
  | scalar v hv => cases v <;> first | rfl | cases hv
  | array items ih =>
    have hitems : Node.dataOf (nodes items) = some (dataOf items) := by
      induction items with
      | nil => rfl
      | cons v vs ihs =>
        obtain ⟨hv, hvs⟩ := List.forall_mem_cons.mp ih
        simp [nodes, Node.dataOf, dataOf, hv, ihs hvs]
    simp [node, Node.datum?, hitems, datum]
  | object members ih =>
    have hmembers : Node.dataOfMembers (nodesOfMembers members) = some (dataOfMembers members) := by
      induction members with
      | nil => rfl
      | cons m ms ihs =>
        obtain ⟨hv, hvs⟩ := List.forall_mem_cons.mp ih
        simp [nodesOfMembers, Node.dataOfMembers, dataOfMembers, Node.datum?, hv, ihs hvs]
    simp [node, Node.datum?, hmembers, datum]

theorem json?_node (v : Json) : v.node.json? = some (v.arranged .ascending) := by
  induction v using induct with
  | scalar v hv =>
    rw [arranged_scalar hv]
    cases v with
    | int z => cases z <;> rfl
    | array | object => cases hv
    | _ => rfl
  | array items ih =>
    have hitems : Node.jsonItems (nodes items) = some (items.map (arranged .ascending)) := by
      induction items with
      | nil => rfl
      | cons v vs ihs =>
        obtain ⟨hv, hvs⟩ := List.forall_mem_cons.mp ih
        simp [nodes, Node.jsonItems, hv, ihs hvs]
    simp [node, Node.json?, hitems, arranged_array]
  | object members ih =>
    have hmembers : Node.jsonMembers (nodesOfMembers members) =
        some (members.map fun (k, v) => (k, v.arranged .ascending)) := by
      induction members with
      | nil => rfl
      | cons m ms ihs =>
        obtain ⟨hv, hvs⟩ := List.forall_mem_cons.mp ih
        simp [nodesOfMembers, Node.jsonMembers, Node.text?, hv, ihs hvs]
    simp [node, Node.json?, hmembers, arranged_object, Entries.sorted_map, Order.arrange]

theorem json?_datum (v : Json) : v.datum.json? = some (v.arranged .ascending) := by
  induction v using induct with
  | scalar v hv =>
    rw [arranged_scalar hv]
    cases v with
    | int z => cases z <;> rfl
    | array | object => cases hv
    | _ => rfl
  | array items ih =>
    have hitems : Datum.jsonItems (dataOf items) = some (items.map (arranged .ascending)) := by
      induction items with
      | nil => rfl
      | cons v vs ihs =>
        obtain ⟨hv, hvs⟩ := List.forall_mem_cons.mp ih
        simp [dataOf, Datum.jsonItems, hv, ihs hvs]
    simp [datum, Datum.json?, hitems, arranged_array]
  | object members ih =>
    have hmembers : Datum.jsonMembers (dataOfMembers members) =
        some (members.map fun (k, v) => (k, v.arranged .ascending)) := by
      induction members with
      | nil => rfl
      | cons m ms ihs =>
        obtain ⟨hv, hvs⟩ := List.forall_mem_cons.mp ih
        simp [dataOfMembers, Datum.jsonMembers, hv, ihs hvs]
    simp [datum, Datum.json?, hmembers, arranged_object, Entries.sorted_map, Order.arrange]

theorem members?_datum (members : List (String × Json)) :
    (Json.object members).datum.members? = some (members.map fun (k, v) => (k, v.datum)) := by
  rw [datum, Datum.members?]
  induction members with
  | nil => rfl
  | cons m ms ih => simp [dataOfMembers, Datum.namedMembers?, Datum.string?, ih]

theorem countedMembers?_datum (declared : List String) (members : List (String × Json)) :
    Datum.countedMembers? declared (dataOfMembers members) =
      some (members.map fun (k, v) => (k, v.datum)) := by
  induction members with
  | nil => rfl
  | cons m ms ih => simp [dataOfMembers, Datum.countedMembers?, ih]

theorem fields?_datum (declared : List Field) (members : List (String × Json)) :
    (Json.object members).datum.fields? declared =
      some (members.map fun (k, v) => (k, v.datum)) := by
  rw [datum, Datum.fields?, countedMembers?_datum]

theorem items?_datum (items : List Json) :
    (Json.array items).datum.items? = some (items.map datum) := by
  rw [datum, Datum.items?, dataOf_eq]

theorem members?_node (members : List (String × Json)) :
    (Json.object members).node.members? = some (members.map fun (k, v) => (k, v.node)) := by
  rw [node, Node.members?]
  induction members with
  | nil => rfl
  | cons m ms ih => simp [nodesOfMembers, Node.namedMembers?, Node.text?, ih]

/-- Only an object has members. -/
theorem eq_object_of_members? {v : Json} {members : List (String × Datum)}
    (h : v.datum.members? = some members) : ∃ ms, v = .object ms := by
  cases v with
  | object ms => exact ⟨ms, rfl⟩
  | int z => cases z <;> simp [datum, Datum.members?] at h
  | _ => simp [datum, Datum.members?] at h

/-- Only an array has items. -/
theorem eq_array_of_items? {v : Json} {items : List Datum} (h : v.datum.items? = some items) :
    ∃ vs, v = .array vs := by
  cases v with
  | array vs => exact ⟨vs, rfl⟩
  | int z => cases z <;> simp [datum, Datum.items?] at h
  | _ => simp [datum, Datum.items?] at h

/-- Only an array or an object has fields. -/
theorem of_fields? {v : Json} {declared : List Field} {fields : Fields Datum}
    (h : v.datum.fields? declared = some fields) :
    (∃ vs, v = .array vs) ∨ ∃ ms, v = .object ms := by
  cases v with
  | array vs => exact .inl ⟨vs, rfl⟩
  | object ms => exact .inr ⟨ms, rfl⟩
  | int z => cases z <;> simp [datum, Datum.fields?] at h
  | _ => simp [datum, Datum.fields?] at h

/-- The members of an object as values, in an order. -/
theorem members_arranged {v : Json} {members : List (String × Datum)}
    (h : (v.arranged order).datum.members? = some members) : ∃ ms, v = .object ms ∧
      members = (order.arrange ms).map fun (k, v) => (k, (v.arranged order).datum) := by
  obtain ⟨pairs, hp⟩ := eq_object_of_members? h
  obtain ⟨ms, rfl, rfl⟩ := exists_of_arranged_object hp
  rw [hp, members?_datum, List.map_map] at h
  exact ⟨ms, rfl, (Option.some.inj h).symm⟩

theorem items_arranged {v : Json} {items : List Datum}
    (h : (v.arranged order).datum.items? = some items) : ∃ vs, v = .array vs ∧
      items = vs.map fun v => (v.arranged order).datum := by
  obtain ⟨arranged, ha⟩ := eq_array_of_items? h
  obtain ⟨vs, rfl, rfl⟩ := exists_of_arranged_array ha
  rw [ha, items?_datum, List.map_map] at h
  exact ⟨vs, rfl, (Option.some.inj h).symm⟩

theorem items?_node (items : List Json) :
    (Json.array items).node.items? = some (items.map Json.node) := by
  rw [Json.node, Node.items?, Json.nodes_eq]

theorem absent?_node (v : Json) : v.node.absent? = some v.isNull := by
  cases v <;> rfl

theorem absent?_datum (v : Json) : v.datum.absent? = some v.isNull := by
  cases v with
  | int z => cases z <;> rfl
  | _ => rfl

theorem isNull_arranged (order : Order) (v : Json) : (v.arranged order).isNull = v.isNull := by
  cases v <;> rfl

theorem Within.arranged {room : Nat} {v : Json} (h : v.Within room) (order : Order) :
    (v.arranged order).Within room := by
  induction h with
  | array each ih =>
    rw [Json.arranged_array]
    exact .array (List.forall_mem_map.mpr ih)
  | object each ih =>
    rw [Json.arranged_object]
    refine .object fun m hm => ?_
    obtain ⟨pair, hp, rfl⟩ := List.mem_map.mp hm
    exact ih pair (Order.mem_of_mem_arrange hp)
  | int least most => exact .int least most
  | null => exact .null
  | bool b => exact .bool b
  | float x => exact .float x
  | string s => exact .string s

end Json

theorem Fields.mem_of_ofPositions? {α : Type} {declared : List Field} {items : List α}
    {fields : Fields α} (h : Fields.ofPositions? declared items = some fields) :
    ∀ field ∈ fields, field.2 ∈ items := by
  unfold Fields.ofPositions? at h
  split at h
  next =>
    cases h
    exact fun field hm => (List.of_mem_zip hm).2
  next => cases h

theorem Node.mem_of_namedMembers? {members : List (Node × Node)} {named : List (String × Node)}
    (h : Node.namedMembers? members = some named) :
    ∀ m ∈ named, ∃ key, (key, m.2) ∈ members := by
  induction members generalizing named with
  | nil =>
    cases h
    simp
  | cons pair rest ih =>
    obtain ⟨key, value⟩ := pair
    simp only [Node.namedMembers?, Option.bind_eq_bind, Option.bind_eq_some_iff, Option.pure_def,
      Option.some.injEq] at h
    obtain ⟨name, -, others, ho, rfl⟩ := h
    refine List.forall_mem_cons.mpr ⟨⟨key, List.mem_cons_self⟩, fun m hm => ?_⟩
    obtain ⟨other, hother⟩ := ih ho m hm
    exact ⟨other, List.mem_cons_of_mem _ hother⟩

namespace Node.OfJson

variable {room : Nat} {node : Node} {datum : Datum} {v : Json}

theorem items_or {items : List Node} (h : ∀ item ∈ items,
    (item.datum? = none ∧ item.json? = none) ∨ ∃ v : Json, v.Within room ∧ item = v.node) :
    (Node.dataOf items = none ∧ Node.jsonItems items = none) ∨
      ∃ vs : List Json, (∀ v ∈ vs, v.Within room) ∧ items = Json.nodes vs := by
  induction items with
  | nil => exact .inr ⟨[], by simp, rfl⟩
  | cons item rest ih =>
    obtain ⟨hitem, hrest⟩ := List.forall_mem_cons.mp h
    rcases hitem with ⟨hd, hj⟩ | ⟨v, hv, rfl⟩
    · exact .inl ⟨by simp [Node.dataOf, hd], by simp [Node.jsonItems, hj]⟩
    · rcases ih hrest with ⟨hd, hj⟩ | ⟨vs, hvs, rfl⟩
      · exact .inl ⟨by simp [Node.dataOf, hd], by simp [Node.jsonItems, hj]⟩
      · exact .inr ⟨v :: vs, List.forall_mem_cons.mpr ⟨hv, hvs⟩, rfl⟩

theorem members_or {members : List (Node × Node)}
    (hk : ∀ m ∈ members, m.1 = .unreadable ∨ ∃ name, m.1 = (Json.string name).node)
    (h : ∀ m ∈ members, (m.2.datum? = none ∧ m.2.json? = none) ∨
      ∃ v : Json, v.Within room ∧ m.2 = v.node) :
    (Node.dataOfMembers members = none ∧ Node.jsonMembers members = none) ∨
      ∃ ms : List (String × Json), (∀ m ∈ ms, m.2.Within room) ∧
        members = Json.nodesOfMembers ms := by
  induction members with
  | nil => exact .inr ⟨[], by simp, rfl⟩
  | cons m rest ih =>
    obtain ⟨key, value⟩ := m
    obtain ⟨hkey, hkeys⟩ := List.forall_mem_cons.mp hk
    obtain ⟨hvalue, hrest⟩ := List.forall_mem_cons.mp h
    rcases hkey with rfl | ⟨name, rfl⟩
    · exact .inl ⟨rfl, rfl⟩
    rcases hvalue with ⟨hd, hj⟩ | ⟨v, hv, rfl⟩
    · exact .inl ⟨by simp_all [Node.dataOfMembers], by simp_all [Node.jsonMembers]⟩
    · rcases ih hkeys hrest with ⟨hd, hj⟩ | ⟨ms, hms, rfl⟩
      · exact .inl ⟨by simp [Node.dataOfMembers, hd], by simp [Node.jsonMembers, hj]⟩
      · exact .inr ⟨(name, v) :: ms, List.forall_mem_cons.mpr ⟨hv, hms⟩, rfl⟩

/-- A node of a text is the node of a value, or it is read neither as a value nor as JSON. -/
theorem value_or (h : node.OfJson room) : (node.datum? = none ∧ node.json? = none) ∨
    ∃ v : Json, v.Within room ∧ node = v.node := by
  induction h with
  | unreadable => exact .inl ⟨rfl, rfl⟩
  | value fits => exact .inr ⟨_, fits, rfl⟩
  | sequence _ ih =>
    rcases items_or ih with ⟨hd, hj⟩ | ⟨vs, hvs, rfl⟩
    · exact .inl ⟨by simp [Node.datum?, hd], by simp [Node.json?, hj]⟩
    · exact .inr ⟨.array vs, .array hvs, rfl⟩
  | mapping hk _ ih =>
    rcases members_or hk ih with ⟨hd, hj⟩ | ⟨ms, hms, rfl⟩
    · exact .inl ⟨by simp [Node.datum?, hd], by simp [Node.json?, hj]⟩
    · exact .inr ⟨.object ms, .object hms, rfl⟩

theorem of_datum? (h : node.OfJson room) (hd : node.datum? = some datum) :
    ∃ v : Json, v.Within room ∧ node = v.node ∧ datum = v.datum := by
  rcases h.value_or with ⟨hn, -⟩ | ⟨v, hv, rfl⟩
  · simp [hn] at hd
  · rw [v.datum?_node] at hd
    exact ⟨v, hv, rfl, (Option.some.inj hd).symm⟩

theorem of_json? (h : node.OfJson room) (hj : node.json? = some v) :
    ∃ w : Json, w.Within room ∧ node = w.node ∧ v = w.arranged .ascending := by
  rcases h.value_or with ⟨-, hn⟩ | ⟨w, hw, rfl⟩
  · simp [hn] at hj
  · rw [w.json?_node] at hj
    exact ⟨w, hw, rfl, (Option.some.inj hj).symm⟩

theorem of_members? {members : List (String × Node)} (h : node.OfJson room)
    (hm : node.members? = some members) :
    ∃ left, room = left + 1 ∧ ∀ m ∈ members, m.2.OfJson left := by
  cases h with
  | unreadable => cases hm
  | @value _ v fits =>
    cases fits with
    | @object left ms each =>
      rw [Json.members?_node, Option.some.injEq] at hm
      subst hm
      refine ⟨left, rfl, List.forall_mem_map.mpr fun m hm => .value (each m hm)⟩
    | _ => cases hm
  | @mapping left _ _ each =>
    refine ⟨left, rfl, fun m hmem => ?_⟩
    obtain ⟨key, hkey⟩ := Node.mem_of_namedMembers? hm m hmem
    exact each _ hkey
  | sequence => cases hm

theorem of_items? {items : List Node} (h : node.OfJson room) (hi : node.items? = some items) :
    ∃ left, room = left + 1 ∧ ∀ item ∈ items, item.OfJson left := by
  cases h with
  | unreadable => cases hi
  | @value _ v fits =>
    cases fits with
    | @array left vs each =>
      rw [Json.items?_node, Option.some.injEq] at hi
      subst hi
      exact ⟨left, rfl, List.forall_mem_map.mpr fun v hv => .value (each v hv)⟩
    | _ => cases hi
  | mapping => cases hi
  | @sequence left _ each =>
    cases hi
    exact ⟨left, rfl, each⟩

theorem of_fields? {declared : List Field} {fields : Fields Node} (h : node.OfJson room)
    (hf : node.fields? declared = some fields) :
    ∃ left, room = left + 1 ∧ ∀ field ∈ fields, field.2.OfJson left := by
  cases node with
  | sequence positional plain items =>
    obtain ⟨left, hleft, hitems⟩ := h.of_items? (show Node.items? (.sequence ..) = _ from rfl)
    simp only [Node.fields?] at hf
    split at hf
    next => exact ⟨left, hleft, fun f hm => hitems _ (Fields.mem_of_ofPositions? hf f hm)⟩
    next => cases hf
  | scalar | mapping => exact h.of_members? hf

end Node.OfJson

end ApiAtlas
