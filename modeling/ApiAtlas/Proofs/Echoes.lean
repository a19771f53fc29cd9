import ApiAtlas.Proofs.PrintedRecords
import ApiAtlas.Proofs.RecordFields
import ApiAtlas.Proofs.WrittenJson

namespace ApiAtlas

namespace Order

variable {α β : Type} {order : Order} {entries pairs : List (String × α)}

/-- Names that the members of a map have in an order: each stands once. -/
def Settles : Order → List String → Prop
  | .written, names => names.Nodup
  | .ascending, names => names.Pairwise (· < ·)

theorem Settles.nodup {names : List String} (h : order.Settles names) : names.Nodup := by
  cases order with
  | written => exact h
  | ascending => exact h.imp ne_of_lt

theorem Settles.filter {names : List String} (h : order.Settles names) (keep : String → Bool) :
    order.Settles (names.filter keep) := by
  cases order with
  | written => exact List.Nodup.filter keep h
  | ascending => exact List.Pairwise.filter keep h

/-- Members in an order stay as they are. -/
theorem Settles.arrange (h : order.Settles (Entries.keys entries)) :
    order.arrange entries = entries := by
  cases order with
  | written => rfl
  | ascending => exact Entries.sorted_of_ascending h

theorem settles_eraseDups (order : Order) (members : List (String × α)) :
    order.Settles (Entries.keys (order.arrange members)).eraseDups := by
  cases order with
  | written => exact Entries.nodup_eraseDups _
  | ascending =>
    have hasc := Entries.ascending_sorted members
    rw [arrange, Entries.eraseDups_of_nodup hasc.nodup]
    exact hasc

theorem filter_arrange (order : Order) (keep : String → Bool)
    (h : (Entries.keys entries).Nodup) : (order.arrange entries).filter (fun e => keep e.1) =
      order.arrange (entries.filter fun e => keep e.1) := by
  cases order with
  | written => rfl
  | ascending =>
    have hkept : (Entries.keys (entries.filter fun e => keep e.1)).Nodup :=
      h.sublist (List.filter_sublist.map Prod.fst)
    refine Entries.Ascending.eq_of_perm ?_ (Entries.ascending_sorted _) ?_
    · exact (Entries.ascending_sorted entries).sublist (List.filter_sublist.map Prod.fst)
    · exact ((Entries.sorted_perm_of_nodup h).filter _).trans
        (Entries.sorted_perm_of_nodup hkept).symm

/-- Members as they are met: in an order, their values displayed. -/
def lay (order : Order) (display : Json → α) (members : List (String × Json)) : List (String × α) :=
  (order.arrange members).map fun (key, v) => (key, display v)

section
variable {display : Json → α} {members : List (String × Json)}

theorem keys_lay_nodup (h : (Entries.keys members).Nodup) :
    (Entries.keys (order.lay display members)).Nodup := by
  rw [lay, Entries.keys_map]
  exact ((order.arrange_perm h).map Prod.fst).nodup_iff.mpr h

theorem get?_lay (h : (Entries.keys members).Nodup) (name : String) :
    Entries.get? (order.lay display members) name = (Entries.get? members name).map display := by
  have hperm := order.arrange_perm h
  rw [lay, Entries.get?_map, Entries.get?_perm hperm ((hperm.map Prod.fst).nodup_iff.mpr h)]

theorem lay_of_settles (h : order.Settles (Entries.keys members)) :
    order.lay display members = members.map fun (key, v) => (key, display v) := by
  rw [lay, h.arrange]

end

end Order

/-- Where each name stands once, a name is looked up. -/
theorem Fields.single?_of_nodup {α : Type} {fields : Fields α} (h : (Entries.keys fields).Nodup)
    (name : String) : fields.single? name = some (Entries.get? fields name) := by
  induction fields with
  | nil => rfl
  | cons field rest ih =>
    obtain ⟨hfirst, hrest⟩ := List.nodup_cons.mp h
    by_cases hname : field.1 = name
    · have hnone : rest.filter (·.1 == name) = [] := List.filter_eq_nil_iff.mpr fun other ho he =>
        hfirst (List.mem_map.mpr ⟨other, ho, (beq_iff_eq.mp he).trans hname.symm⟩)
      simp [single?, hname, hnone, Entries.get?_cons]
    · rw [Entries.get?_cons, if_neg hname, ← ih hrest]
      simp [single?, hname]

namespace Table

variable {table : Table} {ext : List (String × Json)}

theorem keys_members_sublist (table : Table) :
    (Entries.keys table.members).Sublist table.names := by
  induction table with
  | nil => exact .slnil
  | cons row rest ih =>
    obtain ⟨name, value⟩ := row
    cases value with
    | none => exact ih.cons name
    | some v => exact ih.cons_cons name

/-- The names of a table stand once if none of them is among the members beside it. -/
theorem nodup_keys (hnames : table.names.Nodup) (hext : (Entries.keys ext).Nodup)
    (hdisjoint : ∀ name ∈ Entries.keys ext, name ∉ table.names) :
    (Entries.keys (table.members ++ ext)).Nodup := by
  rw [Entries.keys_append, List.nodup_append]
  refine ⟨hnames.sublist table.keys_members_sublist, hext, fun name hm other ho he => ?_⟩
  subst he
  exact hdisjoint name ho (table.keys_members_sublist.subset hm)

theorem get?_members (hnames : table.names.Nodup) (hext : (Entries.keys ext).Nodup)
    (hdisjoint : ∀ name ∈ Entries.keys ext, name ∉ table.names) {row : String × Option Json}
    (h : row ∈ table) : Entries.get? (table.members ++ ext) row.1 = row.2 := by
  cases hget : Entries.get? (table.members ++ ext) row.1 with
  | some v =>
    rcases List.mem_append.mp (Entries.mem_of_get? hget) with hm | hm
    · have he := List.inj_on_of_nodup_map hnames (mem_members.mp hm) h rfl
      exact congrArg Prod.snd he
    · exact absurd (List.mem_map_of_mem h) (hdisjoint _ (List.mem_map_of_mem hm))
  | none =>
    obtain ⟨name, value⟩ := row
    cases value with
    | none => rfl
    | some v =>
      have hm : (name, v) ∈ table.members ++ ext := List.mem_append_left _ (mem_members.mpr h)
      rw [Entries.get?_of_mem_nodup (nodup_keys hnames hext hdisjoint) hm] at hget
      cases hget

end Table

/-- A way of meeting JSON values: how they are displayed, and how what is met is taken as a map, a
record, a list or nothing. What it holds comes of values nested at most so deep. -/
structure Medium (α : Type) where
  order : Order
  display : Json → α
  holds : Nat → α → Prop
  members? : α → Option (List (String × α))
  fields? : List Field → α → Option (Fields α)
  items? : α → Option (List α)
  absent? : α → Option Bool
  members_display : ∀ members,
    members? (display (.object members)) = some (order.lay display members)
  fields_display : ∀ declared members,
    fields? declared (display (.object members)) = some (order.lay display members)
  items_display : ∀ items, items? (display (.array items)) = some (items.map display)
  absent_display : ∀ v, absent? (display v) = some v.isNull
  of_members : ∀ {room a members}, holds room a → members? a = some members →
    order.Settles (Entries.keys members).eraseDups ∧
      ∃ left, room = left + 1 ∧ ∀ m ∈ members, holds left m.2
  of_fields : ∀ {room declared a fields}, holds room a → fields? declared a = some fields →
    ∃ left, room = left + 1 ∧ ∀ field ∈ fields, holds left field.2
  of_items : ∀ {room a items}, holds room a → items? a = some items →
    ∃ left, room = left + 1 ∧ ∀ item ∈ items, holds left item

namespace Medium

variable {α β : Type} {m : Medium α} {read reread : α → Option β}
  {print : β → Json} {ok : β → Prop} {room left : Nat}

/-- What was read as `b` is printed as `v`: it fits where `b` was found, it is there if that was,
and it is read as `b` again. -/
structure Echo (m : Medium α) (reread : α → Option β) (room : Nat) (a : α) (v : Json) (b : β) :
    Prop where
  fits : v.Within room
  there : m.absent? a = some false → v.isNull = false
  again : reread (m.display v) = some b

/-- What is printed of the results of `read` is read again by `reread`, as far as they are `ok`. -/
def Echoes (m : Medium α) (read reread : α → Option β) (print : β → Json) (ok : β → Prop) : Prop :=
  ∀ ⦃room a b⦄, m.holds room a → read a = some b → ok b → m.Echo reread room a (print b) b

theorem echoes_list (h : m.Echoes read reread print ok) :
    m.Echoes (fun a => (m.items? a).bind fun items => items.mapM read)
      (fun a => (m.items? a).bind fun items => items.mapM reread)
      (fun bs => .array (bs.map print)) (fun bs => ∀ b ∈ bs, ok b) := by
  intro room a bs hs hr hok
  obtain ⟨items, hi, hr⟩ := Option.bind_eq_some_iff.mp hr
  obtain ⟨left, rfl, hitems⟩ := m.of_items hs hi
  have hforall := mapM_eq_some.mp hr
  have heach : ∀ b ∈ bs, ∃ a, m.Echo reread left a (print b) b := fun b hb => by
    obtain ⟨a, ha, hread⟩ := forall₂_of_mem_right hforall hb
    exact ⟨a, h (hitems a ha) hread (hok b hb)⟩
  constructor
  · refine .array fun v hv => ?_
    obtain ⟨b, hb, rfl⟩ := List.mem_map.mp hv
    obtain ⟨a, he⟩ := heach b hb
    exact he.fits
  · exact fun _ => rfl
  · rw [m.items_display, Option.bind_some, mapM_eq_some, List.map_map, List.forall₂_map_left_iff]
    refine List.forall₂_same.mpr fun b hb => ?_
    obtain ⟨a, he⟩ := heach b hb
    exact he.again

/-- The entries that are made of some members, printed and met again. -/
theorem echo_readEntries {members : List (String × α)} {entries : Entries β}
    (hs : ∀ member ∈ members, m.holds left member.2)
    (hr : readEntries read members = some entries) (h : m.Echoes read reread print ok)
    (hok : ∀ e ∈ entries, ok e.2) :
    (∀ e ∈ membersOf print entries, e.2.Within left) ∧
      readEntries reread ((membersOf print entries).map fun (key, v) => (key, m.display v)) =
        some entries := by
  obtain ⟨pairs, rfl, hp⟩ := readEntries_eq_some.mp hr
  have heach : ∀ e ∈ Entries.ofPairs pairs, ∃ a, m.Echo reread left a (print e.2) e.2 := by
    intro e he
    obtain ⟨member, hm, -, hread⟩ := forall₂_of_mem_right hp (Entries.mem_of_mem_ofPairs he)
    exact ⟨member.2, h (hs member hm) hread (hok e he)⟩
  refine ⟨fun e he => ?_, ?_⟩
  · obtain ⟨entry, hm, rfl⟩ := List.mem_map.mp he
    obtain ⟨a, hecho⟩ := heach entry hm
    exact hecho.fits
  · refine readEntries_eq_some.mpr ⟨Entries.ofPairs pairs,
      (Entries.ofPairs_of_nodup (Entries.nodup_keys_ofPairs pairs)).symm, ?_⟩
    rw [membersOf, List.map_map, List.forall₂_map_left_iff]
    refine List.forall₂_same.mpr fun e he => ⟨rfl, ?_⟩
    obtain ⟨a, hecho⟩ := heach e he
    exact hecho.again

theorem keys_readEntries {members : List (String × α)} {entries : Entries β}
    (hr : readEntries read members = some entries) :
    Entries.keys entries = (Entries.keys members).eraseDups := by
  obtain ⟨pairs, rfl, hp⟩ := readEntries_eq_some.mp hr
  rw [Entries.keys_ofPairs, keys_of_forall₂ (R := fun a b => read a = some b) hp]

theorem echoes_entries (h : m.Echoes read reread print ok) :
    m.Echoes (fun a => (m.members? a).bind (readEntries read))
      (fun a => (m.members? a).bind (readEntries reread))
      (fun entries => .object (membersOf print entries))
      (fun entries => ∀ e ∈ entries, ok e.2) := by
  intro room a entries hs hr hok
  obtain ⟨members, hm, hr⟩ := Option.bind_eq_some_iff.mp hr
  obtain ⟨hsettles, left, rfl, hmembers⟩ := m.of_members hs hm
  obtain ⟨hfits, hagain⟩ := echo_readEntries hmembers hr h hok
  rw [← keys_readEntries hr] at hsettles
  refine ⟨.object hfits, fun _ => rfl, ?_⟩
  have hkeys : Entries.keys (membersOf print entries) = Entries.keys entries :=
    Entries.keys_map print entries
  rw [m.members_display, Order.lay_of_settles (hkeys ▸ hsettles), Option.bind_some, hagain]

/-- What is printed under the names of a table is read again such that `P` holds. -/
structure Answers (m : Medium α) (room : Nat) (table : Table) (P : Fields α → Prop) : Prop where
  fits : ∀ {name v}, (name, some v) ∈ table → v.Within room
  again : ∀ {fields : Fields α},
    (∀ row ∈ table, fields.single? row.1 = some (row.2.map m.display)) → P fields

theorem answers_nil : m.Answers room [] fun _ => True :=
  ⟨fun h => (nomatch h), fun _ => trivial⟩

theorem Answers.cons {row : String × Option Json} {table : Table} {P Q : Fields α → Prop}
    (h : m.Answers room [row] P) (h' : m.Answers room table Q) :
    m.Answers room (row :: table) fun fields => P fields ∧ Q fields where
  fits hm := (List.mem_cons.mp hm).elim (fun he => h.fits (List.mem_singleton.mpr he)) h'.fits
  again hf := by
    obtain ⟨hrow, htable⟩ := List.forall_mem_cons.mp hf
    exact ⟨h.again (List.forall_mem_singleton.mpr hrow), h'.again htable⟩

theorem answers_row {name : String} {value : Option Json} {P : Fields α → Prop}
    (hfits : ∀ v, value = some v → v.Within room)
    (hagain : ∀ fields : Fields α, fields.single? name = some (value.map m.display) → P fields) :
    m.Answers room [(name, value)] P where
  fits hm := by
    rw [List.mem_singleton, Prod.mk.injEq] at hm
    exact hfits _ hm.2.symm
  again hf := hagain _ (hf _ List.mem_cons_self)

section
variable {fields : Fields α} {name : String} {b : β}

variable (hs : ∀ field ∈ fields, m.holds room field.2) (h : m.Echoes read reread print ok)
include hs h

theorem answers_demand (hr : fields.demand name read = some b) (hok : ok b) :
    m.Answers room [(name, some (print b))] fun fields => fields.demand name reread = some b := by
  obtain ⟨a, ha, hread⟩ := Fields.demand_eq_some.mp hr
  have hecho := h (hs _ (Fields.mem_of_single? ha)) hread hok
  refine answers_row (fun v hv => ?_) fun fields hf => ?_
  · cases hv
    exact hecho.fits
  · exact Fields.demand_eq_some.mpr ⟨_, hf, hecho.again⟩

theorem answers_optional {o : Option β} (hr : fields.optional name m.absent? read = some o)
    (hok : ∀ b ∈ o, ok b) :
    m.Answers room [(name, o.map print)] fun fields =>
      fields.optional name m.absent? reread = some o := by
  rcases Fields.optional_eq_some.mp hr with ⟨rfl, -⟩ | ⟨a, b, rfl, ha, hthere, hread⟩
  · exact answers_row (fun v hv => by cases hv) fun fields hf =>
      Fields.optional_eq_some.mpr (.inl ⟨rfl, .inl hf⟩)
  · have hecho := h (hs _ (Fields.mem_of_single? ha)) hread (hok b rfl)
    refine answers_row (fun v hv => ?_) fun fields hf => ?_
    · cases hv
      exact hecho.fits
    · refine Fields.optional_eq_some.mpr (.inr ⟨_, b, rfl, hf, ?_, hecho.again⟩)
      rw [m.absent_display, hecho.there hthere]

omit h in
/-- An optional field that is kept as it is. -/
theorem answers_kept {read reread : α → Option Json} {o : Option Json}
    (h : m.Echoes read reread id fun _ => True)
    (hr : fields.optional name m.absent? read = some o) :
    m.Answers room [(name, o)] fun fields => fields.optional name m.absent? reread = some o := by
  have hanswers := answers_optional hs h hr fun _ _ => trivial
  rwa [Option.map_id] at hanswers

/-- A field that is left out just where it has the value of its own. -/
theorem answers_withDefault {fallback : β} {value : Option Json}
    (hr : fields.withDefault name read fallback = some b) (hok : ok b)
    (hvalue : (value = none ∧ b = fallback) ∨ (value = some (print b) ∧ b ≠ fallback)) :
    m.Answers room [(name, value)] fun fields =>
      fields.withDefault name reread fallback = some b := by
  rcases hvalue with ⟨rfl, he⟩ | ⟨rfl, hne⟩
  · exact answers_row (fun v hv => by cases hv) fun fields hf =>
      Fields.withDefault_eq_some.mpr (.inl ⟨hf, he⟩)
  · rcases Fields.withDefault_eq_some.mp hr with ⟨-, he⟩ | ⟨a, ha, hread⟩
    · exact absurd he hne
    · have hecho := h (hs _ (Fields.mem_of_single? ha)) hread hok
      refine answers_row (fun v hv => ?_) fun fields hf => ?_
      · cases hv
        exact hecho.fits
      · exact Fields.withDefault_eq_some.mpr (.inr ⟨_, hf, hecho.again⟩)

/-- A field that is printed even where it has the value of its own. -/
theorem answers_shown {fallback : β} (hr : fields.withDefault name read fallback = some b)
    (hok : ok b) (hfits : (print fallback).Within room)
    (hagain : reread (m.display (print fallback)) = some fallback) :
    m.Answers room [(name, some (print b))] fun fields =>
      fields.withDefault name reread fallback = some b := by
  have hecho : (print b).Within room ∧ reread (m.display (print b)) = some b := by
    rcases Fields.withDefault_eq_some.mp hr with ⟨-, rfl⟩ | ⟨a, ha, hread⟩
    · exact ⟨hfits, hagain⟩
    · have hecho := h (hs _ (Fields.mem_of_single? ha)) hread hok
      exact ⟨hecho.fits, hecho.again⟩
  refine answers_row (fun v hv => ?_) fun fields hf => ?_
  · cases hv
    exact hecho.1
  · exact Fields.withDefault_eq_some.mpr (.inr ⟨_, hf, hecho.2⟩)

theorem answers_list {bs : List β}
    (hr : fields.withDefault name (fun a => (m.items? a).bind fun items => items.mapM read) [] =
      some bs) (hok : ∀ b ∈ bs, ok b) :
    m.Answers room [(name, Json.arrayIfAny (bs.map print))] fun fields =>
      fields.withDefault name (fun a => (m.items? a).bind fun items => items.mapM reread) [] =
        some bs := by
  refine answers_withDefault hs (echoes_list h) hr hok ?_
  cases bs with
  | nil => exact .inl ⟨rfl, rfl⟩
  | cons b rest => exact .inr ⟨rfl, List.cons_ne_nil _ _⟩

theorem answers_entries {entries : Entries β}
    (hr : fields.withDefault name (fun a => (m.members? a).bind (readEntries read)) [] =
      some entries) (hok : ∀ e ∈ entries, ok e.2) :
    m.Answers room [(name, Json.objectIfAny (membersOf print entries))] fun fields =>
      fields.withDefault name (fun a => (m.members? a).bind (readEntries reread)) [] =
        some entries := by
  refine answers_withDefault hs (echoes_entries h) hr hok ?_
  cases entries with
  | nil => exact .inl ⟨rfl, rfl⟩
  | cons e rest => exact .inr ⟨rfl, List.cons_ne_nil _ _⟩

end

section
variable {P : Fields α → Prop}

/-- A record without further members, printed and met again. -/
theorem Answers.record (table : Table) (h : m.Answers left table P) (hnames : table.names.Nodup) :
    (Json.object table.members).Within (left + 1) ∧ P (m.order.lay m.display table.members) := by
  have hkeys : (Entries.keys table.members).Nodup := hnames.sublist table.keys_members_sublist
  refine ⟨.object fun member hm => h.fits (Table.mem_members.mp hm), h.again fun row hrow => ?_⟩
  have hnone : (Entries.keys ([] : List (String × Json))).Nodup := List.nodup_nil
  have hget := Table.get?_members hnames hnone (by simp [Entries.keys]) hrow
  rw [List.append_nil] at hget
  rw [Fields.single?_of_nodup (Order.keys_lay_nodup hkeys), Order.get?_lay hkeys, hget]

/-- The keys of the members that are not declared. -/
theorem keys_others (fields : Fields α) (declared : List String) :
    (Entries.keys (fields.others declared)).eraseDups =
      (Entries.keys fields).eraseDups.filter fun name => !declared.contains name := by
  rw [Entries.filter_eraseDups]
  simp [Fields.others, Entries.keys, List.filter_map, Function.comp_def]

/-- A record with its further members, printed and met again. -/
theorem Answers.extended (table : Table) (h : m.Answers left table P) (hnames : table.names.Nodup)
    {each : α → Option Json} (heach : m.Echoes each each id fun _ => True)
    {fields : Fields α} {ext : Entries Json} (hs : ∀ field ∈ fields, m.holds left field.2)
    (hsettles : m.order.Settles (Entries.keys fields).eraseDups)
    (hr : readEntries each (fields.others table.names) = some ext) :
    (Json.object (table.members ++ ext)).Within (left + 1) ∧
      P (m.order.lay m.display (table.members ++ ext)) ∧
      readEntries each (Fields.others (m.order.lay m.display (table.members ++ ext)) table.names) =
        some ext := by
  have hothers : ∀ field ∈ fields.others table.names, m.holds left field.2 :=
    fun field hm => hs field (List.mem_filter.mp hm).1
  obtain ⟨hfits, hagain⟩ := echo_readEntries hothers hr heach fun _ _ => trivial
  have hid : membersOf id ext = ext := by simp [membersOf]
  rw [hid] at hfits hagain
  have hkeys : Entries.keys ext =
      (Entries.keys fields).eraseDups.filter fun name => !table.names.contains name := by
    rw [keys_readEntries hr, keys_others]
  have hext : m.order.Settles (Entries.keys ext) := hkeys ▸ hsettles.filter _
  have hdisjoint : ∀ name ∈ Entries.keys ext, name ∉ table.names := by
    intro name hm
    rw [hkeys] at hm
    simpa using (List.mem_filter.mp hm).2
  have hnodup := Table.nodup_keys hnames hext.nodup hdisjoint
  refine ⟨.object fun member hm => ?_, h.again fun row hrow => ?_, ?_⟩
  · exact (List.mem_append.mp hm).elim (fun hm => h.fits (Table.mem_members.mp hm)) (hfits member)
  · rw [Fields.single?_of_nodup (Order.keys_lay_nodup hnodup), Order.get?_lay hnodup,
      Table.get?_members hnames hext.nodup hdisjoint hrow]
  · have hkept : (table.members ++ ext).filter (fun e => !table.names.contains e.1) = ext := by
      rw [List.filter_append]
      have hnone : table.members.filter (fun e => !table.names.contains e.1) = [] :=
        List.filter_eq_nil_iff.mpr fun e he => by
          simpa using table.keys_members_sublist.subset (List.mem_map_of_mem he)
      rw [hnone, List.nil_append, List.filter_eq_self]
      intro e he
      simpa using hdisjoint e.1 (List.mem_map_of_mem he)
    have hlay : Fields.others (m.order.lay m.display (table.members ++ ext)) table.names =
        ext.map fun (key, v) => (key, m.display v) := by
      rw [Fields.others, Order.lay, List.filter_map]
      have hfilter := m.order.filter_arrange (fun name => !table.names.contains name) hnodup
      rw [hkept, hext.arrange] at hfilter
      exact congrArg (List.map _) hfilter
    rw [hlay, hagain]

end

end Medium

namespace Medium

/-- The nodes of a text. -/
def nodes : Medium Node where
  order := .written
  display := Json.node
  holds room node := node.OfJson room
  members? := Node.members?
  fields? := Node.fields?
  items? := Node.items?
  absent? := Node.absent?
  members_display := Json.members?_node
  fields_display _ := Json.members?_node
  items_display := Json.items?_node
  absent_display := Json.absent?_node
  of_members h hm := ⟨Entries.nodup_eraseDups _, h.of_members? hm⟩
  of_fields h hf := h.of_fields? hf
  of_items h hi := h.of_items? hi

/-- Values settled by a text, their members in an order. -/
def values (order : Order) : Medium Datum where
  order := order
  display v := (v.arranged order).datum
  holds room a := ∃ v : Json, v.Within room ∧ a = (v.arranged order).datum
  members? := Datum.members?
  fields? := Datum.fields?
  items? := Datum.items?
  absent? := Datum.absent?
  members_display members := by
    rw [Json.arranged_object, Json.members?_datum, List.map_map]
    rfl
  fields_display declared members := by
    rw [Json.arranged_object, Json.fields?_datum, List.map_map]
    rfl
  items_display items := by
    rw [Json.arranged_array, Json.items?_datum, List.map_map]
    rfl
  absent_display v := by rw [Json.absent?_datum, Json.isNull_arranged]
  of_members := by
    rintro room _ members ⟨v, hv, rfl⟩ hm
    obtain ⟨ms, rfl, rfl⟩ := Json.members_arranged hm
    cases hv with
    | @object left _ each =>
    refine ⟨?_, left, rfl, List.forall_mem_map.mpr fun m hmem =>
      ⟨m.2, each m (Order.mem_of_mem_arrange hmem), rfl⟩⟩
    rw [Entries.keys_map fun v => (Json.arranged order v).datum]
    exact order.settles_eraseDups ms
  of_fields := by
    rintro room declared _ fields ⟨v, hv, rfl⟩ hf
    rcases Json.of_fields? hf with ⟨items, hi⟩ | ⟨pairs, hp⟩
    · obtain ⟨vs, rfl, rfl⟩ := Json.exists_of_arranged_array hi
      cases hv with
      | @array left _ each =>
      rw [hi, Json.datum, Datum.fields?, Json.dataOf_eq] at hf
      refine ⟨left, rfl, fun field hm => ?_⟩
      obtain ⟨w, hw, he⟩ := List.mem_map.mp (Fields.mem_of_ofPositions? hf field hm)
      obtain ⟨v, hv, rfl⟩ := List.mem_map.mp hw
      exact ⟨v, each v hv, he.symm⟩
    · obtain ⟨ms, rfl, rfl⟩ := Json.exists_of_arranged_object hp
      cases hv with
      | @object left _ each =>
      rw [hp, Json.fields?_datum, Option.some.injEq, List.map_map] at hf
      subst hf
      exact ⟨left, rfl, List.forall_mem_map.mpr fun m hmem =>
        ⟨m.2, each m (Order.mem_of_mem_arrange hmem), rfl⟩⟩
  of_items := by
    rintro room _ items ⟨v, hv, rfl⟩ hi
    obtain ⟨vs, rfl, rfl⟩ := Json.items_arranged hi
    cases hv with
    | @array left _ each =>
    exact ⟨left, rfl, List.forall_mem_map.mpr fun v hv => ⟨v, each v hv, rfl⟩⟩

theorem nodes_display (v : Json) : nodes.display v = v.node := rfl

theorem values_display (order : Order) (v : Json) :
    (values order).display v = (v.arranged order).datum := rfl

end Medium

end ApiAtlas
