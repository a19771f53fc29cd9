import ApiAtlas.Proofs.EntryOrder
import ApiAtlas.Route.Tree

namespace ApiAtlas

variable {α : Type} {key : α → List String} {items : List α} {item : α}
  {path rest segments : List String} {segment : String}

namespace Group

variable {groups : List (Group α)} {group : Group α}

@[simp] theorem name_mk (segment : String) (items : List α) (nested : List (Group α)) :
    (mk segment items nested).name = segment := rfl

@[simp] theorem items_mk (segment : String) (items : List α) (nested : List (Group α)) :
    (mk segment items nested).items = items := rfl

@[simp] theorem nested_mk (segment : String) (items : List α) (nested : List (Group α)) :
    (mk segment items nested).nested = nested := rfl

/-- The segment after a path. -/
def nextSegment? (path segments : List String) : Option String :=
  if path <+: segments then segments[path.length]? else none

/-- The segments that come next after a path in the keys of some items, in order of first
occurrence. -/
def following (key : α → List String) (items : List α) (path : List String) : List String :=
  (items.filterMap fun item => nextSegment? path (key item)).eraseDups

/-- The groups are those of some items below a path. -/
inductive Reflects (key : α → List String) (items : List α) :
    List String → List (Group α) → Prop
  | intro {path : List String} {groups : List (Group α)}
    (names : groups.map name = following key items path)
    (own : ∀ group ∈ groups, group.items = items.filter (key · = path ++ [group.name]))
    (nested : ∀ group ∈ groups, Reflects key items (path ++ [group.name]) group.nested) :
    Reflects key items path groups

theorem nextSegment?_eq_some :
    nextSegment? path segments = some segment ↔ path ++ [segment] <+: segments := by
  unfold nextSegment?
  split
  next h =>
    obtain ⟨rest, rfl⟩ := h
    rw [List.prefix_append_right_inj, List.getElem?_append_right (Nat.le_refl _), Nat.sub_self]
    cases rest with
    | nil => simp
    | cons first rest => simp [eq_comm]
  next h => simpa using fun hp => h ((List.prefix_append _ _).trans hp)

theorem nextSegment?_append :
    nextSegment? path (path ++ segment :: rest) = some segment :=
  nextSegment?_eq_some.mpr ((List.prefix_append_right_inj _).mpr ⟨rest, rfl⟩)

theorem mem_following : segment ∈ following key items path ↔
    ∃ item ∈ items, path ++ [segment] <+: key item := by
  simp only [following, List.mem_eraseDups, List.mem_filterMap, nextSegment?_eq_some]

theorem nodup_following (key : α → List String) (items : List α) (path : List String) :
    (following key items path).Nodup :=
  Entries.nodup_eraseDups _

theorem following_skip (hn : ∀ segment, ¬ path ++ [segment] <+: key item) :
    following key (items ++ [item]) path = following key items path := by
  have hnone : nextSegment? path (key item) = none :=
    Option.eq_none_iff_forall_ne_some.mpr fun segment hs => hn segment (nextSegment?_eq_some.mp hs)
  simp [following, hnone]

/-- A key that goes on from a path adds its next segment, if it is a new one. -/
theorem following_place (hkey : key item = path ++ segment :: rest) :
    following key (items ++ [item]) path =
      if segment ∈ following key items path then following key items path
      else following key items path ++ [segment] := by
  have hsome : nextSegment? path (key item) = some segment := hkey ▸ nextSegment?_append
  simp only [following, List.filterMap_append, List.filterMap_cons, hsome, List.filterMap_nil,
    Entries.eraseDups_concat, List.mem_eraseDups]

theorem Reflects.names (h : Reflects key items path groups) :
    groups.map name = following key items path := by
  cases h with
  | intro names => exact names

theorem Reflects.nodup (h : Reflects key items path groups) : (groups.map name).Nodup :=
  h.names ▸ nodup_following key items path

theorem reflects_nil (hn : ∀ item ∈ items, ¬ path <+: key item) : Reflects key items path [] := by
  refine .intro (Eq.symm ?_) (by simp) (by simp)
  refine List.eq_nil_iff_forall_not_mem.mpr fun segment hs => ?_
  obtain ⟨item, hm, hp⟩ := mem_following.mp hs
  exact hn item hm ((List.prefix_append _ _).trans hp)

/-- An item whose key does not go on from a path changes nothing below it. -/
theorem Reflects.skip (h : Reflects key items path groups)
    (hn : ∀ segment, ¬ path ++ [segment] <+: key item) :
    Reflects key (items ++ [item]) path groups := by
  induction h with
  | @intro path groups names own nested ih =>
    refine .intro (names.trans (following_skip hn).symm) (fun group hm => ?_) fun group hm => ?_
    · have hne : key item ≠ path ++ [group.name] := fun he =>
        hn group.name (he ▸ List.prefix_refl _)
      simp [own group hm, List.filter_append, hne]
    · exact ih group hm fun segment hp => hn group.name ((List.prefix_append _ _).trans hp)

theorem map_name_updateNamed {change : Group α → Group α}
    (hc : ∀ group : Group α, (change group).name = group.name) (groups : List (Group α)) :
    (updateNamed segment change groups).map name =
      if segment ∈ groups.map name then groups.map name else groups.map name ++ [segment] := by
  induction groups with
  | nil =>
    simp [updateNamed, hc]
  | cons group rest ih =>
    rw [updateNamed]
    split
    next he => simp [hc, he]
    next he =>
      rw [List.map_cons, ih]
      by_cases hm : segment ∈ rest.map name <;> simp [hm, Ne.symm he]

/-- Each group after a change is an old one of another name, or the changed one, which was empty
before if there was none of that name. -/
theorem mem_updateNamed {change : Group α → Group α} (hnodup : (groups.map name).Nodup)
    (hm : group ∈ updateNamed segment change groups) :
    group ∈ groups ∧ group.name ≠ segment ∨
      ∃ old, group = change old ∧ (old ∈ groups ∧ old.name = segment ∨
        segment ∉ groups.map name ∧ old = .mk segment [] []) := by
  induction groups with
  | nil =>
    rw [updateNamed, List.mem_singleton] at hm
    exact .inr ⟨_, hm, .inr ⟨by simp, rfl⟩⟩
  | cons first others ih =>
    obtain ⟨hfirst, hothers⟩ := List.nodup_cons.mp hnodup
    rw [updateNamed] at hm
    split at hm
    next he =>
      rcases List.mem_cons.mp hm with rfl | hm
      · exact .inr ⟨first, rfl, .inl ⟨List.mem_cons_self, he⟩⟩
      · refine .inl ⟨List.mem_cons_of_mem _ hm, fun hs => hfirst ?_⟩
        exact List.mem_map.mpr ⟨group, hm, hs.trans he.symm⟩
    next he =>
      rcases List.mem_cons.mp hm with rfl | hm
      · exact .inl ⟨List.mem_cons_self, he⟩
      · rcases ih hothers hm with ⟨hold, hs⟩ | ⟨old, hg, ⟨hold, hs⟩ | ⟨hnew, hold⟩⟩
        · exact .inl ⟨List.mem_cons_of_mem _ hold, hs⟩
        · exact .inr ⟨old, hg, .inl ⟨List.mem_cons_of_mem _ hold, hs⟩⟩
        · refine .inr ⟨old, hg, .inr ⟨?_, hold⟩⟩
          simpa [Ne.symm he] using hnew

theorem place_cons (item : α) (segment : String) (rest : List String) (groups : List (Group α)) :
    place item (segment :: rest) groups = updateNamed segment (fun group =>
      .mk group.name (if rest = [] then group.items ++ [item] else group.items)
        (place item rest group.nested)) groups := by
  cases rest with
  | nil => simp [place]
  | cons next rest => simp [place]

/-- What a next item changes is right for the items before, also where it is not there yet. -/
theorem Reflects.known_or_new {old : Group α} {segment : String}
    (h : Reflects key items path groups)
    (ho : old ∈ groups ∧ old.name = segment ∨ segment ∉ groups.map name ∧ old = .mk segment [] []) :
    old.name = segment ∧ old.items = items.filter (key · = path ++ [segment]) ∧
      Reflects key items (path ++ [segment]) old.nested := by
  obtain ⟨names, own, nested⟩ := h
  rcases ho with ⟨hm, rfl⟩ | ⟨hnew, rfl⟩
  · exact ⟨rfl, own old hm, nested old hm⟩
  · have hnone : ∀ other ∈ items, ¬ path ++ [segment] <+: key other := fun other hm hp =>
      hnew (names ▸ mem_following.mpr ⟨other, hm, hp⟩)
    refine ⟨rfl, Eq.symm ?_, reflects_nil hnone⟩
    refine List.filter_eq_nil_iff.mpr fun other hm => ?_
    have hne : key other ≠ path ++ [segment] := fun he =>
      hnone other hm (he ▸ List.prefix_refl _)
    simpa using hne

/-- An item that is put where its key leads below a path is one of the items there. -/
theorem Reflects.place (hkey : key item = path ++ rest) (hrest : rest ≠ [])
    (h : Reflects key items path groups) :
    Reflects key (items ++ [item]) path (Group.place item rest groups) := by
  induction rest generalizing path groups with
  | nil => exact absurd rfl hrest
  | cons segment rest ih =>
    have hbefore := h
    obtain ⟨names, own, nested⟩ := h
    have hnodup : (groups.map name).Nodup := names ▸ nodup_following key items path
    have hnext : key item = (path ++ [segment]) ++ rest := by simp [hkey]
    rw [place_cons]
    refine .intro ?_ (fun group hm => ?_) fun group hm => ?_
    · rw [map_name_updateNamed (fun group => name_mk _ _ _), names, following_place hkey]
    · rcases mem_updateNamed hnodup hm with ⟨hm, hne⟩ | ⟨old, rfl, ho⟩
      · have hkeys : key item ≠ path ++ [group.name] := by
          rw [hkey]
          simpa using fun he _ => hne he.symm
        simp [own group hm, List.filter_append, hkeys]
      · obtain ⟨hname, hitems, -⟩ := hbefore.known_or_new ho
        simp only [items_mk, name_mk, hname, hitems, List.filter_append]
        split
        next hr => simp [hkey, hr]
        next hr => simp [hkey, hr]
    · rcases mem_updateNamed hnodup hm with ⟨hm, hne⟩ | ⟨old, rfl, ho⟩
      · refine (nested group hm).skip fun other hp => hne ?_
        rw [hkey, List.append_assoc, List.prefix_append_right_inj] at hp
        exact (List.cons_prefix_cons.mp hp).1
      · obtain ⟨hname, -, hnested⟩ := hbefore.known_or_new ho
        simp only [nested_mk, name_mk, hname]
        cases rest with
        | nil =>
          refine hnested.skip fun other hp => ?_
          have hlength := hp.length_le
          simp [hnext] at hlength
        | cons next rest => exact ih hnext (List.cons_ne_nil _ _) hnested

theorem descend?_cons (segment : String) (rest : List String) (groups : List (Group α)) :
    descend? (segment :: rest) groups = (named? segment groups).bind fun group =>
      if rest = [] then some group else descend? rest group.nested := by
  cases rest with
  | nil => simp [descend?]
  | cons next rest => simp [descend?]

theorem named?_eq_some (hnodup : (groups.map name).Nodup) :
    named? segment groups = some group ↔ group ∈ groups ∧ group.name = segment := by
  unfold named?
  constructor
  · intro h
    exact ⟨List.mem_of_find?_eq_some h, by simpa using List.find?_some h⟩
  · rintro ⟨hm, rfl⟩
    induction groups with
    | nil => simp at hm
    | cons first others ih =>
      obtain ⟨hfirst, hothers⟩ := List.nodup_cons.mp hnodup
      rcases List.mem_cons.mp hm with rfl | hm
      · simp
      · have hne : first.name ≠ group.name := fun he =>
          hfirst (he ▸ List.mem_map_of_mem hm)
        rw [List.find?_cons_of_neg (by simpa using hne)]
        exact ih hothers hm

/-- A path leads to a group where some key goes on along it, and there to the items of that key and
the segments that come next. -/
theorem Reflects.descend? (h : Reflects key items path groups) (hrest : rest ≠ []) :
    (Group.descend? rest groups).map (fun group => (group.items, group.nested.map name)) =
      if ∃ item ∈ items, path ++ rest <+: key item then
        some (items.filter (key · = path ++ rest), following key items (path ++ rest))
      else none := by
  induction rest generalizing path groups with
  | nil => exact absurd rfl hrest
  | cons segment rest ih =>
    have hnodup := h.nodup
    obtain ⟨names, own, nested⟩ := h
    have happend : path ++ segment :: rest = (path ++ [segment]) ++ rest := by simp
    rw [descend?_cons]
    cases hg : named? segment groups with
    | none =>
      have hnone : ¬ ∃ item ∈ items, path ++ segment :: rest <+: key item := by
        rintro ⟨item, hm, hp⟩
        have hnext : path ++ [segment] <+: key item :=
          (List.prefix_append _ rest).trans (happend ▸ hp)
        have hname : segment ∈ groups.map name := names ▸ mem_following.mpr ⟨item, hm, hnext⟩
        obtain ⟨group, hgroup, rfl⟩ := List.mem_map.mp hname
        have hsome := (named?_eq_some hnodup).mpr ⟨hgroup, rfl⟩
        rw [hg] at hsome
        cases hsome
      rw [if_neg hnone]
      rfl
    | some group =>
      obtain ⟨hm, rfl⟩ := (named?_eq_some hnodup).mp hg
      have hnested := nested group hm
      cases rest with
      | nil =>
        have hsome : ∃ item ∈ items, path ++ [group.name] <+: key item :=
          mem_following.mp (names ▸ List.mem_map_of_mem hm)
        simp [hsome, own group hm, hnested.names]
      | cons next rest =>
        have hbelow := ih hnested (List.cons_ne_nil next rest)
        rw [happend]
        simpa using hbelow

theorem all_eq (group : Group α) : group.all = group.items ++ allOf group.nested := by
  cases group
  rw [all]
  rfl

theorem all_subset_allOf (hm : group ∈ groups) : group.all ⊆ allOf groups := by
  induction groups with
  | nil => simp at hm
  | cons first others ih =>
    rw [allOf]
    rcases List.mem_cons.mp hm with rfl | hm
    · exact List.subset_append_left _ _
    · exact List.Subset.trans (ih hm) (List.subset_append_right _ _)

/-- An item whose key goes on along the path of a group stands in the group or below it. -/
theorem Reflects.mem_all (h : Reflects key items path groups) (hg : group ∈ groups)
    (hm : item ∈ items) (hkey : key item = path ++ group.name :: rest) : item ∈ group.all := by
  induction rest generalizing path groups group with
  | nil =>
    obtain ⟨-, own, -⟩ := h
    rw [all_eq, own group hg]
    exact List.mem_append_left _ (List.mem_filter.mpr ⟨hm, by simpa using hkey⟩)
  | cons next rest ih =>
    obtain ⟨-, -, nested⟩ := h
    have hbelow := nested group hg
    have hnext : key item = (path ++ [group.name]) ++ next :: rest := by simp [hkey]
    have hgoes : (path ++ [group.name]) ++ [next] <+: key item :=
      hnext ▸ (List.prefix_append_right_inj _).mpr ⟨rest, rfl⟩
    have hname : next ∈ group.nested.map name :=
      hbelow.names ▸ mem_following.mpr ⟨item, hm, hgoes⟩
    obtain ⟨inner, hinner, rfl⟩ := List.mem_map.mp hname
    have hitem : item ∈ inner.all := ih hbelow hinner hnext
    rw [all_eq]
    exact List.mem_append_right _ (all_subset_allOf hinner hitem)

/-- A group stands at the end of a path below some groups. -/
inductive Leads : List (Group α) → List String → Group α → Prop
  | here {groups : List (Group α)} {group : Group α} (mem : group ∈ groups) :
    Leads groups [group.name] group
  | further {groups : List (Group α)} {group target : Group α} {path : List String}
    (mem : group ∈ groups) (leads : Leads group.nested path target) :
    Leads groups (group.name :: path) target

theorem Leads.ne_nil (h : Leads groups path group) : path ≠ [] := by
  cases h <;> simp

/-- Each group is the one that its path leads to, and has an item in it or below it. -/
theorem Reflects.leads (h : Reflects key items path groups) (hl : Leads groups rest group) :
    Group.descend? rest groups = some group ∧
      ∃ item ∈ group.all, item ∈ items ∧ path ++ rest <+: key item := by
  induction hl generalizing path with
  | @here groups group mem =>
    have hg := (named?_eq_some h.nodup).mpr ⟨mem, rfl⟩
    have hname : group.name ∈ following key items path := h.names ▸ List.mem_map_of_mem mem
    obtain ⟨item, hm, hp⟩ := mem_following.mp hname
    obtain ⟨later, hkey⟩ := hp
    have hall : item ∈ group.all := h.mem_all mem hm (by simpa using hkey.symm)
    exact ⟨hg, item, hall, hm, later, hkey⟩
  | @further groups group target rest mem leads ih =>
    have hg := (named?_eq_some h.nodup).mpr ⟨mem, rfl⟩
    obtain ⟨-, -, nested⟩ := h
    obtain ⟨hd, item, hall, hm, hp⟩ := ih (nested group mem)
    refine ⟨?_, item, hall, hm, by simpa using hp⟩
    rw [descend?_cons, hg, Option.bind_some, if_neg leads.ne_nil]
    exact hd

end Group

namespace Root

variable {root : Root α}

/-- The items and the groups at a path: those of the root, or of the group that it leads to. -/
def at? (root : Root α) : List String → Option (List α × List (Group α))
  | [] => some (root.items, root.groups)
  | segment :: rest =>
    (Group.descend? (segment :: rest) root.groups).map fun group => (group.items, group.nested)

/-- The tree is that of some items. -/
structure Reflects (key : α → List String) (items : List α) (root : Root α) : Prop where
  own : root.items = items.filter (key · = [])
  groups : Group.Reflects key items [] root.groups

theorem Reflects.place (h : root.Reflects key items) (item : α) :
    (root.place key item).Reflects key (items ++ [item]) := by
  unfold Root.place
  split
  next hk =>
    refine ⟨by simp [h.own, hk], h.groups.skip fun segment hp => ?_⟩
    simp [hk] at hp
  next hk =>
    have hne : key item ≠ [] := hk
    exact ⟨by simp [h.own, hne], h.groups.place (List.nil_append _).symm hne⟩

theorem Reflects.foldl_place (rest : List α) : ∀ {items : List α} {root : Root α},
    root.Reflects key items → (rest.foldl (Root.place key) root).Reflects key (items ++ rest) := by
  induction rest with
  | nil =>
    intro items root h
    simpa using h
  | cons item rest ih =>
    intro items root h
    simpa using ih (h.place item)

theorem reflects_build (name : String) (key : α → List String) (items : List α) :
    (build name key items).Reflects key items := by
  have hempty : (⟨name, [], []⟩ : Root α).Reflects key [] :=
    ⟨rfl, Group.reflects_nil (by simp)⟩
  unfold build
  simpa using hempty.foldl_place items

theorem Reflects.at? (h : root.Reflects key items) (path : List String) :
    (root.at? path).map (fun here => (here.1, here.2.map Group.name)) =
      if path = [] ∨ ∃ item ∈ items, path <+: key item then
        some (items.filter (key · = path), Group.following key items path)
      else none := by
  cases path with
  | nil => simp [Root.at?, h.own, h.groups.names]
  | cons segment rest =>
    have hd := h.groups.descend? (List.cons_ne_nil segment rest)
    rw [Root.at?, Option.map_map]
    simpa [Function.comp_def] using hd

theorem Reflects.nodup (h : root.Reflects key items) {here : List α × List (Group α)}
    (ha : root.at? path = some here) : (here.2.map Group.name).Nodup := by
  have hshape := h.at? path
  rw [ha, Option.map_some] at hshape
  split at hshape
  next =>
    have hnames : here.2.map Group.name = Group.following key items path :=
      (Prod.mk.inj (Option.some.inj hshape)).2
    exact hnames ▸ Group.nodup_following key items path
  next => cases hshape

theorem Reflects.leads (h : root.Reflects key items) {group : Group α}
    (hl : Group.Leads root.groups path group) :
    root.at? path = some (group.items, group.nested) ∧
      ∃ item ∈ group.all, item ∈ items ∧ path <+: key item := by
  obtain ⟨hd, hitem⟩ := h.groups.leads hl
  refine ⟨?_, hitem⟩
  cases path with
  | nil => exact absurd rfl hl.ne_nil
  | cons segment rest => rw [Root.at?, hd, Option.map_some]

end Root

/-- The tree of some routes at every path, where the key of a route is the literal segments of its
path down to the deepest level of groups. The path leads to a group just where it is the beginning
of some key; there stand the routes of that key as they came, and below it a group for each
segment that comes next in a key, in order of first occurrence. So groups beside each other have
different names, and each group of the tree is found along its path, has some route in it or below
it, and stands no deeper than the settings allow. -/
theorem RouteSettings.tree_at? (settings : RouteSettings) (name : String) (routes : List Route) :
    let key (route : Route) := (literalSegments route.path).take settings.maxDepth
    (∀ path, ((settings.tree name routes).at? path).map
        (fun here => (here.1, here.2.map Group.name)) =
      if path = [] ∨ ∃ route ∈ routes, path <+: key route then
        some (routes.filter (fun route => key route = path), Group.following key routes path)
      else none) ∧
    (∀ path here, (settings.tree name routes).at? path = some here →
      (here.2.map Group.name).Nodup) ∧
    ∀ path group, Group.Leads (settings.tree name routes).groups path group →
      (settings.tree name routes).at? path = some (group.items, group.nested) ∧
        group.all ≠ [] ∧ path.length ≤ settings.maxDepth := by
  intro key
  have hreflects : (settings.tree name routes).Reflects key routes :=
    Root.reflects_build name key routes
  refine ⟨hreflects.at?, fun path here ha => hreflects.nodup ha, fun path group hl => ?_⟩
  obtain ⟨ha, route, hall, -, hp⟩ := hreflects.leads hl
  have hlength := hp.length_le
  have hkey : (key route).length ≤ settings.maxDepth := List.length_take_le _ _
  exact ⟨ha, List.ne_nil_of_mem hall, hlength.trans hkey⟩

/-- Routes with a parameter between segments, and with a path that goes deeper than two groups. -/
def fileRoutes : List Route :=
  [⟨"readRaw", .get, "/files/\x7bid\x7d/content/raw", none, none, [], false, {}, [], {}, []⟩,
    ⟨"listFiles", .get, "/files", none, none, [], false, {}, [], {}, []⟩,
    ⟨"readContent", .get, "/files/\x7bid\x7d/content", none, none, [], false, {}, [], {}, []⟩,
    ⟨"ping", .get, "/", none, none, [], false, {}, [], {}, []⟩]

/-- Two levels of groups: the parameter makes no group, and what would stand deeper than `content`
stands in it. -/
theorem RouteSettings.tree_at?_files :
    let root := ({ maxDepth := 2 } : RouteSettings).tree "Files" fileRoutes
    let operations (path : List String) := (root.at? path).map fun here =>
      (here.1.map Route.operationId, here.2.map Group.name)
    operations [] = some (["ping"], ["files"]) ∧
      operations ["files"] = some (["listFiles"], ["content"]) ∧
      operations ["files", "content"] = some (["readRaw", "readContent"], []) ∧
      operations ["files", "content", "raw"] = none := by
  intro root operations
  have hat := (tree_at? { maxDepth := 2 } "Files" fileRoutes).1
  have hoperations (path : List String) : operations path =
      ((root.at? path).map fun here => (here.1, here.2.map Group.name)).map
        fun here => (here.1.map Route.operationId, here.2) := by
    simp [operations, Option.map_map, Function.comp_def]
  simp only [hoperations, root, hat]
  decide

end ApiAtlas
