import ApiAtlas.Proofs.RouteTreeItems
import ApiAtlas.Proofs.RouteTreeShape

namespace ApiAtlas

variable {α : Type} {key : α → List String} {items : List α} {item : α}
  {path : List String} {segment : String}

namespace Group

variable {groups before : List (Group α)} {group : Group α}

/-- Put an item below some groups that stand at a path, where its key goes on from there. -/
def placeFrom (key : α → List String) (path : List String) (groups : List (Group α)) (item : α) :
    List (Group α) :=
  place item ((key item).drop path.length) groups

/-- Put an item into a group that stands at a path, where its key goes on from there. -/
def putFrom (key : α → List String) (path : List String) (group : Group α) (item : α) : Group α :=
  .mk group.name (if key item = path then group.items ++ [item] else group.items)
    (placeFrom key path group.nested item)

theorem mk_eta (group : Group α) : mk group.name group.items group.nested = group := by
  cases group
  rfl

theorem mem_allOf : item ∈ allOf groups ↔ ∃ group ∈ groups, item ∈ group.all := by
  induction groups with
  | nil => simp [allOf]
  | cons first rest ih => simp [allOf, ih]

theorem updateNamed_of_not_mem {change : Group α → Group α} (h : segment ∉ before.map name) :
    updateNamed segment change before = before ++ [change (.mk segment [] [])] := by
  induction before with
  | nil => rfl
  | cons first rest ih =>
    rw [List.map_cons, List.mem_cons, not_or] at h
    rw [updateNamed, if_neg (Ne.symm h.1), ih h.2, List.cons_append]

theorem updateNamed_concat {change : Group α → Group α} (h : group.name ∉ before.map name) :
    updateNamed group.name change (before ++ [group]) = before ++ [change group] := by
  induction before with
  | nil => simp [updateNamed]
  | cons first rest ih =>
    rw [List.map_cons, List.mem_cons, not_or] at h
    rw [List.cons_append, updateNamed, if_neg (Ne.symm h.1), ih h.2, List.cons_append]

/-- An item goes into the group that its key names next. -/
theorem placeFrom_eq (h : path ++ [segment] <+: key item) (groups : List (Group α)) :
    placeFrom key path groups item =
      updateNamed segment (putFrom key (path ++ [segment]) · item) groups := by
  obtain ⟨rest, hkey⟩ := h
  have hdrop : (key item).drop path.length = segment :: rest := by simp [← hkey]
  have hnext : (key item).drop (path ++ [segment]).length = rest := by rw [← hkey, List.drop_left]
  have hown : key item = path ++ [segment] ↔ rest = [] := by simp [← hkey]
  simp only [placeFrom, putFrom, hdrop, hnext, hown, place_cons]

/-- Items of the last group go into it one after the other. -/
theorem foldl_placeFrom_concat (hnew : group.name ∉ before.map name)
    (h : ∀ item ∈ items, path ++ [group.name] <+: key item) :
    items.foldl (placeFrom key path) (before ++ [group]) =
      before ++ [items.foldl (putFrom key (path ++ [group.name])) group] := by
  induction items generalizing group with
  | nil => rfl
  | cons item rest ih =>
    obtain ⟨hitem, hrest⟩ := List.forall_mem_cons.mp h
    rw [List.foldl_cons, List.foldl_cons, placeFrom_eq hitem, updateNamed_concat hnew]
    have hname : (putFrom key (path ++ [group.name]) group item).name = group.name := rfl
    exact ih (hname ▸ hnew) (hname ▸ hrest)

/-- The first item of a new group begins it. -/
theorem foldl_placeFrom_new (hnew : segment ∉ before.map name) (hne : items ≠ [])
    (h : ∀ item ∈ items, path ++ [segment] <+: key item) :
    items.foldl (placeFrom key path) before =
      before ++ [items.foldl (putFrom key (path ++ [segment])) (.mk segment [] [])] := by
  cases items with
  | nil => exact absurd rfl hne
  | cons item rest =>
    obtain ⟨hitem, hrest⟩ := List.forall_mem_cons.mp h
    rw [List.foldl_cons, List.foldl_cons, placeFrom_eq hitem, updateNamed_of_not_mem hnew]
    exact foldl_placeFrom_concat hnew hrest

theorem foldl_putFrom_own (h : ∀ item ∈ items, key item = path) (own : List α) :
    items.foldl (putFrom key path) (.mk segment own groups) =
      .mk segment (own ++ items) groups := by
  induction items generalizing own with
  | nil => simp
  | cons item rest ih =>
    obtain ⟨hitem, hrest⟩ := List.forall_mem_cons.mp h
    have hput : putFrom key path (.mk segment own groups) item =
        .mk segment (own ++ [item]) groups := by
      simp [putFrom, placeFrom, hitem, place]
    rw [List.foldl_cons, hput, ih hrest, List.append_assoc, List.singleton_append]

theorem foldl_putFrom_below (h : ∀ item ∈ items, key item ≠ path) (own : List α) :
    items.foldl (putFrom key path) (.mk segment own groups) =
      .mk segment own (items.foldl (placeFrom key path) groups) := by
  induction items generalizing groups with
  | nil => rfl
  | cons item rest ih =>
    obtain ⟨hitem, hrest⟩ := List.forall_mem_cons.mp h
    have hput : putFrom key path (.mk segment own groups) item =
        .mk segment own (placeFrom key path groups item) := by
      simp [putFrom, hitem]
    rw [List.foldl_cons, hput, ih hrest, List.foldl_cons]

/-- The own items of a group and those below it make it again. -/
theorem foldl_putFrom_all (segment : String) (hown : ∀ item ∈ items, key item = path)
    (hbelow : ∀ item ∈ allOf groups, key item ≠ path)
    (hgroups : (allOf groups).foldl (placeFrom key path) [] = groups) :
    (items ++ allOf groups).foldl (putFrom key path) (.mk segment [] []) =
      .mk segment items groups := by
  rw [List.foldl_append, foldl_putFrom_own hown, foldl_putFrom_below hbelow, hgroups,
    List.nil_append]

/-- A group below a path has items, and these make it again. -/
structure Remade (key : α → List String) (path : List String) (group : Group α) : Prop where
  ne_nil : group.all ≠ []
  below : ∀ item ∈ group.all, path ++ [group.name] <+: key item
  again : group.all.foldl (putFrom key (path ++ [group.name])) (.mk group.name [] []) = group

theorem foldl_placeFrom_allOf (h : ∀ group ∈ groups, Remade key path group)
    (hnodup : ((before ++ groups).map name).Nodup) :
    (allOf groups).foldl (placeFrom key path) before = before ++ groups := by
  induction groups generalizing before with
  | nil => simp [allOf]
  | cons group rest ih =>
    obtain ⟨hgroup, hrest⟩ := List.forall_mem_cons.mp h
    have hnew : group.name ∉ before.map name := fun hm => by
      rw [List.map_append] at hnodup
      exact (List.nodup_append.mp hnodup).2.2 _ hm _ List.mem_cons_self rfl
    rw [allOf, List.foldl_append, foldl_placeFrom_new hnew hgroup.ne_nil hgroup.below,
      hgroup.again, ih hrest (by simpa using hnodup), List.append_assoc, List.singleton_append]

/-- The key of an item goes on along the path of each group that it stands in or below. -/
theorem Reflects.prefix_of_mem_all (h : Reflects key items path groups) (hg : group ∈ groups)
    (hm : item ∈ group.all) : path ++ [group.name] <+: key item := by
  induction h generalizing group with
  | @intro path groups names own nested ih =>
    rw [all_eq, List.mem_append] at hm
    rcases hm with hown | hbelow
    · rw [own group hg, List.mem_filter, decide_eq_true_iff] at hown
      exact hown.2 ▸ List.prefix_refl _
    · obtain ⟨inner, hinner, hitem⟩ := mem_allOf.mp hbelow
      exact (List.prefix_append _ _).trans (ih group hg hinner hitem)

theorem Reflects.key_ne_of_mem_allOf (h : Reflects key items path groups)
    (hm : item ∈ allOf groups) : key item ≠ path := by
  obtain ⟨group, hg, hitem⟩ := mem_allOf.mp hm
  intro he
  have hlength := (h.prefix_of_mem_all hg hitem).length_le
  simp [he] at hlength

/-- The items of some groups make these groups again. -/
theorem Reflects.foldl_placeFrom (h : Reflects key items path groups) :
    (allOf groups).foldl (placeFrom key path) [] = groups := by
  induction h with
  | @intro path groups names own nested ih =>
    have hshape : Reflects key items path groups := .intro names own nested
    -- A group has an item, since some key leads to it; those below it are made again by induction.
    have hremade : ∀ group ∈ groups, Remade key path group := by
      intro group hg
      obtain ⟨item, hitem, -, -⟩ := (hshape.leads (.here hg)).2
      refine ⟨List.ne_nil_of_mem hitem, fun item hm => hshape.prefix_of_mem_all hg hm, ?_⟩
      have hown : ∀ item ∈ group.items, key item = path ++ [group.name] := by
        intro item hm
        rw [own group hg, List.mem_filter, decide_eq_true_iff] at hm
        exact hm.2
      have hbelow : ∀ item ∈ allOf group.nested, key item ≠ path ++ [group.name] :=
        fun _ => (nested group hg).key_ne_of_mem_allOf
      have hgroup := foldl_putFrom_all group.name hown hbelow (ih group hg)
      rw [← all_eq] at hgroup
      exact hgroup.trans (mk_eta group)
    exact foldl_placeFrom_allOf hremade hshape.nodup

end Group

namespace Root

variable {root : Root α}

/-- Items go into the root as into a group without a path. -/
theorem foldl_place_eq (key : α → List String) (items : List α) (group : Group α) :
    items.foldl (place key) ⟨group.name, group.items, group.nested⟩ =
      let after := items.foldl (Group.putFrom key []) group
      ⟨after.name, after.items, after.nested⟩ := by
  induction items generalizing group with
  | nil => rfl
  | cons item rest ih =>
    have hplace : place key ⟨group.name, group.items, group.nested⟩ item =
        let after := Group.putFrom key [] group item
        ⟨after.name, after.items, after.nested⟩ := by
      unfold place
      split
      next hk => simp [Group.putFrom, Group.placeFrom, hk, Group.place]
      next hk =>
        have hne : key item ≠ [] := hk
        simp [Group.putFrom, Group.placeFrom, hne]
    rw [List.foldl_cons, hplace, ih, List.foldl_cons]

theorem name_build (name : String) (key : α → List String) (items : List α) :
    (build name key items).name = name := by
  unfold build
  induction items using List.reverseRecOn with
  | nil => rfl
  | append_singleton items item ih =>
    rw [List.foldl_concat, place]
    split <;> exact ih

/-- A tree of some items is that of the items in the order in which they stand in it. -/
theorem Reflects.build_all (h : root.Reflects key items) :
    build root.name key root.all = root := by
  have hown : ∀ item ∈ root.items, key item = [] := by
    intro item hm
    rw [h.own, List.mem_filter, decide_eq_true_iff] at hm
    exact hm.2
  have hbelow : ∀ item ∈ Group.allOf root.groups, key item ≠ [] :=
    fun _ => h.groups.key_ne_of_mem_allOf
  have hgroup := Group.foldl_putFrom_all root.name hown hbelow h.groups.foldl_placeFrom
  have hbuild := foldl_place_eq key root.all (Group.mk root.name [] [])
  rw [all, hgroup] at hbuild
  exact hbuild

/-- The items of one key are the same, in the same order, in all lists that make one tree. -/
theorem Reflects.filter_eq {others : List α} (h : root.Reflects key items)
    (ho : root.Reflects key others) (path : List String) :
    items.filter (key · = path) = others.filter (key · = path) := by
  have hempty {list : List α} (hn : ¬ (path = [] ∨ ∃ item ∈ list, path <+: key item)) :
      list.filter (key · = path) = [] := by
    rw [List.filter_eq_nil_iff]
    intro item hm
    rw [decide_eq_true_iff]
    exact fun hk => hn (.inr ⟨item, hm, hk ▸ List.prefix_refl _⟩)
  have heq := (h.at? path).symm.trans (ho.at? path)
  split at heq
  next =>
    split at heq
    next => exact (Prod.mk.inj (Option.some.inj heq)).1
    next => cases heq
  next hn =>
    split at heq
    next => cases heq
    next hn' => rw [hempty hn, hempty hn']

end Root

/-- The tree of some routes holds each of them once, those of one key in the order in which they
came, which is how they stand in the group of that key. The routes as they stand in the tree, a
group before those below it, make the same tree again. -/
theorem RouteSettings.tree_all (settings : RouteSettings) (name : String) (routes : List Route) :
    (settings.tree name routes).all.Perm routes ∧
    (∀ path, (settings.tree name routes).all.filter (fun route => route.key settings = path) =
      routes.filter fun route => route.key settings = path) ∧
    (∀ path here, (settings.tree name routes).at? path = some here →
      here.1 = routes.filter fun route => route.key settings = path) ∧
    settings.tree name (settings.tree name routes).all = settings.tree name routes := by
  have hreflects : (settings.tree name routes).Reflects (Route.key settings) routes :=
    Root.reflects_build name _ routes
  have hagain : settings.tree name (settings.tree name routes).all =
      settings.tree name routes := by
    have hbuild := hreflects.build_all
    rw [show (settings.tree name routes).name = name from Root.name_build ..] at hbuild
    exact hbuild
  have hall : (settings.tree name routes).Reflects (Route.key settings)
      (settings.tree name routes).all := by
    have hrebuilt : (settings.tree name (settings.tree name routes).all).Reflects
        (Route.key settings) (settings.tree name routes).all := Root.reflects_build name _ _
    rwa [hagain] at hrebuilt
  refine ⟨Root.all_build name _ routes, hall.filter_eq hreflects, fun path here ha => ?_, hagain⟩
  have hshape := hreflects.at? path
  rw [ha, Option.map_some] at hshape
  split at hshape
  next => exact (Prod.mk.inj (Option.some.inj hshape)).1
  next => cases hshape

end ApiAtlas
