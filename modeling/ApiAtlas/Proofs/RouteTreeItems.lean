import ApiAtlas.Route.Tree

namespace ApiAtlas

variable {α : Type}

namespace Group

theorem allOf_updateNamed {name : String} {change : Group α → Group α} {item : α}
    (hc : ∀ group : Group α, (change group).all.Perm (group.all ++ [item]))
    (groups : List (Group α)) :
    (allOf (updateNamed name change groups)).Perm (allOf groups ++ [item]) := by
  induction groups with
  | nil =>
    have hn := hc (.mk name [] [])
    simp only [updateNamed, allOf, all, List.append_nil] at hn ⊢
    exact hn
  | cons group rest ih =>
    rw [updateNamed]
    split
    next =>
      simp only [allOf]
      refine ((hc group).append_right (allOf rest)).trans ?_
      rw [List.append_assoc, List.append_assoc]
      exact List.perm_append_comm.append_left _
    next =>
      simp only [allOf, List.append_assoc]
      exact ih.append_left _

theorem allOf_place (item : α) (key : List String) (hk : key ≠ []) :
    ∀ groups : List (Group α), (allOf (place item key groups)).Perm (allOf groups ++ [item]) := by
  induction key with
  | nil => exact absurd rfl hk
  | cons name rest ih =>
    intro groups
    cases rest with
    | nil =>
      refine allOf_updateNamed (fun group => ?_) groups
      obtain ⟨segment, items, nested⟩ := group
      simp only [all, Group.items, Group.nested, List.append_assoc]
      exact List.perm_append_comm.append_left _
    | cons next rest =>
      refine allOf_updateNamed (fun group => ?_) groups
      obtain ⟨segment, items, nested⟩ := group
      simp only [all, Group.items, Group.nested, List.append_assoc]
      exact (ih (List.cons_ne_nil _ _) nested).append_left _

end Group

namespace Root

theorem all_place (key : α → List String) (root : Root α) (item : α) :
    (place key root item).all.Perm (root.all ++ [item]) := by
  unfold place
  split
  next =>
    simp only [all, List.append_assoc]
    exact List.perm_append_comm.append_left _
  next hk =>
    simp only [all, List.append_assoc]
    exact (Group.allOf_place item _ hk root.groups).append_left _

theorem all_foldl_place (key : α → List String) (items : List α) :
    ∀ root : Root α, (items.foldl (place key) root).all.Perm (root.all ++ items) := by
  induction items with
  | nil => simp
  | cons item rest ih =>
    intro root
    refine (ih (place key root item)).trans ?_
    have hp := (all_place key root item).append_right rest
    rwa [List.append_assoc] at hp

/-- The tree holds the items that it was made of. -/
theorem all_build (name : String) (key : α → List String) (items : List α) :
    (build name key items).all.Perm items :=
  all_foldl_place key items ⟨name, [], []⟩

end Root

end ApiAtlas
