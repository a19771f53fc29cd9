import ApiAtlas.Atlas

namespace ApiAtlas

/-- The blanks in front of a line. -/
def outlineMargin (level : Nat) : String := String.ofList (List.replicate (2 * level) ' ')

/-- The line of a route. -/
def Route.outlineLine (level : Nat) (route : Route) : String :=
  outlineMargin level ++ route.method.name ++ " " ++ route.path ++ " (" ++ route.operationId ++ ")\n"

/-- The line of a group. -/
def Group.outlineLine (level : Nat) (group : Group Route) : String :=
  outlineMargin level ++ group.name ++ "/\n"

/-- The groups of nested groups number less than the groups of the whole. -/
theorem Group.sizeOfAll_nested_lt {α : Type} (group : Group α) :
    Group.sizeOfAll group.nested < group.size := by
  cases group
  simp [Group.size, Group.nested]

/-- Groups side by side number as many as both. -/
theorem Group.sizeOfAll_append {α : Type} (a b : List (Group α)) :
    Group.sizeOfAll (a ++ b) = Group.sizeOfAll a + Group.sizeOfAll b := by
  induction a with
  | nil => simp [Group.sizeOfAll]
  | cons g gs ih => simp [Group.sizeOfAll, ih]; omega

/-- The lines of groups still to be written, each with its level. The nested groups of the first
come before the others. -/
def outlineGroups : List (Nat × Group Route) → List String
  | [] => []
  | (level, group) :: rest =>
    (group.outlineLine level :: group.items.map (Route.outlineLine (level + 1))) ++
      outlineGroups (group.nested.map ((level + 1, ·)) ++ rest)
termination_by pending => Group.sizeOfAll (pending.map Prod.snd)
decreasing_by
  have := Group.sizeOfAll_nested_lt group
  simp only [List.map_append, List.map_map, Function.comp_def, List.map_id', List.map_cons,
    Group.sizeOfAll_append, Group.sizeOfAll]
  omega

/-- The line of a named model. -/
def NameEntry.outlineLine (entry : NameEntry) : String :=
  "  " ++ entry.identifier ++ " <- " ++ entry.context.text ++ "\n"

/-- The outline of an atlas. -/
def Atlas.outline (atlas : Atlas) : String :=
  String.join (
    (atlas.root.name ++ "\n") ::
    atlas.root.items.map (Route.outlineLine 1) ++
    outlineGroups (atlas.root.groups.map ((1, ·))) ++
    "types:\n" :: atlas.names.map fun (_, entry) => entry.outlineLine)

end ApiAtlas
