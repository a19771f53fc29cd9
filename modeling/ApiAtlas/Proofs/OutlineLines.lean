import ApiAtlas.Outline

namespace ApiAtlas

/-- A line of an outline: two blanks for each level, then its text. -/
def marginLine (level : Nat) (text : String) : String :=
  String.join (List.replicate level "  ") ++ text ++ "\n"

/-- The name of a method in capitals. -/
def Method.capitals (method : Method) : String :=
  String.ofList (method.key.toList.map Char.toUpper)

/-- What an outline says of a route: its method, its path, and its name in brackets. -/
def Route.summaryText (route : Route) : String :=
  route.method.capitals ++ " " ++ route.path ++ " (" ++ route.operationId ++ ")"

/-- The lines of some routes. -/
def routeLines (level : Nat) (routes : List Route) : List String :=
  routes.map fun route => marginLine level route.summaryText

namespace Group

mutual

/-- The line of a group, then those of its routes and of its nested groups, one level further. -/
def lines (level : Nat) : Group Route → List String
  | .mk name routes nested =>
    marginLine level (name ++ "/") :: routeLines (level + 1) routes ++ linesOf (level + 1) nested

/-- The lines of some groups of one level in order. -/
def linesOf (level : Nat) : List (Group Route) → List String
  | [] => []
  | group :: rest => group.lines level ++ linesOf level rest

end

end Group

/-- The lines of a tree: the routes without a segment, then the groups. -/
def Root.lines (root : Root Route) : List String :=
  routeLines 1 root.items ++ Group.linesOf 1 root.groups

/-- The lines of names in their order. -/
def nameLines (names : NameTable) : List String :=
  names.map fun (_, entry) => marginLine 1 (entry.identifier ++ " <- " ++ entry.context.text)

/-- The line is that of a route: it ends in a bracket, and the line of a group in `/`. -/
def isRouteLine (line : String) : Bool := line.toList.dropLast.getLast? == some ')'

/-- A line without the blanks in front of it. -/
def unindented (line : String) : String := String.ofList (line.toList.dropWhile (· = ' '))

theorem toList_margin (level : Nat) :
    (String.join (List.replicate level "  ")).toList = List.replicate (2 * level) ' ' := by
  induction level with
  | zero => rfl
  | succ level ih =>
    rw [List.replicate_succ, String.join_cons, String.toList_append, ih]
    rfl

theorem outlineMargin_eq (level : Nat) :
    outlineMargin level = String.join (List.replicate level "  ") := by
  rw [outlineMargin, ← toList_margin, String.ofList_toList]

theorem Method.name_eq_capitals (method : Method) : method.name = method.capitals := by
  cases method <;> decide

theorem outlineLine_route (level : Nat) (route : Route) :
    route.outlineLine level = marginLine level route.summaryText := by
  rw [Route.outlineLine, marginLine, Route.summaryText, outlineMargin_eq, Method.name_eq_capitals]
  simp only [String.append_assoc]
  rfl

theorem outlineLine_group (level : Nat) (group : Group Route) :
    group.outlineLine level = marginLine level (group.name ++ "/") := by
  rw [Group.outlineLine, marginLine, outlineMargin_eq]
  simp only [String.append_assoc]
  rfl

theorem outlineLine_name (entry : NameEntry) : entry.outlineLine =
    marginLine 1 (entry.identifier ++ " <- " ++ entry.context.text) := by
  rw [NameEntry.outlineLine, marginLine]
  simp only [String.append_assoc]
  rfl

theorem isRouteLine_marginLine (level : Nat) (text : String) (last : Char) :
    isRouteLine (marginLine level (text ++ last.toString)) = (last == ')') := by
  have hline : (marginLine level (text ++ last.toString)).toList.dropLast =
      (String.join (List.replicate level "  ")).toList ++ text.toList ++ [last] := by
    rw [marginLine, String.toList_append, String.toList_append, String.toList_append,
      ← List.append_assoc, Char.toString, String.toList_singleton]
    exact List.dropLast_concat
  rw [isRouteLine, hline, List.getLast?_concat]
  rfl

theorem isRouteLine_route (level : Nat) (route : Route) :
    isRouteLine (marginLine level route.summaryText) = true :=
  isRouteLine_marginLine level _ ')'

theorem isRouteLine_group (level : Nat) (name : String) :
    isRouteLine (marginLine level (name ++ "/")) = false :=
  isRouteLine_marginLine level name '/'

theorem unindented_route (level : Nat) (route : Route) :
    unindented (marginLine level route.summaryText) = route.summaryText ++ "\n" := by
  have hmethod : ∃ first rest, (route.summaryText ++ "\n").toList = first :: rest ∧ first ≠ ' ' := by
    have hcapitals : ∃ first rest, route.method.capitals.toList = first :: rest ∧ first ≠ ' ' := by
      cases route.method <;> exact ⟨_, _, rfl, by decide⟩
    obtain ⟨first, rest, hm, hne⟩ := hcapitals
    simp only [Route.summaryText, String.toList_append, hm, List.cons_append]
    exact ⟨first, _, rfl, hne⟩
  obtain ⟨first, rest, htext, hne⟩ := hmethod
  have hblanks : ∀ c ∈ List.replicate (2 * level) ' ', decide (c = ' ') = true := by
    intro c hc
    simpa using List.eq_of_mem_replicate hc
  rw [unindented, marginLine, String.append_assoc, String.toList_append, toList_margin,
    List.dropWhile_append_of_pos hblanks, htext, List.dropWhile_cons_of_neg (by simpa using hne),
    ← htext, String.ofList_toList]

theorem unindented_routeLines (level : Nat) (routes : List Route) :
    ((routeLines level routes).filter isRouteLine).map unindented =
      routes.map fun route => route.summaryText ++ "\n" := by
  have hall : (routeLines level routes).filter isRouteLine = routeLines level routes := by
    refine List.filter_eq_self.mpr fun line hm => ?_
    obtain ⟨route, -, rfl⟩ := List.mem_map.mp hm
    exact isRouteLine_route level route
  rw [hall, routeLines, List.map_map]
  exact List.map_congr_left fun route _ => unindented_route level route

namespace Group

variable {α : Type}

/-- The items of groups that are still to be visited. The nested groups of the first come before
the others. -/
def visit : List (Group α) → List α
  | [] => []
  | group :: rest => group.items ++ visit (group.nested ++ rest)
termination_by pending => sizeOfAll pending
decreasing_by
  have := sizeOfAll_nested_lt group
  simp only [sizeOfAll_append, sizeOfAll]
  omega

theorem allOf_append (first second : List (Group α)) :
    allOf (first ++ second) = allOf first ++ allOf second := by
  induction first with
  | nil => rfl
  | cons group rest ih => rw [List.cons_append, allOf, allOf, ih, List.append_assoc]

theorem visit_eq_allOf (pending : List (Group α)) : visit pending = allOf pending := by
  induction pending using visit.induct with
  | case1 => rw [visit, allOf]
  | case2 group rest ih =>
    obtain ⟨name, items, nested⟩ := group
    rw [visit, ih, allOf_append, allOf, all, List.append_assoc]
    rfl

theorem linesOf_eq_flatMap (level : Nat) (groups : List (Group Route)) :
    linesOf level groups = groups.flatMap (lines level) := by
  induction groups with
  | nil => rw [linesOf, List.flatMap_nil]
  | cons group rest ih => rw [linesOf, ih, List.flatMap_cons]

mutual

theorem routes_lines (level : Nat) (group : Group Route) :
    ((group.lines level).filter isRouteLine).map unindented =
      group.all.map fun route => route.summaryText ++ "\n" := by
  match group with
  | .mk name routes nested =>
    have hname : ¬ isRouteLine (marginLine level (name ++ "/")) = true := by
      rw [isRouteLine_group]
      exact Bool.false_ne_true
    rw [lines, all, List.cons_append, List.filter_cons_of_neg hname, List.filter_append,
      List.map_append, List.map_append, unindented_routeLines, routes_linesOf]

theorem routes_linesOf (level : Nat) (groups : List (Group Route)) :
    ((linesOf level groups).filter isRouteLine).map unindented =
      (allOf groups).map fun route => route.summaryText ++ "\n" := by
  match groups with
  | [] => rw [linesOf, allOf, List.filter_nil, List.map_nil, List.map_nil]
  | group :: rest =>
    rw [linesOf, allOf, List.filter_append, List.map_append, List.map_append, routes_lines,
      routes_linesOf]

end

end Group

/-- The pile of groups comes to the lines of one group after another, each from its own level on. -/
theorem outlineGroups_eq_lines (pending : List (Nat × Group Route)) :
    outlineGroups pending = pending.flatMap fun (level, group) => group.lines level := by
  induction pending using outlineGroups.induct with
  | case1 => rw [outlineGroups, List.flatMap_nil]
  | case2 level group rest ih =>
    obtain ⟨name, items, nested⟩ := group
    have hnested : ((nested.map ((level + 1, ·))).flatMap fun (level, group) => group.lines level) =
        Group.linesOf (level + 1) nested := by
      rw [Group.linesOf_eq_flatMap, List.flatMap_map]
    have hroutes : items.map (Route.outlineLine (level + 1)) = routeLines (level + 1) items :=
      List.map_congr_left fun route _ => outlineLine_route (level + 1) route
    rw [outlineGroups, ih, List.flatMap_append, List.flatMap_cons, outlineLine_group]
    simp only [Group.nested, Group.items, Group.name, hnested, hroutes, Group.lines,
      List.cons_append, List.append_assoc]

/-- The outline of an atlas is its title, the lines of its tree by recursion, and a line for each
name in the order of the names. Those of the lines that are lines of routes say, apart from the
blanks in front, what there is to say of all routes of the tree in their order, which is also the
order in which they are taken from a pile of groups. -/
theorem Atlas.outline_lines (atlas : Atlas) :
    atlas.outline = String.join
        (marginLine 0 atlas.root.name :: atlas.root.lines ++
          marginLine 0 "types:" :: nameLines atlas.names) ∧
      (atlas.root.lines.filter isRouteLine).map unindented =
        atlas.root.all.map (fun route => route.summaryText ++ "\n") ∧
      atlas.root.items ++ Group.visit atlas.root.groups = atlas.root.all := by
  refine ⟨?_, ?_, ?_⟩
  · have hgroups : ((atlas.root.groups.map ((1, ·))).flatMap fun (level, group) =>
        group.lines level) = Group.linesOf 1 atlas.root.groups := by
      rw [Group.linesOf_eq_flatMap, List.flatMap_map]
    have hroutes : atlas.root.items.map (Route.outlineLine 1) = routeLines 1 atlas.root.items :=
      List.map_congr_left fun route _ => outlineLine_route 1 route
    unfold Atlas.outline Root.lines
    simp only [outlineGroups_eq_lines, hgroups, hroutes, outlineLine_name, List.cons_append,
      List.append_assoc]
    rfl
  · rw [Root.lines, List.filter_append, List.map_append, unindented_routeLines,
      Group.routes_linesOf, ← List.map_append]
    rfl
  · rw [Group.visit_eq_allOf]
    rfl

/-- Groups within a group, with a route of their own each, and one beside them. -/
def shopRoot : Root Route where
  name := "Shop"
  items := [⟨"ping", .get, "/", none, none, [], false, {}, [], {}, []⟩]
  groups := [
    .mk "pets" [⟨"listPets", .get, "/pets", none, none, [], false, {}, [], {}, []⟩]
      [.mk "photos" [⟨"addPhoto", .post, "/pets/photos", none, none, [], false, {}, [], {}, []⟩] []],
    .mk "orders" [⟨"order", .put, "/orders", none, none, [], false, {}, [], {}, []⟩] []]

theorem Atlas.outline_lines_shop :
    let names : NameTable := [(0, ⟨.nested "photo" (.named "Pet"), [], "PetPhoto"⟩)]
    Atlas.outline ⟨⟨"Shop", none, "1"⟩, [], shopRoot, ⟨[], [], []⟩, names, []⟩ =
      "Shop\n" ++
      "  GET / (ping)\n" ++
      "  pets/\n" ++
      "    GET /pets (listPets)\n" ++
      "    photos/\n" ++
      "      POST /pets/photos (addPhoto)\n" ++
      "  orders/\n" ++
      "    PUT /orders (order)\n" ++
      "types:\n" ++
      "  PetPhoto <- Pet.photo\n" := by
  intro names
  rw [(outline_lines _).1]
  decide +kernel

end ApiAtlas
