import ApiAtlas.Proofs.PlainComponents
import ApiAtlas.Proofs.ResolutionDepth
import ApiAtlas.Proofs.ResolverSoundness
import ApiAtlas.Proofs.SideBySide

namespace ApiAtlas

namespace Pairing

variable {pair : Pairing} {α β : Type} {s t : Arena} {g : α → α} {h : β → β}

/-- Calls below one for a schema of `weight` go no deeper than `limit`. -/
def Room (pair : Pairing) (limit : Nat) (trail : Trail) (weight : Nat) (arena : Arena) : Prop :=
  pair.right.depth arena trail + weight ≤ limit

theorem Room.of_grows {limit weight : Nat} {trail : Trail} {before after : Arena}
    (hg : before.Grows after) (h : pair.Room limit trail weight before) :
    pair.Room limit trail weight after :=
  Registry.Room.kept hg.recalls h

theorem Room.mono {limit weight : Nat} {trail : Trail} {before after : Arena}
    (hl : (growing pair.left).leads before after) (h : pair.Room limit trail weight before) :
    pair.Room limit trail weight after :=
  h.of_grows hl.1

theorem matches_get_bind {rest rest' : Arena → Resolving β}
    (hm : pair.Matches s t (rest s) (rest' t) h) :
    pair.Matches s t (get >>= rest) (get >>= rest') h := hm

theorem matches_modify_bind {change change' : Arena → Arena} {rest rest' : Unit → Resolving β}
    (hm : pair.Matches (change s) (change' t) (rest ()) (rest' ()) h) :
    pair.Matches s t (modify change >>= rest) (modify change' >>= rest') h := hm

theorem matches_reserve_bind {scope : List String} {rest rest' : ModelId → Resolving β}
    (hm : pair.Matches (s.reserve scope).2 (t.reserve scope).2 (rest s.slots.length)
      (rest' t.slots.length) h) :
    pair.Matches s t (Resolving.reserve scope >>= rest) (Resolving.reserve scope >>= rest') h := hm

theorem matches_fill_bind {id id' : ModelId} {model model' : Model} {rest rest' : Unit → Resolving β}
    (hm : pair.Matches (s.fill id model) (t.fill id' model') (rest ()) (rest' ()) h) :
    pair.Matches s t (Resolving.fill id model >>= rest) (Resolving.fill id' model' >>= rest') h := hm

/-- Work that leaves no arena but a lost one asks nothing of the right side. -/
theorem matches_of_lost {work other : Resolving α} (hl : pair.lenient)
    (hw : ∀ a after, Resolving.outcome work s = (.ok a, after) → pair.lost after) :
    pair.Matches s t work other g := by
  unfold Matches
  cases ho : Resolving.outcome work s with
  | mk result after =>
    cases result with
    | ok a => exact .inl (hw a after ho)
    | error error => exact .inl hl

/-- A model is built for a reserved place and put there. -/
theorem matches_build {build other : Resolving Model} (answer : ModelId → α) {id : Nat}
    (hi : id < s.slots.length) (hn : s.model? id = none)
    (hs : build.Ensures s (fun _ after => (growing pair.left).leads s after) fun _ => True)
    (hb : pair.Matches s t build other (Model.renumber pair.move))
    (ha : g (answer id) = answer (pair.move id)) :
    pair.Matches s t
      (do
        let model ← build
        Resolving.fill id model
        pure (answer id))
      (do
        let model ← other
        Resolving.fill (pair.move id) model
        pure (answer (pair.move id))) g := by
  refine matches_bind hb (fun model => keeps_bind (keeps_fill _ _) fun _ => keeps_pure _) ?_
  intro model after after' ho hr
  have hl := (Resolving.ensures_iff.mp hs).1 model after ho
  have hlt : id < after.slots.length := Nat.lt_of_lt_of_le hi hl.1.slots.length_le
  exact matches_fill_bind (matches_pure ha
    (pair.fill hr hlt (hl.1.model?_eq_none hi hn) model))

end Pairing

/-- Calls on both sides come to the same where those on the right may be nested `limit` deep. -/
structure Calls.Follow (pair : Pairing) (limit : Nat) (calls other : Calls) : Prop where
  steady : calls.Steady pair.left
  resolve : ∀ trail node pos, pair.Follows (pair.Room limit trail (2 * node.size + 1))
    (calls.resolve trail node pos) (other.resolve trail node pos) (Resolved.renumber pair.move)
  build : ∀ trail schema pos, pair.Follows (pair.Room limit trail (2 * schema.size))
    (calls.build trail schema pos) (other.build trail schema pos) (Model.renumber pair.move)
  merge : ∀ trail schema pointer pos merged,
    pair.Follows (fun arena => merged.Held arena ∧ pair.Room limit trail (2 * schema.size) arena)
      (calls.merge trail schema pointer pos merged)
      (other.merge trail schema pointer pos (merged.renumber pair.move))
      (Merged.renumber pair.move)

namespace Registry

open Pairing

variable {pair : Pairing} {calls other : Calls} {limit : Nat} {trail : Trail} {schema : Schema}
  {node : SchemaNode} {pos : Position} {name path pointer location reference : String}
  {merged : Merged}

theorem componentId_keeps (hc : calls.Follow pair limit other) :
    pair.Keeps (pair.left.componentId calls trail name reference location) := by
  rw [componentId_eq]
  refine keeps_get_bind fun arena => ?_
  cases Entries.get? arena.memo name with
  | some id => exact keeps_pure id
  | none =>
    simp only
    split
    next => exact keeps_throw _
    next =>
      split
      next => exact keeps_throw _
      next =>
        cases Entries.get? pair.left.schemas name with
        | none => exact keeps_throw _
        | some body =>
          simp only
          split
          next =>
            exact keeps_bind (hc.resolve _ _ _).keeps fun target =>
              keeps_bind (keeps_remember _ _) fun _ => keeps_pure _
          next =>
            exact keeps_bind (keeps_reserve _) fun id => keeps_bind (keeps_remember _ _) fun _ =>
              keeps_bind (hc.build _ _ _).keeps fun model =>
                keeps_bind (keeps_fill _ _) fun _ => keeps_pure _

/-- A component that is another name. -/
theorem componentId_alias (hc : calls.Follow pair limit other) {s t : Arena}
    (hs : s.Sound pair.left) (hr : pair.rel s t) (hroom : pair.Room limit trail 2 s)
    {body : SchemaNode} (hb : Entries.get? pair.left.schemas name = some body)
    (hb' : Entries.get? pair.right.schemas name = some body) (hbare : body.bare = .ref path)
    (hf : name ∉ s.failed) (ht : name ∉ trail.aliases) :
    pair.Matches s t
      (do
        let target ← calls.resolve { trail with aliases := trail.aliases ++ [name] } (.ref path) pos
        modify fun arena => arena.remember name target.id
        pure target.id)
      (do
        let target ← other.resolve { trail with aliases := trail.aliases ++ [name] } (.ref path) pos
        modify fun arena => arena.remember name target.id
        pure target.id) pair.move := by
  have hdepth := depth_follow s hb' ht
  have hroom' : pair.Room limit { trail with aliases := trail.aliases ++ [name] }
      (2 * (SchemaNode.ref path).size + 1) s := by
    unfold Pairing.Room at hroom ⊢
    rw [SchemaNode.size]
    omega
  refine matches_bind ((hc.resolve _ _ _).here s t hs hr hroom')
    (fun target => keeps_bind (keeps_remember _ _) fun _ => keeps_pure _) ?_
  intro target after after' ho hr'
  obtain ⟨hsound, hl, hh, hanswer⟩ :=
    (Resolving.ensures_iff.mp (hc.steady.resolve _ _ pos s hs trivial)).1 target after ho
  obtain ⟨next, id, rfl, hname⟩ := hanswer.of_ref (SchemaNode.bare_ref path)
  have halias : Arena.AliasOf pair.left name next := ⟨body, path, hb, hbare, hname⟩
  refine matches_modify_bind (matches_pure rfl ?_)
  refine pair.remember hr' (Option.isSome_iff_exists.mpr ⟨body, hb⟩) (hl.1.failed ▸ hf) ?_
    (hsound.lt_of_get? hh)
  cases hm : Entries.get? after.memo name with
  | none => exact .inl rfl
  | some place => exact .inr ((hsound.aliased name place next hm halias).symm.trans hh)

/-- A component with a body of its own. -/
theorem componentId_body (hc : calls.Follow pair limit other) {s t : Arena}
    (hs : s.Sound pair.left) (hr : pair.rel s t) (hroom : pair.Room limit trail 2 s)
    {body : SchemaNode} (hb : Entries.get? pair.left.schemas name = some body)
    (hb' : Entries.get? pair.right.schemas name = some body) (hbare : body.bare = .inline schema)
    (hm : Entries.get? s.memo name = none) (hf : name ∉ s.failed) :
    pair.Matches s t
      (do
        let id ← Resolving.reserve []
        modify fun arena => arena.remember name id
        let model ← calls.build {} schema pos
        Resolving.fill id model
        pure id)
      (do
        let id ← Resolving.reserve []
        modify fun arena => arena.remember name id
        let model ← other.build {} schema pos
        Resolving.fill id model
        pure id) pair.move := by
  have hdepth := depth_enter hb' hm trail s.slots.length []
  have hsize : schema.size ≤ body.size := by
    have hle := body.size_bare
    rwa [hbare] at hle
  have hlt : s.slots.length < (s.reserve []).2.slots.length := Arena.lt_reserve s []
  have hsound : ((s.reserve []).2.remember name s.slots.length).Sound pair.left :=
    (hs.reserve []).remember hm hf hlt fun target ha => absurd ha (Arena.not_aliasOf hb hbare)
  have hrel : pair.rel ((s.reserve []).2.remember name s.slots.length)
      ((t.reserve []).2.remember name t.slots.length) := by
    rw [pair.place hr]
    exact pair.remember (pair.reserve hr []) (Option.isSome_iff_exists.mpr ⟨body, hb⟩) hf
      (.inl hm) hlt
  refine matches_reserve_bind (matches_modify_bind ?_)
  rw [pair.place hr] at hrel ⊢
  refine matches_build id hlt ?_ ?_ ((hc.build _ _ _).here _ _ hsound hrel ?_) rfl
  · rw [Arena.model?_remember, Arena.model?_reserve]
    simp [Arena.model?]
  · exact (hc.steady.build _ _ _ _ hsound trivial).weaken (fun _ _ h => h.2.1) fun _ _ => trivial
  · unfold Pairing.Room at hroom ⊢
    omega

theorem componentId_follows (hc : calls.Follow pair limit other) :
    pair.Follows (pair.Room limit trail 2) (pair.left.componentId calls trail name reference location)
      (pair.right.componentId other trail name reference location) pair.move := by
  refine ⟨componentId_keeps hc, fun s t hs hr hroom => ?_⟩
  rcases pair.schemas name with hschemas | ⟨hl, hgone⟩
  · rw [componentId_eq, componentId_eq]
    refine matches_get_bind ?_
    rw [pair.memo hr, hschemas]
    cases hm : Entries.get? s.memo name with
    | some id => exact matches_pure rfl hr
    | none =>
      simp only [Option.map_none]
      rcases pair.failed hr name with hfailed | ⟨hl, hfailed⟩
      · rw [hfailed]
        split
        next => exact matches_throw
        next hf =>
          have hf' : name ∉ s.failed := by simpa using hf
          split
          next => exact matches_throw
          next ht =>
            have ht' : name ∉ trail.aliases := by simpa using ht
            cases hb : Entries.get? pair.left.schemas name with
            | none => exact matches_throw
            | some body =>
              rw [hb] at hschemas
              simp only [SchemaNode.unwrap_node]
              cases hbare : body.bare with
              | ref path => exact componentId_alias hc hs hr hroom hb hschemas hbare hf' ht'
              | inline schema => exact componentId_body hc hs hr hroom hb hschemas hbare hm hf'
      · rw [if_pos hfailed]
        exact matches_of_lenient hl
  · refine matches_of_lost hl fun id after ho => hgone after (Entries.has_iff.mpr ⟨id, ?_⟩)
    exact ((Resolving.ensures_iff.mp (componentId_steady hc.steady s hs trivial)).1 id after ho).2.2

theorem resolveRef_follows (hc : calls.Follow pair limit other) :
    pair.Follows (pair.Room limit trail 2) (pair.left.resolveRef calls trail path location)
      (pair.right.resolveRef other trail path location) (Resolved.renumber pair.move) := by
  unfold resolveRef
  refine Follows.lift_bind fun name _ => ?_
  exact (componentId_follows hc).bind_pure fun id => rfl

theorem resolveProperty_follows (hc : calls.Follow pair limit other) :
    pair.Follows (pair.Room limit trail (2 * node.size + 1))
      (resolveProperty calls trail pointer pos name node)
      (resolveProperty other trail pointer pos name node) (Property.renumber pair.move) := by
  unfold resolveProperty
  exact (hc.resolve _ _ _).bind_pure fun model => rfl

theorem buildObject_follows (hc : calls.Follow pair limit other) :
    pair.Follows (pair.Room (limit + 1) trail (2 * schema.size)) (buildObject calls trail schema pos)
      (buildObject other trail schema pos) (Model.renumber pair.move) := by
  unfold buildObject
  refine (Follows.mapM _ Room.mono (fun (name, node) hm => ?_) fun (name, node) _ => ?_).bind_pure
    fun properties => rfl
  · have hsize := SchemaOf.size_property hm
    refine Follows.bind_pure ((resolveProperty_follows hc).weaken fun arena hroom => ?_)
      fun property => rfl
    exact Room.of_le hroom (by omega)
  · exact ((resolveProperty_steady hc.steady).weaken (fun _ _ => trivial) fun _ _ h => h).bind
      fun property => Regime.Runs.pure fun _ _ => trivial

theorem mergeUnfinished_keeps (hc : calls.Follow pair limit other) :
    pair.Keeps (pair.left.mergeUnfinished calls trail path location pos merged) := by
  rw [mergeUnfinished_eq]
  refine keeps_bind (keeps_lift _) fun written => ?_
  simp only
  split
  next => exact keeps_throw _
  next =>
    split
    next => exact keeps_throw _
    next => exact (hc.merge _ _ _ _ _).keeps

theorem mergeUnfinished_follows (hc : calls.Follow pair limit other) {first : String}
    (hpath : Section.schemas.named? path = some first) :
    pair.Follows (fun arena => merged.Held arena ∧ pair.Room limit trail 2 arena ∧
        Entries.has arena.memo first = true)
      (pair.left.mergeUnfinished calls trail path location pos merged)
      (pair.right.mergeUnfinished other trail path location pos (merged.renumber pair.move))
      (Merged.renumber pair.move) := by
  refine ⟨mergeUnfinished_keeps hc, fun s t hs hr ⟨hheld, hroom, hmemo⟩ => ?_⟩
  rcases pair.written hr hs hpath hmemo location with hlost | hwritten
  · exact matches_of_keeps hlost (mergeUnfinished_keeps hc)
  · rw [mergeUnfinished_eq, mergeUnfinished_eq]
    rw [hwritten]
    refine Follows.here (p := fun arena => arena = s) (Follows.lift_bind fun written hw => ?_) s t hs hr rfl
    obtain ⟨name, body⟩ := written
    simp only
    split
    next => exact Follows.throw
    next ht =>
      split
      next => exact Follows.throw
      next =>
        refine (hc.merge _ _ _ _ _).weaken ?_
        rintro arena rfl
        refine ⟨hheld, ?_⟩
        rw [← hwritten] at hw
        have ht' : name ∉ trail.inheriting := by simpa using ht
        obtain ⟨_, _, hfound⟩ := Lookup.writtenAs_of_ok _ hw
        have hdepth := depth_inherit arena hfound.found ht'
        unfold Pairing.Room at hroom ⊢
        omega

theorem mergeComponent_keeps (hc : calls.Follow pair limit other) :
    pair.Keeps (pair.left.mergeComponent calls trail path location pos merged) := by
  unfold mergeComponent
  refine keeps_bind (resolveRef_follows hc).keeps fun target => keeps_get_bind fun arena => ?_
  split
  · exact keeps_pure _
  · exact keeps_pure _
  · exact keeps_throw _
  · exact mergeUnfinished_keeps hc

theorem mergeComponent_follows (hc : calls.Follow pair limit other) :
    pair.Follows (fun arena => merged.Held arena ∧ pair.Room limit trail 2 arena)
      (pair.left.mergeComponent calls trail path location pos merged)
      (pair.right.mergeComponent other trail path location pos (merged.renumber pair.move))
      (Merged.renumber pair.move) := by
  refine ⟨mergeComponent_keeps hc, fun s t hs hr ⟨hheld, hroom⟩ => ?_⟩
  unfold mergeComponent
  refine matches_bind ((resolveRef_follows hc).here s t hs hr hroom) (fun target =>
    keeps_get_bind fun arena => ?_) ?_
  · split
    · exact keeps_pure _
    · exact keeps_pure _
    · exact keeps_throw _
    · exact mergeUnfinished_keeps hc
  · intro target after after' ho hr'
    obtain ⟨hsound, hl, name, id, rfl, hname, hmemo⟩ :=
      (Resolving.ensures_iff.mp (resolveRef_steady hc.steady s hs trivial)).1 target after ho
    refine matches_get_bind ?_
    have hmodel := pair.model hr' id (hsound.lt_of_get? hmemo)
    rw [Resolved.id_renumber]
    simp only [Resolved.id, hmodel]
    cases hm : after.model? id with
    | none =>
      refine (mergeUnfinished_follows hc hname).here after after' hsound hr' ⟨?_, ?_, ?_⟩
      · exact fun pair' hp => hl.1.holds (hheld pair' hp)
      · exact Room.mono hl hroom
      · exact Entries.has_iff.mpr ⟨id, hmemo⟩
    | some model =>
      cases model with
      | object object => exact matches_pure (Merged.renumber_foldl_insert _ _) hr'
      | freeForm => exact matches_pure rfl hr'
      | _ => exact matches_throw

theorem mergeBranch_follows (hc : calls.Follow pair limit other) {branch : SchemaNode × Nat}
    (hb : branch.1 ∈ schema.allOf) :
    pair.Follows (fun arena => merged.Held arena ∧
        pair.Room (limit + 1) trail (2 * schema.size) arena)
      (pair.left.mergeBranch calls trail pointer pos merged branch)
      (pair.right.mergeBranch other trail pointer pos (merged.renumber pair.move) branch)
      (Merged.renumber pair.move) := by
  unfold mergeBranch
  obtain ⟨node, index⟩ := branch
  have hsize := SchemaOf.size_branch hb
  cases node with
  | ref path =>
    refine (mergeComponent_follows hc).weaken fun arena h => ⟨h.1, Room.of_le h.2 ?_⟩
    have hone := SchemaNode.one_le_size (.ref path)
    simp only at hsize
    omega
  | inline inner =>
    simp only
    split
    next => exact Follows.pure rfl
    next =>
      split
      next =>
        refine (hc.merge _ _ _ _ _).weaken fun arena h => ⟨h.1, Room.of_le h.2 ?_⟩
        simp only at hsize
        unfold SchemaOf.size at *
        omega
      next => exact Follows.throw

theorem insertProperties_follows (hc : calls.Follow pair limit other) (start : Merged) :
    pair.Follows (fun arena => start.Held arena ∧
        pair.Room (limit + 1) trail (2 * schema.size) arena)
      (schema.properties.foldlM (fun merged (name, node) => do
        let property ← resolveProperty calls trail pointer pos name node
        pure (merged.insert property)) start)
      (schema.properties.foldlM (fun merged (name, node) => do
        let property ← resolveProperty other trail pointer pos name node
        pure (merged.insert property)) (start.renumber pair.move))
      (Merged.renumber pair.move) := by
  refine Follows.foldlM (i := fun merged arena => merged.Held arena ∧
    pair.Room (limit + 1) trail (2 * schema.size) arena) _ ?_ ?_ start
  · intro (name, node) hm merged
    have hsize := SchemaOf.size_property hm
    refine Follows.bind_pure ((resolveProperty_follows hc).weaken fun arena h =>
      Room.of_le h.2 (by omega)) fun property => Merged.renumber_insert _ _
  · intro (name, node) _ merged
    exact (insertProperty_steady hc.steady).frame Room.mono

theorem mergeSchema_follows (hc : calls.Follow pair limit other) :
    pair.Follows (fun arena => merged.Held arena ∧
        pair.Room (limit + 1) trail (2 * schema.size) arena)
      (pair.left.mergeSchema calls trail schema pointer pos merged)
      (pair.right.mergeSchema other trail schema pointer pos (merged.renumber pair.move))
      (Merged.renumber pair.move) := by
  unfold mergeSchema
  have hkept : ∀ {before after : Arena}, (growing pair.left).leads before after →
      pair.Room (limit + 1) trail (2 * schema.size) before →
      pair.Room (limit + 1) trail (2 * schema.size) after := Room.mono
  have hbranch : ∀ branch ∈ schema.allOf.zipIdx, branch.1 ∈ schema.allOf :=
    fun branch hm => List.fst_mem_of_mem_zipIdx hm
  refine Follows.bind (Follows.foldlM (i := fun merged arena => merged.Held arena ∧
    pair.Room (limit + 1) trail (2 * schema.size) arena) _
    (fun branch hm merged => mergeBranch_follows hc (hbranch branch hm))
    (fun branch _ merged => (mergeBranch_steady hc.steady branch).frame hkept) merged)
    (Regime.Runs.foldlM (i := fun _ merged arena => merged.Held arena ∧
      pair.Room (limit + 1) trail (2 * schema.size) arena) _
      (fun _ branch _ _ merged => (mergeBranch_steady hc.steady branch).frame hkept) merged)
    fun merged => ?_
  refine Follows.bind_pure (insertProperties_follows hc
    { merged with shaped := merged.shaped || declaresObject schema }) fun merged => ?_
  rfl

theorem buildAllOf_follows (hc : calls.Follow pair limit other) :
    pair.Follows (pair.Room (limit + 1) trail (2 * schema.size))
      (pair.left.buildAllOf calls trail schema pos) (pair.right.buildAllOf other trail schema pos)
      (Model.renumber pair.move) := by
  unfold buildAllOf
  split
  next => exact Follows.throw
  next =>
    refine Follows.bind (p := pair.Room (limit + 1) trail (2 * schema.size))
      ((mergeSchema_follows hc).weaken fun arena hroom => ⟨fun pair' hp => ?_, hroom⟩)
      (((mergeSchema_steady hc.steady)).weaken (fun _ _ pair' hp => ?_) fun _ _ h => h)
      fun merged => ?_
    · simp at hp
    · simp at hp
    · have hshaped : (merged.renumber pair.move).shaped = merged.shaped := rfl
      rw [hshaped]
      split
      next =>
        refine Follows.pure ?_
        rw [Merged.finish_renumber]
        rfl
      next => exact Follows.pure rfl

theorem unionCases_follows (hc : calls.Follow pair limit other)
    (branches : List (SchemaNode × Nat)) :
    ∀ cases : List Case, (∀ branch ∈ branches, branch.1 ∈ schema.composition) →
      pair.Follows (pair.Room (limit + 1) trail (2 * schema.size))
        (unionCases calls trail schema pos branches cases)
        (unionCases other trail schema pos branches (cases.map (Case.renumber pair.move)))
        (List.map (Case.renumber pair.move)) := by
  induction branches with
  | nil => exact fun cases _ => Follows.pure rfl
  | cons branch rest ih =>
    obtain ⟨node, index⟩ := branch
    intro cases hb
    have hrest := fun other ho => hb other (List.mem_cons_of_mem _ ho)
    rw [unionCases, unionCases]
    split
    next => exact ih cases hrest
    next =>
      have hsize := SchemaOf.size_composition (hb _ List.mem_cons_self)
      have hlabels : ∀ wanted : String, (cases.map (Case.renumber pair.move)).any
          (·.label == wanted) = cases.any (·.label == wanted) := by
        intro wanted
        rw [List.any_map]
        rfl
      simp only [List.length_map, hlabels]
      refine Follows.bind ((hc.resolve _ _ _).weaken fun arena hroom => Room.of_le hroom ?_)
        (((hc.steady.resolve _ _ _).frame Room.mono).weaken (fun _ h => ⟨trivial, h⟩)
          fun _ _ h => h.2) fun model => ?_
      · simp only at hsize
        omega
      · have hnext := fun label context => ih (cases ++ [⟨label, context, model⟩]) hrest
        simp only [List.map_append] at hnext
        exact hnext _ _

theorem buildUnion_follows (hc : calls.Follow pair limit other) :
    pair.Follows (pair.Room (limit + 1) trail (2 * schema.size)) (buildUnion calls trail schema pos)
      (buildUnion other trail schema pos) (Model.renumber pair.move) := by
  unfold buildUnion
  have hcases : ∀ branch ∈ schema.composition.zipIdx, branch.1 ∈ schema.composition :=
    fun branch hm => List.fst_mem_of_mem_zipIdx hm
  refine Follows.bind (unionCases_follows hc _ [] hcases) ((unionCases_steady hc.steady _ []).weaken
    (fun _ _ => by simp) fun _ _ h => h) fun cases => ?_
  rw [List.isEmpty_map]
  split
  next => exact Follows.pure rfl
  next => exact Follows.pure rfl

theorem push_follows {p : Arena → Prop} {model : Model} (hm : model.children = [])
    (scope : List String) :
    pair.Follows p (Resolving.push model scope) (Resolving.push model scope) pair.move := by
  refine ⟨fun s id after hl he => ?_, fun s t hs hr _ => .inr ⟨(t.push model scope).2, ?_, ?_⟩⟩
  · cases he
    exact pair.lost_mono hl fun name hn => hn
  · rw [← pair.place hr]
    rfl
  · have hlt : s.slots.length < (s.reserve scope).2.slots.length := Arena.lt_reserve s scope
    have hnone : (s.reserve scope).2.model? s.slots.length = none :=
      Arena.model?_reserve_self s scope
    have hfill := pair.fill (pair.reserve hr scope) hlt hnone model
    rwa [Model.renumber_of_children hm, ← pair.place hr] at hfill

theorem freeForm_follows {p : Arena → Prop} (scope : List String) :
    pair.Follows p (Resolving.freeForm scope) (Resolving.freeForm scope)
      (Resolved.renumber pair.move) :=
  (push_follows rfl scope).bind_pure fun _ => rfl

theorem buildArray_follows (hc : calls.Follow pair limit other) :
    pair.Follows (pair.Room (limit + 1) trail (2 * schema.size)) (buildArray calls trail schema pos)
      (buildArray other trail schema pos) (Model.renumber pair.move) := by
  unfold buildArray
  have hanswer : ∀ element : Resolved, Model.renumber pair.move
      (.collection (if schema.uniqueItems.getD false then .set element else .list element)) =
      .collection (if schema.uniqueItems.getD false then .set (element.renumber pair.move)
        else .list (element.renumber pair.move)) := by
    intro element
    split <;> rfl
  cases hi : schema.items with
  | none => exact (freeForm_follows pos.scope).bind_pure hanswer
  | some items =>
    have hsize := SchemaOf.size_items hi
    exact ((hc.resolve _ _ _).weaken fun arena hroom => Room.of_le hroom (by omega)).bind_pure
      hanswer

theorem buildMap_follows {value : SchemaNode} (hc : calls.Follow pair limit other)
    (hv : schema.additionalSchema? = some value) :
    pair.Follows (pair.Room (limit + 1) trail (2 * schema.size)) (buildMap calls trail value pos)
      (buildMap other trail value pos) (Model.renumber pair.move) := by
  unfold buildMap
  have hsize := SchemaOf.size_additional hv
  exact ((hc.resolve _ _ _).weaken fun arena hroom => Room.of_le hroom (by omega)).bind_pure
    fun _ => rfl

theorem form_congr {registry registry' : Registry}
    (h : registry'.openExtensions = registry.openExtensions) (schema : Schema) :
    registry'.form schema = registry.form schema := by
  unfold form
  rw [h]

theorem plainModel_congr {registry registry' : Registry}
    (h : registry'.openExtensions = registry.openExtensions) (schema : Schema) (pos : Position) :
    registry'.plainModel schema pos = registry.plainModel schema pos := by
  unfold plainModel buildEnum
  rw [h]

theorem buildForm_follows (hc : calls.Follow pair limit other) {several several' : Resolving Model}
    (hs : pair.Follows (pair.Room (limit + 1) trail (2 * schema.size)) several several'
      (Model.renumber pair.move)) (form : Form)
    (hm : ∀ value, form = .map value → schema.additionalSchema? = some value) :
    pair.Follows (pair.Room (limit + 1) trail (2 * schema.size))
      (pair.left.buildForm calls several trail schema pos form)
      (pair.right.buildForm other several' trail schema pos form) (Model.renumber pair.move) := by
  cases form with
  | merged => exact buildAllOf_follows hc
  | object => exact buildObject_follows hc
  | array => exact buildArray_follows hc
  | map value => exact buildMap_follows hc (hm value rfl)
  | union => exact buildUnion_follows hc
  | several => exact hs
  | plain =>
    simp only [buildForm, plainModel_congr pair.extensions]
    exact Follows.lift fun model hm => Model.renumber_of_children (plainModel_children hm)

/-- A place is reserved, a model is built, and the model is put at the place. -/
theorem place_follows {α : Type} {build other : Resolving Model} {answer : ModelId → α}
    {g : α → α} {weight : Nat}
    (hs : (growing pair.left).Runs (fun _ => True) build Model.Held)
    (hb : pair.Follows (pair.Room limit trail weight) build other (Model.renumber pair.move))
    (ha : ∀ id, g (answer id) = answer (pair.move id)) (scope : List String) :
    pair.Follows (pair.Room limit trail weight)
      (do
        let id ← Resolving.reserve scope
        let model ← build
        Resolving.fill id model
        pure (answer id))
      (do
        let id ← Resolving.reserve scope
        let model ← other
        Resolving.fill id model
        pure (answer id)) g := by
  refine ⟨keeps_bind (keeps_reserve _) fun id => keeps_bind hb.keeps fun model =>
    keeps_bind (keeps_fill _ _) fun _ => keeps_pure _, fun s t hsound hr hps => ?_⟩
  have hlt : s.slots.length < (s.reserve scope).2.slots.length := Arena.lt_reserve s scope
  have hnone : (s.reserve scope).2.model? s.slots.length = none :=
    Arena.model?_reserve_self s scope
  refine matches_reserve_bind ?_
  rw [pair.place hr]
  refine matches_build _ hlt hnone ((hs _ (hsound.reserve scope) trivial).weaken
    (fun _ _ h => h.2.1) fun _ _ => trivial) ?_ (ha _)
  exact hb.here _ _ (hsound.reserve scope) (pair.reserve hr scope)
    (Room.of_grows (Arena.grows_reserve s scope) hps)

theorem buildTypeUnion_follows (hc : calls.Follow pair limit other) :
    pair.Follows (pair.Room (limit + 1) trail (2 * schema.size))
      (pair.left.buildTypeUnion calls trail schema pos)
      (pair.right.buildTypeUnion other trail schema pos) (Model.renumber pair.move) := by
  unfold buildTypeUnion typeCases
  simp only [classify_eq_buildForm]
  have hnone : ∀ {arena : Arena}, Model.Held .freeForm arena :=
    fun child hchild => by simp [Model.children] at hchild
  refine Follows.bind_pure (Follows.mapM (g := Case.renumber pair.move) _ Room.mono
    (fun item _ => ?_) fun item _ => ?_) fun cases => rfl
  · obtain ⟨type, index⟩ := item
    have hsize : SchemaOf.size { schema with types := some (.single type), nullable := none } =
        schema.size := by
      rw [SchemaOf.size_eq, SchemaOf.size_eq]
    simp only [form_congr pair.extensions]
    refine place_follows (buildForm_steady hc.steady (Regime.Runs.pure fun _ _ => hnone) _) ?_
      ?_ pos.scope
    · rw [← hsize]
      exact buildForm_follows hc (Follows.pure rfl) _ fun value hv => form_eq_map hv
    · exact fun _ => rfl
  · exact (place_steady (buildForm_steady hc.steady (Regime.Runs.pure fun _ _ => hnone) _)
      pos.scope).weaken (fun _ _ => trivial) fun _ _ _ => trivial

theorem buildSchema_follows (hc : calls.Follow pair limit other) :
    pair.Follows (pair.Room (limit + 1) trail (2 * schema.size))
      (pair.left.buildSchema calls trail schema pos)
      (pair.right.buildSchema other trail schema pos) (Model.renumber pair.move) := by
  rw [buildSchema_eq_buildForm, buildSchema_eq_buildForm, form_congr pair.extensions]
  exact buildForm_follows hc (buildTypeUnion_follows hc) _ fun value hv => form_eq_map hv

theorem resolveNode_follows (hc : calls.Follow pair limit other) :
    pair.Follows (pair.Room (limit + 1) trail (2 * node.size + 1))
      (pair.left.resolveNode calls trail node pos) (pair.right.resolveNode other trail node pos)
      (Resolved.renumber pair.move) := by
  unfold resolveNode
  have hsize := node.size_bare
  simp only [SchemaNode.unwrap_node]
  cases hbare : node.bare with
  | ref path =>
    have hone := node.one_le_size
    exact (resolveRef_follows hc).weaken fun arena hroom => Room.of_le hroom (by omega)
  | inline schema =>
    rw [hbare] at hsize
    refine place_follows (hc.steady.build _ _ _) ((hc.build _ _ _).weaken fun arena hroom =>
      Room.of_le hroom ?_) ?_ pos.scope
    · unfold SchemaOf.size
      omega
    · exact fun _ => rfl

/-- Calls one level up come to the same where there is room for one level more. -/
theorem follow_succ {floor floor' : Calls} {depth depth' : Nat}
    (hc : (pair.left.callsWithin floor depth).Follow pair limit
      (pair.right.callsWithin floor' depth')) :
    (pair.left.callsWithin floor (depth + 1)).Follow pair (limit + 1)
      (pair.right.callsWithin floor' (depth' + 1)) := by
  rw [callsWithin_succ, callsWithin_succ]
  exact ⟨step_steady hc.steady, fun _ _ _ => resolveNode_follows hc,
    fun _ _ _ => buildSchema_follows hc, fun _ _ _ _ _ => mergeSchema_follows hc⟩

/-- Without room nothing is asked of the right side. -/
theorem follow_of_no_room {other' : Calls} (hc : calls.Follow pair limit other) :
    calls.Follow pair 0 other' := by
  refine ⟨hc.steady, fun trail node pos => ⟨(hc.resolve _ _ _).keeps, fun s t _ _ hroom => ?_⟩,
    fun trail schema pos => ⟨(hc.build _ _ _).keeps, fun s t _ _ hroom => ?_⟩,
    fun trail schema pointer pos merged => ⟨(hc.merge _ _ _ _ _).keeps, fun s t _ _ hroom => ?_⟩⟩
  · unfold Pairing.Room at hroom
    omega
  · have hone := (SchemaNode.inline schema).one_le_size
    unfold Pairing.Room SchemaOf.size at hroom
    omega
  · have hone := (SchemaNode.inline schema).one_le_size
    have hroom := hroom.2
    unfold Pairing.Room SchemaOf.size at hroom
    omega

/-- Calls come to the same where they may be nested as deep as they go on both sides. -/
theorem follow_within {floor floor' : Calls} (hf : floor.Follow pair 0 floor') :
    ∀ limit depth depth' : Nat, limit ≤ depth → limit ≤ depth' →
      (pair.left.callsWithin floor depth).Follow pair limit
        (pair.right.callsWithin floor' depth') := by
  have hzero : ∀ depth depth', (pair.left.callsWithin floor depth).Follow pair 0
      (pair.right.callsWithin floor' depth') := by
    intro depth
    induction depth with
    | zero =>
      intro depth'
      rw [callsWithin_zero]
      exact follow_of_no_room hf
    | succ depth ih => exact fun depth' => follow_of_no_room (follow_succ (ih depth'))
  intro limit
  induction limit with
  | zero => exact fun depth depth' _ _ => hzero depth depth'
  | succ limit ih =>
    intro depth depth' hd hd'
    cases depth with
    | zero => omega
    | succ depth =>
      cases depth' with
      | zero => omega
      | succ depth' => exact follow_succ (ih depth depth' (by omega) (by omega))

theorem noCalls_follow (hl : pair.lenient) (other : Calls) : noCalls.Follow pair limit other :=
  ⟨noCalls_steady, fun _ _ _ => ⟨keeps_throw _, fun _ _ _ _ _ => matches_of_lenient hl⟩,
    fun _ _ _ => ⟨keeps_throw _, fun _ _ _ _ _ => matches_of_lenient hl⟩,
    fun _ _ _ _ _ => ⟨keeps_throw _, fun _ _ _ _ _ => matches_of_lenient hl⟩⟩

/-- Where the left side may fail, calls come to the same where those on the right side may be nested
as deep as they go. -/
theorem follow_of_lenient (hl : pair.lenient) (floor : Calls) (depth : Nat) :
    ∀ limit depth' : Nat, limit ≤ depth' →
      (pair.left.callsWithin noCalls depth).Follow pair limit
        (pair.right.callsWithin floor depth') := by
  induction depth with
  | zero =>
    intro limit depth' _
    rw [callsWithin_zero]
    exact noCalls_follow hl _
  | succ depth ih =>
    intro limit depth' hd'
    cases limit with
    | zero => exact follow_of_no_room (follow_succ (ih 0 depth' (Nat.zero_le _)))
    | succ limit =>
      cases depth' with
      | zero => omega
      | succ depth' => exact follow_succ (ih limit depth' (by omega))

theorem resolve_follows_of_lenient (hl : pair.lenient) :
    pair.Follows (fun _ => True) (pair.left.resolve node pos) (pair.right.resolve node pos)
      (Resolved.renumber pair.move) := by
  have hc := follow_of_lenient hl noCalls (pair.left.budget node.size) _ _
    (Nat.le_refl (pair.right.budget node.size))
  exact (hc.resolve {} node pos).weaken fun arena _ => depth_le_budget node.size

theorem component_follows_of_lenient (hl : pair.lenient) :
    pair.Follows (fun _ => True) (pair.left.component name) (pair.right.component name)
      pair.move := by
  have hc := follow_of_lenient hl noCalls (pair.left.budget 1) _ _
    (Nat.le_refl (pair.right.budget 1))
  refine (componentId_follows hc).weaken fun arena _ => ?_
  have hbudget : pair.right.depth arena {} + 2 * 1 + 1 ≤ pair.right.budget 1 := depth_le_budget 1
  unfold Pairing.Room
  omega

end Registry

end ApiAtlas
