import ApiAtlas.Resolve.Schema

namespace ApiAtlas

/-- A relation between the work of two resolvers, for what each of them says is being followed. All
that a resolver does by itself keeps to it. -/
structure Simulation (m n : Type → Type) (τ σ : Type)
    [Monad m] [MonadExcept ResolveError m] [MonadState Arena m] [MonadLiftT (Except ResolveError) m]
    [Following m τ]
    [Monad n] [MonadExcept ResolveError n] [MonadState Arena n] [MonadLiftT (Except ResolveError) n]
    [Following n σ] where
  same : {α : Type} → τ → σ → m α → n α → Prop
  pure : ∀ {α : Type} (t : τ) (s : σ) (a : α), same t s (pure a) (pure a)
  bind : ∀ {α β : Type} {t : τ} {s : σ} {work : m α} {work' : n α} {next : α → m β}
    {next' : α → n β}, same t s work work' → (∀ a, same t s (next a) (next' a)) →
      same t s (work >>= next) (work' >>= next')
  throw : ∀ {α : Type} (t : τ) (s : σ) (error : ResolveError),
    same t s (throw error : m α) (throw error)
  lift : ∀ {α : Type} (t : τ) (s : σ) (result : Except ResolveError α),
    same t s (liftM result : m α) (liftM result)
  get : ∀ (t : τ) (s : σ), same t s (MonadState.get : m Arena) MonadState.get
  modifyGet : ∀ {α : Type} (t : τ) (s : σ) (change : Arena → α × Arena),
    same t s (modifyGet change : m α) (modifyGet change)
  aliases : ∀ (t : τ) (s : σ), same t s (Following.aliases t : m _) (Following.aliases s)
  inheriting : ∀ (t : τ) (s : σ), same t s (Following.inheriting t : m _) (Following.inheriting s)
  followAlias : ∀ {α : Type} (t : τ) (s : σ) (name : String) {work : τ → m α} {work' : σ → n α},
    (∀ t s, same t s (work t) (work' s)) →
      same t s (Following.followAlias t name work) (Following.followAlias s name work')
  inherit : ∀ {α : Type} (t : τ) (s : σ) (name : String) {work : τ → m α} {work' : σ → n α},
    (∀ t s, same t s (work t) (work' s)) →
      same t s (Following.inherit t name work) (Following.inherit s name work')
  afresh : ∀ {α : Type} (t : τ) (s : σ) {work : τ → m α} {work' : σ → n α},
    (∀ t s, same t s (work t) (work' s)) →
      same t s (Following.afresh t work) (Following.afresh s work')

variable {m n : Type → Type} {τ σ : Type}
  [Monad m] [MonadExcept ResolveError m] [MonadState Arena m] [MonadLiftT (Except ResolveError) m]
  [Following m τ]
  [Monad n] [MonadExcept ResolveError n] [MonadState Arena n] [MonadLiftT (Except ResolveError) n]
  [Following n σ]

namespace Simulation

/-- The calls of one resolver do what those of the other do. -/
structure Relates (sim : Simulation m n τ σ) (calls : Calls m τ) (calls' : Calls n σ) : Prop where
  resolve : ∀ t s node pos, sim.same t s (calls.resolve t node pos) (calls'.resolve s node pos)
  build : ∀ t s schema pos, sim.same t s (calls.build t schema pos) (calls'.build s schema pos)
  merge : ∀ t s schema pointer pos merged, sim.same t s (calls.merge t schema pointer pos merged)
    (calls'.merge s schema pointer pos merged)

variable {sim : Simulation m n τ σ} {calls : Calls m τ} {calls' : Calls n σ} {t : τ} {s : σ}
  {α β : Type}

theorem either {c : Prop} [Decidable c] {work other : m α} {work' other' : n α}
    (h : sim.same t s work work') (ho : sim.same t s other other') :
    sim.same t s (if c then work else other) (if c then work' else other') := by
  split
  next => exact h
  next => exact ho

/-- What fails on a condition, and goes on otherwise. -/
theorem refuse {c : Prop} [Decidable c] {rest : m α} {rest' : n α} (error : ResolveError)
    (h : sim.same t s rest rest') :
    sim.same t s (if c then (MonadExcept.throw error : m PUnit) >>= fun _ => rest else rest)
      (if c then (MonadExcept.throw error : n PUnit) >>= fun _ => rest' else rest') :=
  either (sim.bind (sim.throw t s error) fun _ => h) h

theorem mapM {each : α → m β} {each' : α → n β} (items : List α)
    (h : ∀ item, sim.same t s (each item) (each' item)) :
    sim.same t s (items.mapM each) (items.mapM each') := by
  have hloop : ∀ (items : List α) (done : List β),
      sim.same t s (List.mapM.loop each items done) (List.mapM.loop each' items done) := by
    intro items
    induction items with
    | nil => exact fun done => sim.pure t s done.reverse
    | cons item rest ih => exact fun done => sim.bind (h item) fun b => ih (b :: done)
  exact hloop items []

theorem foldlM {step : β → α → m β} {step' : β → α → n β} (items : List α)
    (h : ∀ b item, sim.same t s (step b item) (step' b item)) (start : β) :
    sim.same t s (items.foldlM step start) (items.foldlM step' start) := by
  induction items generalizing start with
  | nil => exact sim.pure t s start
  | cons item rest ih => exact sim.bind (h start item) ih

theorem reserve (scope : List String) :
    sim.same t s (Resolving.reserve scope) (Resolving.reserve scope) :=
  sim.modifyGet t s _

theorem fill (id : ModelId) (model : Model) :
    sim.same t s (Resolving.fill id model) (Resolving.fill id model) :=
  sim.modifyGet t s _

theorem remember (name : String) (id : ModelId) :
    sim.same t s (modify fun arena => arena.remember name id)
      (modify fun arena => arena.remember name id) :=
  sim.modifyGet t s _

theorem push (model : Model) (scope : List String) :
    sim.same t s (Resolving.push model scope) (Resolving.push model scope) :=
  sim.modifyGet t s _

theorem freeForm (scope : List String) :
    sim.same t s (Resolving.freeForm scope) (Resolving.freeForm scope) :=
  sim.bind (push Model.freeForm scope) fun _ => sim.pure t s _

/-- A place is reserved, a model is built, and the model is put at the place. -/
theorem place {build : m Model} {build' : n Model} (h : sim.same t s build build')
    (scope : List String) (answer : ModelId → α) :
    sim.same t s
      (do
        let id ← Resolving.reserve scope
        let model ← build
        Resolving.fill id model
        Pure.pure (answer id))
      (do
        let id ← Resolving.reserve scope
        let model ← build'
        Resolving.fill id model
        Pure.pure (answer id)) :=
  sim.bind (reserve scope) fun id => sim.bind h fun model => sim.bind (fill id model) fun _ =>
    sim.pure t s _

end Simulation

namespace Registry

open Simulation

variable {sim : Simulation m n τ σ} {registry : Registry} {calls : Calls m τ} {calls' : Calls n σ}
  {t : τ} {s : σ} {schema : Schema} {pos : Position} {merged : Merged} {path location : String}

theorem componentId_same (h : sim.Relates calls calls') (name reference : String) :
    sim.same t s (registry.componentId calls t name reference location)
      (registry.componentId calls' s name reference location) := by
  unfold componentId
  refine sim.bind (sim.get t s) fun arena => ?_
  cases Entries.get? arena.memo name with
  | some id => exact sim.pure t s id
  | none =>
    refine refuse _ (sim.bind (sim.aliases t s) fun aliases => refuse _ ?_)
    cases Entries.get? registry.schemas name with
    | none => exact sim.throw t s _
    | some body =>
      simp only
      cases (body.unwrap (Section.schemas.pointer name)).node with
      | ref path =>
        refine sim.bind (sim.followAlias t s name fun t s => h.resolve t s _ _) fun target => ?_
        exact sim.bind (remember name target.id) fun _ => sim.pure t s _
      | inline schema =>
        refine sim.bind (reserve []) fun id => sim.bind (remember name id) fun _ => ?_
        refine sim.bind (sim.afresh t s fun t s => h.build t s _ _) fun model => ?_
        exact sim.bind (fill id model) fun _ => sim.pure t s id

theorem resolveRef_same (h : sim.Relates calls calls') :
    sim.same t s (registry.resolveRef calls t path location)
      (registry.resolveRef calls' s path location) :=
  sim.bind (sim.lift t s _) fun name => sim.bind (componentId_same h name path) fun _ =>
    sim.pure t s _

theorem resolveProperty_same (h : sim.Relates calls calls') (parent name : String)
    (node : SchemaNode) :
    sim.same t s (resolveProperty calls t parent pos name node)
      (resolveProperty calls' s parent pos name node) :=
  sim.bind (h.resolve t s node _) fun _ => sim.pure t s _

theorem buildObject_same (h : sim.Relates calls calls') :
    sim.same t s (buildObject calls t schema pos) (buildObject calls' s schema pos) :=
  sim.bind (mapM schema.properties fun (name, node) =>
    sim.bind (resolveProperty_same h pos.pointer name node) fun _ => sim.pure t s _)
      fun _ => sim.pure t s _

theorem mergeUnfinished_same (h : sim.Relates calls calls') :
    sim.same t s (registry.mergeUnfinished calls t path location pos merged)
      (registry.mergeUnfinished calls' s path location pos merged) := by
  unfold mergeUnfinished
  refine sim.bind (sim.lift t s _) fun (name, body) => ?_
  refine sim.bind (sim.inheriting t s) fun inheriting => refuse _ (refuse _ ?_)
  exact sim.inherit t s name fun t s => h.merge t s _ _ _ _

theorem mergeComponent_same (h : sim.Relates calls calls') :
    sim.same t s (registry.mergeComponent calls t path location pos merged)
      (registry.mergeComponent calls' s path location pos merged) := by
  unfold mergeComponent
  refine sim.bind (resolveRef_same h) fun target => sim.bind (sim.get t s) fun arena => ?_
  split
  next => exact sim.pure t s _
  next => exact sim.pure t s _
  next => exact sim.throw t s _
  next => exact mergeUnfinished_same h

theorem mergeBranch_same (h : sim.Relates calls calls') (pointer : String)
    (branch : SchemaNode × Nat) :
    sim.same t s (registry.mergeBranch calls t pointer pos merged branch)
      (registry.mergeBranch calls' s pointer pos merged branch) := by
  obtain ⟨node, index⟩ := branch
  unfold mergeBranch
  cases node with
  | ref path => exact mergeComponent_same h
  | inline schema =>
    exact either (sim.pure t s _) (either (h.merge t s _ _ _ _) (sim.throw t s _))

theorem mergeSchema_same (h : sim.Relates calls calls') (pointer : String) :
    sim.same t s (registry.mergeSchema calls t schema pointer pos merged)
      (registry.mergeSchema calls' s schema pointer pos merged) := by
  unfold mergeSchema
  refine sim.bind (foldlM _ (fun merged branch => mergeBranch_same h pointer branch) merged)
    fun merged => ?_
  refine sim.bind (foldlM _ (fun merged (name, node) => ?_) _) fun merged => sim.pure t s _
  exact sim.bind (resolveProperty_same h pointer name node) fun property => sim.pure t s _

theorem buildAllOf_same (h : sim.Relates calls calls') :
    sim.same t s (registry.buildAllOf calls t schema pos)
      (registry.buildAllOf calls' s schema pos) := by
  unfold buildAllOf
  refine refuse _ (sim.bind (mergeSchema_same h pos.pointer) fun merged => ?_)
  exact either (sim.pure t s _) (sim.pure t s _)

theorem unionCases_same (h : sim.Relates calls calls') (branches : List (SchemaNode × Nat))
    (cases : List Case) :
    sim.same t s (unionCases calls t schema pos branches cases)
      (unionCases calls' s schema pos branches cases) := by
  induction branches generalizing cases with
  | nil => exact sim.pure t s cases
  | cons branch rest ih =>
    obtain ⟨node, index⟩ := branch
    rw [unionCases, unionCases]
    exact either (ih cases) (sim.bind (h.resolve t s node _) fun model => ih _)

theorem buildUnion_same (h : sim.Relates calls calls') :
    sim.same t s (buildUnion calls t schema pos) (buildUnion calls' s schema pos) :=
  sim.bind (unionCases_same h _ []) fun _ => either (sim.pure t s _) (sim.pure t s _)

theorem classify_same (h : sim.Relates calls calls') {several : m Model} {several' : n Model}
    (hs : sim.same t s several several') :
    sim.same t s (registry.classify calls several t schema pos)
      (registry.classify calls' several' s schema pos) := by
  unfold classify
  simp only
  refine either (buildAllOf_same h) (either (buildObject_same h) (either ?_ ?_))
  · cases schema.items with
    | none => exact sim.bind (freeForm pos.scope) fun _ => sim.pure t s _
    | some items => exact sim.bind (h.resolve t s items _) fun _ => sim.pure t s _
  · cases schema.additionalSchema? with
    | some value => exact sim.bind (h.resolve t s value _) fun _ => sim.pure t s _
    | none =>
      cases schema.openStrings? with
      | some values => exact sim.pure t s _
      | none =>
        refine either (buildUnion_same h) ?_
        cases schema.enumSource? registry.openExtensions with
        | some values => exact sim.lift t s _
        | none =>
          refine either (sim.pure t s _) ?_
          split
          next => exact sim.pure t s _
          next type _ => cases type.primitiveKind? <;> exact sim.pure t s _
          next => exact hs

theorem typeCases_same (h : sim.Relates calls calls') (types : List (SchemaType × Nat)) :
    sim.same t s (registry.typeCases calls t schema pos types)
      (registry.typeCases calls' s schema pos types) :=
  mapM types fun (_, _) => place (classify_same h (sim.pure t s _)) pos.scope _

theorem buildTypeUnion_same (h : sim.Relates calls calls') :
    sim.same t s (registry.buildTypeUnion calls t schema pos)
      (registry.buildTypeUnion calls' s schema pos) :=
  sim.bind (typeCases_same h _) fun _ => sim.pure t s _

theorem resolveNode_same (h : sim.Relates calls calls') (node : SchemaNode) :
    sim.same t s (registry.resolveNode calls t node pos)
      (registry.resolveNode calls' s node pos) := by
  unfold resolveNode
  simp only
  cases (node.unwrap pos.pointer).node with
  | ref path => exact resolveRef_same h
  | inline schema => exact place (h.build t s schema _) pos.scope _

theorem step_relates (h : sim.Relates calls calls') :
    sim.Relates (registry.step calls) (registry.step calls') :=
  ⟨fun _ _ node _ => resolveNode_same h node,
    fun _ _ _ _ => classify_same h (buildTypeUnion_same h),
    fun _ _ _ pointer _ _ => mergeSchema_same h pointer⟩

/-- Calls nested to any depth keep to the relation where those at the floor do. -/
theorem callsWithin_relates {floor : Calls m τ} {floor' : Calls n σ}
    (h : sim.Relates floor floor') (depth : Nat) :
    sim.Relates (registry.callsWithin floor depth) (registry.callsWithin floor' depth) := by
  induction depth with
  | zero =>
    rw [callsWithin_zero, callsWithin_zero]
    exact h
  | succ depth ih =>
    rw [callsWithin_succ, callsWithin_succ]
    exact step_relates ih

theorem failing_relates (sim : Simulation m n τ σ) : sim.Relates Calls.failing Calls.failing :=
  ⟨fun t s _ _ => sim.throw t s _, fun t s _ _ => sim.throw t s _,
    fun t s _ _ _ _ => sim.throw t s _⟩

end Registry

end ApiAtlas
