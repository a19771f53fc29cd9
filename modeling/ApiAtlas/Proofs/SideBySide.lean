import ApiAtlas.Proofs.ArenaGrowth
import ApiAtlas.Proofs.Renumbering

namespace ApiAtlas

/-- How two resolutions correspond: the registries that they use, the places that the right one has
for those of the left one, and the arenas. -/
structure Pairing where
  left : Registry
  right : Registry
  move : ModelId → ModelId
  rel : Arena → Arena → Prop
  /-- The left arena is one that nothing is asked of the right resolution for. -/
  lost : Arena → Prop
  /-- Nothing is asked of the right resolution where the left one fails. -/
  lenient : Prop
  extensions : right.openExtensions = left.openExtensions
  lost_mono : ∀ {before after : Arena}, lost before →
    (∀ name, Entries.has before.memo name = true → Entries.has after.memo name = true) → lost after
  lost_lenient : ∀ {arena}, lost arena → lenient
  memo : ∀ {s t}, rel s t → ∀ name, Entries.get? t.memo name = (Entries.get? s.memo name).map move
  failed : ∀ {s t}, rel s t → ∀ name, t.failed.contains name = s.failed.contains name ∨
    lenient ∧ s.failed.contains name = true
  schemas : ∀ name, Entries.get? right.schemas name = Entries.get? left.schemas name ∨
    lenient ∧ ∀ arena : Arena, Entries.has arena.memo name = true → lost arena
  written : ∀ {s t}, rel s t → s.Sound left → ∀ {path name}, Section.schemas.named? path = some name →
    Entries.has s.memo name = true → ∀ location, lost s ∨
      right.writtenComponent (right.schemas.length + 1) [] path location =
        left.writtenComponent (left.schemas.length + 1) [] path location
  model : ∀ {s t}, rel s t → ∀ id : Nat, id < s.slots.length →
    t.model? (move id) = (s.model? id).map (Model.renumber move)
  place : ∀ {s t}, rel s t → t.slots.length = move s.slots.length
  reserve : ∀ {s t}, rel s t → ∀ scope, rel (s.reserve scope).2 (t.reserve scope).2
  remember : ∀ {s t}, rel s t → ∀ {name} {id : Nat}, (Entries.get? left.schemas name).isSome →
    name ∉ s.failed → (Entries.get? s.memo name = none ∨ Entries.get? s.memo name = some id) →
    id < s.slots.length → rel (s.remember name id) (t.remember name (move id))
  fill : ∀ {s t}, rel s t → ∀ {id : Nat}, id < s.slots.length → s.model? id = none →
    ∀ model : Model, rel (s.fill id model) (t.fill (move id) (model.renumber move))

namespace Pairing

variable {pair : Pairing} {α β : Type} {s t after : Arena} {work other : Resolving α} {g : α → α}
  {h : β → β} {next next' : α → Resolving β} {p stronger : Arena → Prop} {m : α → Arena → Prop}

/-- Work does not lead back from a lost arena. -/
def Keeps (pair : Pairing) (work : Resolving α) : Prop :=
  ∀ s a after, pair.lost s → Resolving.outcome work s = (.ok a, after) → pair.lost after

/-- From two arenas other work comes to what the work on the left comes to. -/
def Matches (pair : Pairing) (s t : Arena) (work other : Resolving α) (g : α → α) : Prop :=
  match Resolving.outcome work s with
  | (.ok a, after) => pair.lost after ∨
      ∃ after', Resolving.outcome other t = (.ok (g a), after') ∧ pair.rel after after'
  | (.error error, _) => pair.lenient ∨
      ∃ after', Resolving.outcome other t = (.error error, after')

/-- From corresponding arenas with `p` other work comes to what the work on the left comes to. -/
structure Follows (pair : Pairing) (p : Arena → Prop) (work other : Resolving α)
    (g : α → α) : Prop where
  keeps : pair.Keeps work
  here : ∀ s t, s.Sound pair.left → pair.rel s t → p s → pair.Matches s t work other g

theorem keeps_pure (a : α) : pair.Keeps (pure a) := by
  intro s b after hl he
  cases he
  exact hl

theorem keeps_throw (error : ResolveError) : pair.Keeps (throw error : Resolving α) := by
  intro s b after hl he
  cases he

theorem keeps_lift (result : Except ResolveError α) : pair.Keeps (liftM result) := by
  intro s b after hl he
  rw [Resolving.outcome_lift] at he
  cases he
  exact hl

theorem keeps_bind (hw : pair.Keeps work) (hn : ∀ a, pair.Keeps (next a)) :
    pair.Keeps (work >>= next) := by
  intro s b after hl he
  rw [Resolving.outcome_bind] at he
  cases ho : Resolving.outcome work s with
  | mk result mid =>
    rw [ho] at he
    cases result with
    | ok a => exact hn a mid b after (hw s a mid hl ho) he
    | error error => cases he

theorem keeps_get_bind {rest : Arena → Resolving β} (hr : ∀ arena, pair.Keeps (rest arena)) :
    pair.Keeps (get >>= rest) :=
  keeps_bind (fun s a after hl he => by cases he; exact hl) hr

theorem keeps_modifyGet {change : Arena → α × Arena}
    (hc : ∀ arena, (change arena).2.memo = arena.memo) : pair.Keeps (modifyGet change) := by
  intro s a after hl he
  rw [Resolving.outcome_modifyGet] at he
  cases he
  exact pair.lost_mono hl fun name hn => hc s ▸ hn

theorem keeps_reserve (scope : List String) : pair.Keeps (Resolving.reserve scope) :=
  keeps_modifyGet fun _ => rfl

theorem keeps_fill (id : ModelId) (model : Model) : pair.Keeps (Resolving.fill id model) :=
  keeps_modifyGet fun _ => rfl

theorem keeps_remember (name : String) (id : ModelId) :
    pair.Keeps (modify fun arena => arena.remember name id) := by
  intro s a after hl he
  cases he
  exact pair.lost_mono hl (s.recalls_remember name id)

theorem matches_pure {a b : α} (hab : g a = b) (hr : pair.rel s t) :
    pair.Matches s t (pure a) (pure b) g :=
  .inr ⟨t, hab ▸ rfl, hr⟩

theorem matches_throw {error : ResolveError} :
    pair.Matches s t (throw error) (throw error) g :=
  .inr ⟨t, rfl⟩

theorem matches_of_lenient {error : ResolveError} (hl : pair.lenient) :
    pair.Matches s t (throw error) other g :=
  .inl hl

/-- Where the left arena is lost nothing is asked of the right side. -/
theorem matches_of_keeps (hl : pair.lost s) (hk : pair.Keeps work) :
    pair.Matches s t work other g := by
  unfold Matches
  cases ho : Resolving.outcome work s with
  | mk result after =>
    cases result with
    | ok a => exact .inl (hk s a after hl ho)
    | error error => exact .inl (pair.lost_lenient hl)

theorem matches_bind (hw : pair.Matches s t work other g)
    (hk : ∀ a, pair.Keeps (next a))
    (hn : ∀ a after after', Resolving.outcome work s = (.ok a, after) → pair.rel after after' →
      pair.Matches after after' (next a) (next' (g a)) h) :
    pair.Matches s t (work >>= next) (other >>= next') h := by
  unfold Matches at hw ⊢
  rw [Resolving.outcome_bind, Resolving.outcome_bind]
  cases ho : Resolving.outcome work s with
  | mk result after =>
    rw [ho] at hw
    cases result with
    | ok a =>
      rcases hw with hl | ⟨after', he, hr⟩
      · simp only
        cases hb : Resolving.outcome (next a) after with
        | mk result last =>
          cases result with
          | ok b => exact .inl (hk a after b last hl hb)
          | error error => exact .inl (pair.lost_lenient hl)
      · simp only [he]
        exact hn a after after' ho hr
    | error error =>
      rcases hw with hl | ⟨after', he⟩
      · exact .inl hl
      · simp only [he]
        exact .inr ⟨after', rfl⟩

/-- What is attempted on the left with a result comes to it on the right as well. -/
theorem Follows.attempt (hw : pair.Follows p work other g) (hs : s.Sound pair.left)
    (hr : pair.rel s t) (hp : p s) {a : α} (he : Resolving.attempt work s = (.ok a, after))
    (hlost : ¬ pair.lost after) :
    ∃ after', Resolving.attempt other t = (.ok (g a), after') ∧ pair.rel after after' := by
  have hm := hw.here s t hs hr hp
  unfold Matches at hm
  rw [Resolving.attempt_eq_ok.mp he] at hm
  obtain ⟨after', hother, hrel⟩ := hm.resolve_left hlost
  exact ⟨after', Resolving.attempt_eq_ok.mpr hother, hrel⟩

theorem Follows.weaken (hw : pair.Follows p work other g)
    (hp : ∀ arena, stronger arena → p arena) : pair.Follows stronger work other g :=
  ⟨hw.keeps, fun s t hs hr hq => hw.here s t hs hr (hp s hq)⟩

theorem Follows.pure {a b : α} (hab : g a = b) : pair.Follows p (pure a) (pure b) g :=
  ⟨keeps_pure a, fun _ _ _ hr _ => matches_pure hab hr⟩

theorem Follows.throw {error : ResolveError} : pair.Follows p (throw error) (throw error) g :=
  ⟨keeps_throw error, fun _ _ _ _ _ => matches_throw⟩

theorem Follows.lift {result : Except ResolveError α} (hg : ∀ a, result = .ok a → g a = a) :
    pair.Follows p (liftM result) (liftM result) g := by
  refine ⟨keeps_lift result, fun s t _ hr _ => ?_⟩
  unfold Matches
  rw [Resolving.outcome_lift, Resolving.outcome_lift]
  cases hres : result with
  | ok a => exact .inr ⟨t, by rw [hg a hres], hr⟩
  | error error => exact .inr ⟨t, rfl⟩

/-- What comes after work that keeps to the regime of `growing` starts from what that work leaves. -/
theorem Follows.bind (hw : pair.Follows p work other g) (hs : (growing pair.left).Runs p work m)
    (hn : ∀ a, pair.Follows (m a) (next a) (next' (g a)) h) :
    pair.Follows p (work >>= next) (other >>= next') h := by
  refine ⟨keeps_bind hw.keeps fun a => (hn a).keeps, fun s t hsound hr hp => ?_⟩
  refine matches_bind (hw.here s t hsound hr hp) (fun a => (hn a).keeps) ?_
  intro a after after' ho hr'
  obtain ⟨hsound', _, hm⟩ := (Resolving.ensures_iff.mp (hs s hsound hp)).1 a after ho
  exact (hn a).here after after' hsound' hr' hm

theorem Follows.bind_pure {f f' : α → β} (hw : pair.Follows p work other g)
    (hf : ∀ a, h (f a) = f' (g a)) :
    pair.Follows p (do return f (← work)) (do return f' (← other)) h := by
  refine ⟨keeps_bind hw.keeps fun a => keeps_pure _, fun s t hsound hr hp => ?_⟩
  exact matches_bind (hw.here s t hsound hr hp) (fun a => keeps_pure _)
    fun a _ _ _ hr' => matches_pure (hf a) hr'

theorem Follows.lift_bind {result : Except ResolveError α}
    (hn : ∀ a, result = .ok a → pair.Follows p (next a) (next' a) h) :
    pair.Follows p (liftM result >>= next) (liftM result >>= next') h := by
  cases hres : result with
  | ok a => exact hn a hres
  | error error =>
    refine ⟨fun s b after _ he => ?_, fun s t _ _ _ => .inr ⟨t, rfl⟩⟩
    cases he

theorem Follows.mapM {γ : Type} {each each' : γ → Resolving α} (items : List γ)
    (hp : ∀ {before after}, (growing pair.left).leads before after → p before → p after)
    (he : ∀ item ∈ items, pair.Follows p (each item) (each' item) g)
    (hs : ∀ item ∈ items, (growing pair.left).Runs p (each item) fun _ _ => True) :
    pair.Follows p (items.mapM each) (items.mapM each') (List.map g) := by
  induction items with
  | nil => exact Follows.pure rfl
  | cons item rest ih =>
    rw [List.mapM_cons, List.mapM_cons]
    refine Follows.bind (he item List.mem_cons_self)
      ((hs item List.mem_cons_self).kept hp) fun a => ?_
    have hrest := ih (fun other ho => he other (List.mem_cons_of_mem _ ho))
      fun other ho => hs other (List.mem_cons_of_mem _ ho)
    have hsteady := Regime.Runs.mapM (q := fun _ _ _ => True) rest hp (fun _ _ => trivial)
      fun other ho => hs other (List.mem_cons_of_mem _ ho)
    exact Follows.bind (hrest.weaken fun _ hq => hq.2) (hsteady.weaken (fun _ hq => hq.2)
      fun _ _ _ => trivial) fun as => Follows.pure rfl

theorem Follows.foldlM {γ : Type} {step step' : α → γ → Resolving α} {i : α → Arena → Prop}
    (items : List γ)
    (hf : ∀ item ∈ items, ∀ a, pair.Follows (i a) (step a item) (step' (g a) item) g)
    (hs : ∀ item ∈ items, ∀ a, (growing pair.left).Runs (i a) (step a item) i) (a : α) :
    pair.Follows (i a) (items.foldlM step a) (items.foldlM step' (g a)) g := by
  induction items generalizing a with
  | nil => exact Follows.pure rfl
  | cons item rest ih =>
    rw [List.foldlM_cons, List.foldlM_cons]
    refine Follows.bind (hf item List.mem_cons_self a) (hs item List.mem_cons_self a) fun b => ?_
    exact ih (fun other ho => hf other (List.mem_cons_of_mem _ ho))
      (fun other ho => hs other (List.mem_cons_of_mem _ ho)) b

end Pairing

end ApiAtlas
