import ApiAtlas.Proofs.EntryLookup
import ApiAtlas.Resolve.Arena

namespace ApiAtlas

namespace Resolving

variable {α β : Type}

/-- What a piece of work comes to, and the arena that it leaves. -/
def outcome (work : Resolving α) (arena : Arena) : Except ResolveError α × Arena :=
  work.run.run arena

theorem outcome_modifyGet (change : Arena → α × Arena) (arena : Arena) :
    outcome (modifyGet change) arena = (.ok (change arena).1, (change arena).2) := rfl

theorem outcome_lift (result : Except ResolveError α) (arena : Arena) :
    outcome (liftM result) arena = (result, arena) := by
  cases result <;> rfl

theorem outcome_bind (work : Resolving α) (next : α → Resolving β) (arena : Arena) :
    outcome (work >>= next) arena =
      match outcome work arena with
      | (.ok a, after) => outcome (next a) after
      | (.error error, after) => (.error error, after) := by
  simp only [outcome, ExceptT.run_bind, StateT.run_bind]
  cases h : work.run.run arena with
  | mk result after => cases result <;> rfl

theorem outcome_bind_eq_ok {work : Resolving α} {next : α → Resolving β}
    {arena after : Arena} {b : β} : outcome (work >>= next) arena = (.ok b, after) ↔
    ∃ a middle, outcome work arena = (.ok a, middle) ∧ outcome (next a) middle = (.ok b, after) := by
  rw [outcome_bind]
  obtain ⟨result, middle⟩ := outcome work arena
  cases result <;> simp

theorem outcome_pure_eq_ok {arena after : Arena} {a b : α} :
    outcome (pure a) arena = (.ok b, after) ↔ a = b ∧ arena = after := by
  change (Except.ok a, arena) = (.ok b, after) ↔ _
  simp

theorem outcome_get_bind (rest : Arena → Resolving β) (arena : Arena) :
    outcome (get >>= rest) arena = outcome (rest arena) arena := rfl

theorem attempt_eq (work : Resolving α) (arena : Arena) :
    attempt work arena =
      match outcome work arena with
      | (.ok a, after) => (.ok a, after)
      | (.error error, after) => (.error error, after.rollback arena.checkpoint) := rfl

theorem attempt_eq_ok {work : Resolving α} {arena after : Arena} {a : α} :
    attempt work arena = (.ok a, after) ↔ outcome work arena = (.ok a, after) := by
  rw [attempt_eq]
  cases outcome work arena with
  | mk result last => cases result <;> simp

theorem outcome_of_attempt_error {work : Resolving α} {arena after : Arena} {error : ResolveError}
    (he : attempt work arena = (.error error, after)) :
    ∃ last, outcome work arena = (.error error, last) := by
  rw [attempt_eq] at he
  cases ho : outcome work arena with
  | mk result last =>
    rw [ho] at he
    cases result with
    | ok a => cases he
    | error other =>
      cases he
      exact ⟨last, rfl⟩

/-- Work from an arena either comes to a result with `post`, or fails and leaves an arena with
`left`. -/
def Ensures (work : Resolving α) (arena : Arena) (post : α → Arena → Prop)
    (left : Arena → Prop) : Prop :=
  match outcome work arena with
  | (.ok a, after) => post a after
  | (.error _, after) => left after

section
variable {work : Resolving α} {next : α → Resolving β} {arena : Arena}
  {post weaker mid : α → Arena → Prop} {left wider : Arena → Prop} {last : β → Arena → Prop}

theorem ensures_iff : Ensures work arena post left ↔
    (∀ a after, outcome work arena = (.ok a, after) → post a after) ∧
      ∀ error after, outcome work arena = (.error error, after) → left after := by
  unfold Ensures
  cases outcome work arena with
  | mk result after => cases result <;> simp

theorem Ensures.weaken (h : Ensures work arena post left)
    (hpost : ∀ a after, post a after → weaker a after)
    (hleft : ∀ after, left after → wider after) : Ensures work arena weaker wider := by
  rw [ensures_iff] at h ⊢
  exact ⟨fun a after he => hpost a after (h.1 a after he), fun error after he =>
    hleft after (h.2 error after he)⟩

theorem Ensures.and {post' : α → Arena → Prop} {left' : Arena → Prop}
    (h : Ensures work arena post left) (h' : Ensures work arena post' left') :
    Ensures work arena (fun a after => post a after ∧ post' a after)
      (fun after => left after ∧ left' after) := by
  rw [ensures_iff] at h h' ⊢
  exact ⟨fun a after he => ⟨h.1 a after he, h'.1 a after he⟩, fun error after he =>
    ⟨h.2 error after he, h'.2 error after he⟩⟩

theorem ensures_true : Ensures work arena (fun _ _ => True) fun _ => True :=
  ensures_iff.mpr ⟨fun _ _ _ => trivial, fun _ _ _ => trivial⟩

theorem ensures_pure {a : α} (h : post a arena) : Ensures (pure a) arena post left := h

theorem ensures_throw {error : ResolveError} (h : left arena) :
    Ensures (throw error) arena post left := h

theorem ensures_bind (hw : Ensures work arena mid left)
    (hn : ∀ a after, mid a after → Ensures (next a) after last left) :
    Ensures (work >>= next) arena last left := by
  unfold Ensures at hw ⊢
  rw [outcome_bind]
  cases h : outcome work arena with
  | mk result after =>
    rw [h] at hw
    cases result with
    | ok a => exact hn a after hw
    | error error => exact hw

theorem ensures_get_bind {rest : Arena → Resolving β} (h : Ensures (rest arena) arena last left) :
    Ensures (get >>= rest) arena last left := h

theorem ensures_modify_bind {change : Arena → Arena} {rest : Unit → Resolving β}
    (h : Ensures (rest ()) (change arena) last left) :
    Ensures (modify change >>= rest) arena last left := h

theorem ensures_reserve_bind {scope : List String} {rest : ModelId → Resolving β}
    (h : Ensures (rest arena.slots.length) (arena.reserve scope).2 last left) :
    Ensures (reserve scope >>= rest) arena last left := h

theorem ensures_fill_bind {id : ModelId} {model : Model} {rest : Unit → Resolving β}
    (h : Ensures (rest ()) (arena.fill id model) last left) :
    Ensures (fill id model >>= rest) arena last left := h

theorem ensures_lift {result : Except ResolveError α} (hok : ∀ a, result = .ok a → post a arena)
    (herror : ∀ error, result = .error error → left arena) :
    Ensures (liftM result) arena post left := by
  unfold Ensures
  rw [outcome_lift]
  cases result with
  | ok a => exact hok a rfl
  | error error => exact herror error rfl

end

end Resolving

/-- What work may rely on before it starts, what it has to leave when it comes to a result, and what
it may leave when it fails. -/
structure Regime where
  holds : Arena → Prop
  leads : Arena → Arena → Prop
  fails : Arena → Arena → Prop
  refl : ∀ arena, leads arena arena
  trans : ∀ {first second third}, leads first second → leads second third → leads first third
  fails_after : ∀ {first second third}, leads first second → fails second third →
    fails first third

namespace Regime

variable {α β : Type} {regime : Regime} {p stronger k : Arena → Prop} {work : Resolving α}
  {next : α → Resolving β} {q weaker m : α → Arena → Prop} {last : β → Arena → Prop}

/-- Work keeps to a regime, from `p` to `q`. -/
def Runs (regime : Regime) (p : Arena → Prop) (work : Resolving α)
    (q : α → Arena → Prop) : Prop :=
  ∀ arena, regime.holds arena → p arena →
    work.Ensures arena (fun a after => regime.holds after ∧ regime.leads arena after ∧ q a after)
      (regime.fails arena)

theorem Runs.weaken (h : regime.Runs p work q) (hpre : ∀ arena, stronger arena → p arena)
    (hpost : ∀ a after, q a after → weaker a after) : regime.Runs stronger work weaker :=
  fun arena hh hs => (h arena hh (hpre arena hs)).weaken
    (fun a after hp => ⟨hp.1, hp.2.1, hpost a after hp.2.2⟩) fun _ hl => hl

theorem Runs.pure {a : α} (h : ∀ arena, p arena → q a arena) :
    regime.Runs p (pure a) q :=
  fun arena hh hp => Resolving.ensures_pure ⟨hh, regime.refl arena, h arena hp⟩

theorem Runs.throw {error : ResolveError} (h : ∀ arena, p arena → regime.fails arena arena) :
    regime.Runs p (throw error) q :=
  fun arena _ hp => Resolving.ensures_throw (h arena hp)

theorem Runs.lift {result : Except ResolveError α}
    (hok : ∀ a arena, result = .ok a → p arena → q a arena)
    (herror : ∀ error arena, result = .error error → p arena → regime.fails arena arena) :
    regime.Runs p (liftM result) q :=
  fun arena hh hp => Resolving.ensures_lift
    (fun a he => ⟨hh, regime.refl arena, hok a arena he hp⟩)
    fun error he => herror error arena he hp

theorem Runs.bind (hw : regime.Runs p work m) (hn : ∀ a, regime.Runs (m a) (next a) last) :
    regime.Runs p (work >>= next) last := by
  intro arena hh hp
  refine Resolving.ensures_bind (hw arena hh hp) fun a after hm => ?_
  refine (hn a after hm.1 hm.2.2).weaken (fun b final hl => ?_) fun final hl => ?_
  · exact ⟨hl.1, regime.trans hm.2.1 hl.2.1, hl.2.2⟩
  · exact regime.fails_after hm.2.1 hl

theorem Runs.lift_bind {result : Except ResolveError α}
    (hok : ∀ a, result = .ok a → regime.Runs p (next a) last)
    (herror : ∀ error arena, result = .error error → p arena → regime.fails arena arena) :
    regime.Runs p (liftM result >>= next) last := by
  intro arena hh hp
  unfold Resolving.Ensures
  rw [Resolving.outcome_bind, Resolving.outcome_lift]
  cases hr : result with
  | ok a => exact hok a hr arena hh hp
  | error error => exact herror error arena hr hp

/-- What the regime keeps true is still true after the work. -/
theorem Runs.frame (h : regime.Runs p work q)
    (hk : ∀ {before after}, regime.leads before after → k before → k after) :
    regime.Runs (fun arena => p arena ∧ k arena) work
      (fun a after => q a after ∧ k after) :=
  fun arena hh hp => (h arena hh hp.1).weaken
    (fun _ _ hq => ⟨hq.1, hq.2.1, hq.2.2, hk hq.2.1 hp.2⟩) fun _ hl => hl

/-- What work starts from is still true after it where the regime keeps it true. -/
theorem Runs.kept (h : regime.Runs p work q)
    (hk : ∀ {before after}, regime.leads before after → p before → p after) :
    regime.Runs p work (fun a after => q a after ∧ p after) :=
  (h.frame hk).weaken (fun _ hp => ⟨hp, hp⟩) fun _ _ hq => hq

theorem Runs.foldlM {γ : Type} {step : β → γ → Resolving β} {i : List γ → β → Arena → Prop}
    (items : List γ)
    (hs : ∀ done item rest, items = done ++ item :: rest →
      ∀ b, regime.Runs (i done b) (step b item) (i (done ++ [item]))) (b : β) :
    regime.Runs (i [] b) (items.foldlM step b) (i items) := by
  suffices hrest : ∀ rest done b, items = done ++ rest →
      regime.Runs (i done b) (rest.foldlM step b) (i items) from hrest items [] b rfl
  intro rest
  induction rest with
  | nil =>
    intro done b he
    rw [List.append_nil] at he
    rw [List.foldlM_nil]
    exact Runs.pure fun arena hi => he ▸ hi
  | cons item rest ih =>
    intro done b he
    rw [List.foldlM_cons]
    exact (hs done item rest he b).bind fun b' => ih (done ++ [item]) b' (by simp [he])

theorem Runs.mapM {γ : Type} {each : γ → Resolving β} {q : γ → β → Arena → Prop}
    (items : List γ)
    (hpre : ∀ {before after}, regime.leads before after → p before → p after)
    (hpost : ∀ {item b before after}, regime.leads before after → q item b before →
      q item b after)
    (he : ∀ item ∈ items, regime.Runs p (each item) (q item)) :
    regime.Runs p (items.mapM each)
      (fun results after => List.Forall₂ (fun item b => q item b after) items results) := by
  induction items with
  | nil =>
    rw [List.mapM_nil]
    exact Runs.pure fun arena _ => .nil
  | cons item rest ih =>
    rw [List.mapM_cons]
    refine ((he item List.mem_cons_self).kept hpre).bind fun b => ?_
    have hrest := (ih fun other ho => he other (List.mem_cons_of_mem _ ho)).frame
      (k := q item b) hpost
    refine (hrest.weaken (fun _ hp => ⟨hp.2, hp.1⟩) fun _ _ hq => hq).bind fun bs => ?_
    exact Runs.pure fun arena hp => .cons hp.2 hp.1

theorem Runs.mapM_true {γ : Type} {each : γ → Resolving β} {items : List γ}
    (he : ∀ item ∈ items, regime.Runs (fun _ => True) (each item) fun _ _ => True) :
    regime.Runs (fun _ => True) (items.mapM each) fun _ _ => True :=
  (Runs.mapM (q := fun _ _ _ => True) items (fun _ h => h) (fun _ h => h) he).weaken
    (fun _ h => h) fun _ _ _ => trivial

theorem Runs.foldlM_true {γ : Type} {step : β → γ → Resolving β} {items : List γ}
    (hs : ∀ item ∈ items, ∀ b, regime.Runs (fun _ => True) (step b item) fun _ _ => True) (b : β) :
    regime.Runs (fun _ => True) (items.foldlM step b) fun _ _ => True := by
  refine Runs.foldlM (i := fun _ _ _ => True) items (fun done item rest hsplit => ?_) b
  exact hs item (hsplit ▸ List.mem_append_right done List.mem_cons_self)

end Regime

end ApiAtlas
