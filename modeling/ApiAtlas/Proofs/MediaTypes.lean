import ApiAtlas.Proofs.ModelStandards
import ApiAtlas.Proofs.StatusKeys
import ApiAtlas.Proofs.TransparentWrappers
import ApiAtlas.Resolve.Operation

namespace ApiAtlas

theorem isBlank_toLower : ∀ c : Char, isBlank c.toLower = isBlank c :=
  forall_char_of_capitals (fun c h => by rw [h]) (by decide)

theorem toLower_eq_semicolon : ∀ c : Char, c.toLower = ';' ↔ c = ';' :=
  forall_char_of_capitals (fun c h => by rw [h]) (by decide)

theorem map_eq_map_of_forall₂ {α β γ : Type} {f : α → γ} {g : β → γ} {left : List α}
    {right : List β} (h : List.Forall₂ (fun a b => f a = g b) left right) :
    left.map f = right.map g := by
  rw [← List.forall₂_eq_eq_eq, List.forall₂_map_left_iff, List.forall₂_map_right_iff]
  exact h

namespace Media

variable {media other : String}

/-- What a request body may be in a media type. -/
inductive Kind
  | json
  | xml
  | octetStream
  | multipart
  | other
deriving Repr, DecidableEq

/-- What a request body is in a media type. -/
def kind (media : String) : Kind :=
  if isJson media then .json
  else if isType media "application/xml" then .xml
  else if isType media "application/octet-stream" then .octetStream
  else if isType media "multipart/form-data" then .multipart
  else .other

/-- The type ends in `+json`, in small letters. -/
def Suffixed (media : String) : Prop := "+json".toList <:+ essence media

instance : Decidable (Suffixed media) :=
  inferInstanceAs (Decidable ("+json".toList <:+ essence media))

/-- The two are one text but for the case of ASCII letters. -/
def Respells (media other : String) : Prop :=
  media.toList.map Char.toLower = other.toList.map Char.toLower

instance : Decidable (Respells media other) :=
  inferInstanceAs (Decidable (media.toList.map Char.toLower = other.toList.map Char.toLower))

/-- The same contents under respelled keys. -/
def RespelledIn (content content' : Entries MediaType) : Prop :=
  List.Forall₂ (fun entry entry' => Respells entry.1 entry'.1 ∧ entry.2 = entry'.2) content content'

/-- Key by key, both spellings have the suffix or none has it. -/
def SuffixesAgree (content content' : Entries MediaType) : Prop :=
  List.Forall₂ (fun entry entry' => Suffixed entry.1 ↔ Suffixed entry'.1) content content'

theorem Respells.toLower_eq (h : Respells media other) : media.toLower = other.toLower := by
  rw [← String.toList_inj, Status.toList_toLower, Status.toList_toLower]
  exact h

theorem map_essence (media : String) : (essence media).map Char.toLower =
    trimBlanks ((media.toList.map Char.toLower).takeWhile (· ≠ ';')) := by
  have htake : (media.toList.map Char.toLower).takeWhile (· ≠ ';') =
      (media.toList.takeWhile (· ≠ ';')).map Char.toLower := by
    simp [List.takeWhile_map, Function.comp_def, toLower_eq_semicolon]
  unfold essence trimBlanks
  rw [htake]
  simp only [List.dropWhile_map, Function.comp_def, isBlank_toLower, ← List.map_reverse]

theorem Respells.isType_eq (h : Respells media other) (type : String) :
    isType media type = isType other type := by
  unfold isType sameLetters
  rw [map_essence, map_essence, h]

theorem isJson_iff : isJson media = true ↔
    isType media "application/json" = true ∨ Suffixed media := by
  rw [isJson, Bool.or_eq_true, List.isSuffixOf_iff_suffix, Suffixed]

theorem not_suffixed_of_isType (h : isType media "application/json" = true) :
    ¬ Suffixed media := by
  intro hs
  have hlower : (essence media).map Char.toLower = "application/json".toList.map Char.toLower :=
    eq_of_beq h
  have hsuffix := hs.map Char.toLower
  rw [hlower] at hsuffix
  exact absurd hsuffix (by decide)

theorem Respells.isJson_eq_iff (h : Respells media other) :
    isJson media = isJson other ↔ (Suffixed media ↔ Suffixed other) := by
  have hjson := h.isType_eq "application/json"
  rw [Bool.eq_iff_iff, isJson_iff, isJson_iff]
  cases ht : isType media "application/json" with
  | true =>
    have ho : isType other "application/json" = true := hjson ▸ ht
    simp [ho, not_suffixed_of_isType ht, not_suffixed_of_isType ho]
  | false => simp [← hjson, ht]

theorem kind_eq_json_iff : kind media = .json ↔ isJson media = true := by
  unfold kind
  cases isJson media with
  | true => exact iff_of_true rfl rfl
  | false =>
    refine iff_of_false ?_ Bool.false_ne_true
    simp only [Bool.false_eq_true, if_false]
    split
    next => nofun
    next =>
      split
      next => nofun
      next => split <;> nofun

/-- In another letter case a type stays what it is just if both spellings have the suffix or none
has it. -/
theorem Respells.kind_eq_iff (h : Respells media other) :
    kind media = kind other ↔ (Suffixed media ↔ Suffixed other) := by
  rw [← h.isJson_eq_iff]
  constructor
  · -- The suffix shows in the kind, since no other type of those told apart ends in it.
    intro hk
    rw [Bool.eq_iff_iff, ← kind_eq_json_iff, ← kind_eq_json_iff, hk]
  · intro hj
    unfold kind
    rw [hj, h.isType_eq, h.isType_eq, h.isType_eq]

end Media

/-- What a request body in one media type is. -/
def Payload.kind : Payload → Media.Kind
  | .json _ => .json
  | .xml _ => .xml
  | .octetStream => .octetStream
  | .multipart .. => .multipart
  | .other _ => .other

/-- Bodies with their keys in small letters. -/
def Bodies.folded (bodies : Bodies) : Bodies :=
  { bodies with types := bodies.types.map fun (name, body) => (name.toLower, body) }

/-- A return with its media type in small letters. -/
def ReturnType.folded (type : ReturnType) : ReturnType :=
  { type with mediaType := type.mediaType.map String.toLower }

namespace Resolving

variable {α β γ δ : Type} {work other : Resolving α} {next next' : α → Resolving β}

theorem lift_ok_bind (a : α) (next : α → Resolving β) :
    (liftM (Except.ok a : Except ResolveError α) >>= next) = next a := rfl

theorem Yields.map {p : β → Prop} {f : α → β} (h : ∀ a, p (f a)) : (f <$> work).Yields p := by
  rw [map_eq_pure_bind]
  exact Yields.last fun a => Yields.pure (h a)

theorem Agrees.map (h : work.Agrees other) (f : α → β) : (f <$> work).Agrees (f <$> other) := by
  rw [map_eq_pure_bind, map_eq_pure_bind]
  exact h.bind fun _ => Agrees.refl _

theorem map_mapM_cons (f : α → β) (each : γ → Resolving α) (item : γ) (rest : List γ) :
    List.map f <$> (item :: rest).mapM each = (do
      let first ← f <$> each item
      let others ← List.map f <$> rest.mapM each
      pure (first :: others)) := by
  simp [List.mapM_cons]

/-- Pieces of work that agree pairwise, up to what `f` forgets, agree as a whole. -/
theorem Agrees.mapM_forall₂ {each : γ → Resolving α} {each' : δ → Resolving α} {f : α → β}
    {items : List γ} {items' : List δ}
    (h : List.Forall₂ (fun item item' => (f <$> each item).Agrees (f <$> each' item')) items items') :
    (List.map f <$> items.mapM each).Agrees (List.map f <$> items'.mapM each') := by
  induction h with
  | nil => exact Agrees.refl _
  | cons hfirst _ ih =>
    rw [map_mapM_cons, map_mapM_cons]
    exact hfirst.bind fun first => ih.bind fun others => Agrees.refl _

end Resolving

open Resolving

namespace Surroundings

variable {around around' : Surroundings} {errand : Errand} {media : MediaType}
  {content content' : Entries MediaType}

/-- A request body of a kind. -/
def payloadOf (around : Surroundings) (kind : Media.Kind) (media : MediaType) (pos : Position) :
    Resolving Payload :=
  match kind with
  | .json => Payload.json <$> around.modelOrFreeForm media pos
  | .xml => Payload.xml <$> around.modelOrFreeForm media pos
  | .octetStream => pure .octetStream
  | .multipart => do
    let model ← around.optionalModel media pos
    let arena ← get
    pure (.multipart model (formFields arena model media))
  | .other => Payload.other <$> around.optionalModel media pos

theorem resolvePayload_eq (name : String) (media : MediaType) (pos : Position) :
    around.resolvePayload name media pos = around.payloadOf (Media.kind name) media pos := by
  unfold resolvePayload Media.kind
  split
  next => rw [payloadOf, map_eq_pure_bind]
  next =>
    split
    next => rw [payloadOf, map_eq_pure_bind]
    next =>
      split
      next => rfl
      next =>
        split
        next => rfl
        next => rw [payloadOf, map_eq_pure_bind]

theorem payloadOf_yields (kind : Media.Kind) (media : MediaType) (pos : Position) :
    (around.payloadOf kind media pos).Yields fun payload => payload.kind = kind := by
  cases kind with
  | json => exact Yields.map fun _ => rfl
  | xml => exact Yields.map fun _ => rfl
  | octetStream => exact Yields.pure rfl
  | multipart => exact Yields.last fun _ => Yields.last fun _ => Yields.pure rfl
  | other => exact Yields.map fun _ => rfl

theorem optionalModel_agrees (h : around'.registry = around.registry) (context : Context)
    (scope : List String) (place place' : String) :
    (around.optionalModel media ⟨context, scope, place⟩).Agrees
      (around'.optionalModel media ⟨context, scope, place'⟩) := by
  unfold optionalModel
  cases media.schema with
  | none => exact Agrees.refl _
  | some schema =>
    rw [h]
    exact (Registry.resolve_placeless schema context scope place place').map some

theorem modelOrFreeForm_agrees (h : around'.registry = around.registry) (context : Context)
    (scope : List String) (place place' : String) :
    (around.modelOrFreeForm media ⟨context, scope, place⟩).Agrees
      (around'.modelOrFreeForm media ⟨context, scope, place'⟩) := by
  unfold modelOrFreeForm
  cases media.schema with
  | none => exact Agrees.refl _
  | some schema =>
    rw [h]
    exact Registry.resolve_placeless schema context scope place place'

theorem payloadOf_agrees (h : around'.registry = around.registry) (kind : Media.Kind)
    (context : Context) (scope : List String) (place place' : String) :
    (around.payloadOf kind media ⟨context, scope, place⟩).Agrees
      (around'.payloadOf kind media ⟨context, scope, place'⟩) := by
  cases kind with
  | json => exact (modelOrFreeForm_agrees h context scope place place').map _
  | xml => exact (modelOrFreeForm_agrees h context scope place place').map _
  | octetStream => exact Agrees.refl _
  | multipart =>
    exact (optionalModel_agrees h context scope place place').bind fun model => Agrees.refl _
  | other => exact (optionalModel_agrees h context scope place place').map _

/-- A request body under a key. -/
def bodyEntry (around : Surroundings) (errand : Errand) (entry : String × MediaType) :
    Resolving (String × Body) := do
  let payload ← around.payloadOf (Media.kind entry.1) entry.2
    ⟨(Site.requestBody errand.name).context, errand.scope,
      contentPointer (below errand.pointer "requestBody") entry.1⟩
  pure (entry.1, ⟨payload, vendorExtensions entry.2.extensions⟩)

theorem resolveBody_of_follow {node : Referable RequestBody} {body : RequestBody}
    (h : node.follow .requestBodies around.components.requestBodies
      (below errand.pointer "requestBody") = .ok body) :
    around.resolveBody errand node = (do
      let types ← body.content.mapM (around.bodyEntry errand)
      pure ⟨body.required, body.description, types, vendorExtensions body.extensions⟩) := by
  unfold resolveBody
  simp only [h, resolvePayload_eq]
  rfl

theorem bodyEntry_yields (entry : String × MediaType) : (around.bodyEntry errand entry).Yields
    fun result => (result.1, result.2.payload.kind) = (entry.1, Media.kind entry.1) :=
  (payloadOf_yields _ _ _).bind fun _ hk => Yields.pure (by rw [hk])

/-- Each entry of a body is of the kind of its key. -/
theorem resolveBody_kinds {node : Referable RequestBody} {body : RequestBody}
    (h : node.follow .requestBodies around.components.requestBodies
      (below errand.pointer "requestBody") = .ok body) :
    (around.resolveBody errand node).Yields fun bodies =>
      bodies.types.map (fun entry => (entry.1, entry.2.payload.kind)) =
        body.content.map fun entry => (entry.1, Media.kind entry.1) := by
  rw [resolveBody_of_follow h]
  exact (Yields.mapM_map bodyEntry_yields body.content).bind fun types ht => Yields.pure ht

/-- Two nodes lead to one request body, but for the letter case of its keys. -/
structure RespellsBody (around around' : Surroundings) (errand : Errand)
    (node node' : Referable RequestBody) (body : RequestBody) (content' : Entries MediaType) :
    Prop where
  registry : around'.registry = around.registry
  first : node.follow .requestBodies around.components.requestBodies
    (below errand.pointer "requestBody") = .ok body
  second : node'.follow .requestBodies around'.components.requestBodies
    (below errand.pointer "requestBody") = .ok { body with content := content' }
  keys : Media.RespelledIn body.content content'

/-- Two nodes lead to one response, but for the letter case of the keys of its contents. -/
structure RespellsResponse (around around' : Surroundings) (errand : Errand) (key : String)
    (node node' : Referable Response) (response : Response) (content' : Entries MediaType) :
    Prop where
  registry : around'.registry = around.registry
  first : node.follow .responses around.components.responses
    (below (below errand.pointer "responses") (escapeToken key)) = .ok response
  second : node'.follow .responses around'.components.responses
    (below (below errand.pointer "responses") (escapeToken key)) =
      .ok { response with content := content' }
  keys : Media.RespelledIn response.content content'

/-- An entry stays of its kind just if both spellings of its key have the suffix or none has it. -/
theorem RespellsBody.kinds {node node' : Referable RequestBody} {body : RequestBody}
    (h : around.RespellsBody around' errand node node' body content') {arena arena' : Arena}
    {bodies bodies' : Bodies} {after after' : Arena}
    (ho : outcome (around.resolveBody errand node) arena = (.ok bodies, after))
    (ho' : outcome (around'.resolveBody errand node') arena' = (.ok bodies', after')) :
    List.Forall₂ (fun entry entry' => Media.Respells entry.1 entry'.1 ∧
      (entry.2.payload.kind = entry'.2.payload.kind ↔
        (Media.Suffixed entry.1 ↔ Media.Suffixed entry'.1))) bodies.types bodies'.types := by
  have hkinds := resolveBody_kinds h.first _ _ _ ho
  have hkinds' := resolveBody_kinds h.second _ _ _ ho'
  have hkeys : List.Forall₂ (fun told told' => Media.Respells told.1 told'.1 ∧
      (told.2 = told'.2 ↔ (Media.Suffixed told.1 ↔ Media.Suffixed told'.1)))
      (body.content.map fun entry => (entry.1, Media.kind entry.1))
      (content'.map fun entry => (entry.1, Media.kind entry.1)) := by
    rw [List.forall₂_map_left_iff, List.forall₂_map_right_iff]
    exact h.keys.imp fun entry entry' hrespells => ⟨hrespells.1, hrespells.1.kind_eq_iff⟩
  rw [← hkinds, ← hkinds', List.forall₂_map_left_iff, List.forall₂_map_right_iff] at hkeys
  exact hkeys

theorem bodyEntry_agrees (h : around'.registry = around.registry) {entry entry' : String × MediaType}
    (hr : Media.Respells entry.1 entry'.1) (hm : entry.2 = entry'.2)
    (hk : Media.kind entry.1 = Media.kind entry'.1) :
    ((fun result => (result.1.toLower, result.2)) <$> around.bodyEntry errand entry).Agrees
      ((fun result => (result.1.toLower, result.2)) <$> around'.bodyEntry errand entry') := by
  unfold bodyEntry
  rw [map_bind, map_bind, hm, hk]
  refine (payloadOf_agrees h _ _ _ _ _).bind fun payload => ?_
  rw [map_pure, map_pure, hr.toLower_eq]
  exact Agrees.refl _

theorem RespellsBody.agrees {node node' : Referable RequestBody} {body : RequestBody}
    (h : around.RespellsBody around' errand node node' body content')
    (hs : Media.SuffixesAgree body.content content') :
    (Bodies.folded <$> around.resolveBody errand node).Agrees
      (Bodies.folded <$> around'.resolveBody errand node') := by
  have hfolded : ∀ types : Resolving (Entries Body), (Bodies.folded <$> do
      let types ← types
      pure ⟨body.required, body.description, types, vendorExtensions body.extensions⟩) = (do
        let types ← List.map (fun result => (result.1.toLower, result.2)) <$> types
        pure ⟨body.required, body.description, types, vendorExtensions body.extensions⟩) := by
    intro types
    simp only [map_eq_pure_bind, bind_assoc, pure_bind]
    rfl
  rw [resolveBody_of_follow h.first, resolveBody_of_follow h.second, hfolded, hfolded]
  refine (Agrees.mapM_forall₂ ?_).bind fun types => Agrees.refl _
  exact h.keys.mp (fun entry entry' hrespells hsuffix => bodyEntry_agrees h.registry hrespells.1
    hrespells.2 (hrespells.1.kind_eq_iff.mpr hsuffix)) hs

/-- The place of the type in which a response is read. -/
def chosenIndex (content : Entries MediaType) : Nat :=
  (content.findIdx? fun entry => Media.isJson entry.1).getD 0

theorem getElem?_chosenIndex (content : Entries MediaType) :
    content[chosenIndex content]? = chosenContent content := by
  have hfind : (content.find? fun entry => Media.isJson entry.1) =
      (content.findIdx? fun entry => Media.isJson entry.1).bind (content[·]?) :=
    List.find?_eq_bind_findIdx?_getElem?
  unfold chosenIndex chosenContent
  rw [hfind]
  cases hi : content.findIdx? fun entry => Media.isJson entry.1 with
  | none => exact List.head?_eq_getElem?.symm
  | some index =>
    obtain ⟨hlt, -⟩ := List.findIdx?_eq_some_iff_getElem.mp hi
    simp [hlt]

theorem chosenIndex_eq (hr : Media.RespelledIn content content')
    (hs : Media.SuffixesAgree content content') : chosenIndex content = chosenIndex content' := by
  have hjson : content.map (fun entry => Media.isJson entry.1) =
      content'.map fun entry => Media.isJson entry.1 :=
    map_eq_map_of_forall₂ (hr.mp (fun entry entry' hrespells hsuffix =>
      hrespells.1.isJson_eq_iff.mpr hsuffix) hs)
  have hindex : ∀ content : Entries MediaType, chosenIndex content =
      ((content.map fun entry => Media.isJson entry.1).findIdx? id).getD 0 := by
    intro content
    rw [List.findIdx?_map]
    rfl
  rw [hindex, hindex, hjson]

theorem chosenContent_respelled (hr : Media.RespelledIn content content')
    (hs : Media.SuffixesAgree content content') :
    (chosenContent content).map (fun entry => (entry.1.toLower, entry.2)) =
      (chosenContent content').map fun entry => (entry.1.toLower, entry.2) := by
  have hsame : content.map (fun entry => (entry.1.toLower, entry.2)) =
      content'.map fun entry => (entry.1.toLower, entry.2) :=
    map_eq_map_of_forall₂ (hr.imp fun entry entry' h => Prod.ext h.1.toLower_eq h.2)
  rw [← getElem?_chosenIndex, ← getElem?_chosenIndex, chosenIndex_eq hr hs, ← List.getElem?_map,
    ← List.getElem?_map, hsame]

/-- The model of the type in which a response is read. -/
def chosenModel (around : Surroundings) (errand : Errand) (primary : Bool) (status : Status)
    (location : String) : Option (String × MediaType) → Resolving (Option Resolved)
  | some (name, media) => around.optionalModel media
    ⟨(Site.response errand.name status primary).context, errand.scope,
      contentPointer location name⟩
  | none => pure none

/-- What comes back under a status, read in a type that is chosen. -/
def returnOf (around : Surroundings) (errand : Errand) (primary : Bool) (status : Status)
    (location : String) (response : Response) (chosen : Option (String × MediaType)) :
    Resolving (Status × ReturnType) := do
  let model ← around.chosenModel errand primary status location chosen
  pure (status, {
    model
    mediaType := chosen.map Prod.fst
    description := if response.description.isEmpty then none else some response.description
    extensions := vendorExtensions response.extensions })

theorem resolveReturn_of_follow {primary : Bool} {key : String} {node : Referable Response}
    {response : Response}
    (h : node.follow .responses around.components.responses
      (below (below errand.pointer "responses") (escapeToken key)) = .ok response) :
    around.resolveReturn errand primary key node =
      match Status.parse key with
      | some status => around.returnOf errand primary status
          (below (below errand.pointer "responses") (escapeToken key)) response
          (chosenContent response.content)
      | none => throw (.schemaShape ("invalid response status " ++ key)
          (below (below errand.pointer "responses") (escapeToken key))) := by
  unfold resolveReturn
  cases Status.parse key with
  | none => rfl
  | some status =>
    simp only [h, lift_ok_bind]
    cases chosenContent response.content <;> rfl

theorem chosenModel_agrees (h : around'.registry = around.registry) {primary : Bool}
    {status : Status} {location : String} {chosen chosen' : Option (String × MediaType)}
    (hc : chosen.map (fun entry => (entry.1.toLower, entry.2)) =
      chosen'.map fun entry => (entry.1.toLower, entry.2)) :
    (around.chosenModel errand primary status location chosen).Agrees
      (around'.chosenModel errand primary status location chosen') := by
  match chosen, chosen' with
  | none, none => exact Agrees.refl _
  | none, some _ => cases hc
  | some _, none => cases hc
  | some (name, media), some (name', media') =>
    obtain rfl : media = media' := (Prod.mk.inj (Option.some.inj hc)).2
    exact optionalModel_agrees h _ _ _ _

theorem RespellsResponse.agrees {primary : Bool} {key : String} {node node' : Referable Response}
    {response : Response} (h : around.RespellsResponse around' errand key node node' response content')
    (hs : Media.SuffixesAgree response.content content') :
    (Prod.map id ReturnType.folded <$> around.resolveReturn errand primary key node).Agrees
      (Prod.map id ReturnType.folded <$> around'.resolveReturn errand primary key node') := by
  have hchosen := chosenContent_respelled h.keys hs
  have hname : ((chosenContent response.content).map Prod.fst).map String.toLower =
      ((chosenContent content').map Prod.fst).map String.toLower := by
    simpa [Function.comp_def] using congrArg (Option.map Prod.fst) hchosen
  rw [resolveReturn_of_follow h.first, resolveReturn_of_follow h.second]
  cases Status.parse key with
  | none => exact Agrees.refl _
  | some status =>
    simp only [returnOf, map_bind, map_pure, Prod.map_apply, ReturnType.folded, hname]
    exact (chosenModel_agrees h.registry hchosen).bind fun model => Agrees.refl _

/-- Respelled keys of a request body stand for the same kind of body just where both spellings have
the suffix or none has it. As long as they agree on that, all that is told of the body is the same,
and the same type of a response is read and to the same end. -/
theorem respelled_keys (around around' : Surroundings) (errand : Errand) :
    (∀ node node' body content', around.RespellsBody around' errand node node' body content' →
      (∀ arena arena' bodies bodies' after after',
        outcome (around.resolveBody errand node) arena = (.ok bodies, after) →
          outcome (around'.resolveBody errand node') arena' = (.ok bodies', after') →
            List.Forall₂ (fun entry entry' => Media.Respells entry.1 entry'.1 ∧
              (entry.2.payload.kind = entry'.2.payload.kind ↔
                (Media.Suffixed entry.1 ↔ Media.Suffixed entry'.1))) bodies.types bodies'.types) ∧
      (Media.SuffixesAgree body.content content' →
        (Bodies.folded <$> around.resolveBody errand node).Agrees
          (Bodies.folded <$> around'.resolveBody errand node'))) ∧
    ∀ primary key node node' response content',
      around.RespellsResponse around' errand key node node' response content' →
        Media.SuffixesAgree response.content content' →
          (∃ index : Nat, response.content[index]? = chosenContent response.content ∧
            content'[index]? = chosenContent content') ∧
          (Prod.map id ReturnType.folded <$> around.resolveReturn errand primary key node).Agrees
            (Prod.map id ReturnType.folded <$> around'.resolveReturn errand primary key node') := by
  refine ⟨fun node node' body content' h => ⟨fun _ _ _ _ _ _ => h.kinds, h.agrees⟩, ?_⟩
  intro primary key node node' response content' h hs
  refine ⟨⟨chosenIndex response.content, getElem?_chosenIndex _, ?_⟩, h.agrees hs⟩
  rw [chosenIndex_eq h.keys hs, getElem?_chosenIndex]

/-- Contents in two types. -/
def smallTypes : Entries MediaType := [("text/plain", {}), ("application/json", {})]

/-- The same contents, with capitals. -/
def capitalTypes : Entries MediaType := [("TEXT/PLAIN", {}), ("Application/JSON", {})]

theorem respelledIn_capitalTypes : Media.RespelledIn smallTypes capitalTypes := by
  have hplain : Media.Respells "text/plain" "TEXT/PLAIN" := by decide +kernel
  have hjson : Media.Respells "application/json" "Application/JSON" := by decide +kernel
  exact .cons ⟨hplain, rfl⟩ (.cons ⟨hjson, rfl⟩ .nil)

theorem suffixesAgree_capitalTypes : Media.SuffixesAgree smallTypes capitalTypes := by
  have hplain : Media.Suffixed "text/plain" ↔ Media.Suffixed "TEXT/PLAIN" := by decide +kernel
  have hjson : Media.Suffixed "application/json" ↔ Media.Suffixed "Application/JSON" := by
    decide +kernel
  exact .cons hplain (.cons hjson .nil)

theorem respelled_keys_capitals :
    let around : Surroundings := ⟨⟨[], []⟩, {}, {}⟩
    let errand : Errand := ⟨"addPet", [], "#"⟩
    (Bodies.folded <$> around.resolveBody errand (.inline { content := smallTypes })).Agrees
      (Bodies.folded <$> around.resolveBody errand (.inline { content := capitalTypes })) ∧
    ∃ index : Nat, smallTypes[index]? = chosenContent smallTypes ∧
      capitalTypes[index]? = chosenContent capitalTypes := by
  intro around errand
  have hbody : around.RespellsBody around errand (.inline { content := smallTypes })
      (.inline { content := capitalTypes }) { content := smallTypes } capitalTypes :=
    ⟨rfl, rfl, rfl, respelledIn_capitalTypes⟩
  have hresponse : around.RespellsResponse around errand "200" (.inline { content := smallTypes })
      (.inline { content := capitalTypes }) { content := smallTypes } capitalTypes :=
    ⟨rfl, rfl, rfl, respelledIn_capitalTypes⟩
  obtain ⟨hbodies, hresponses⟩ := respelled_keys around around errand
  exact ⟨(hbodies _ _ _ _ hbody).2 suffixesAgree_capitalTypes,
    (hresponses true _ _ _ _ _ hresponse suffixesAgree_capitalTypes).1⟩

/-- What a body without a schema is in a type. -/
def kindsIn (name : String) : Option (List Media.Kind) :=
  let around : Surroundings := ⟨⟨[], []⟩, {}, {}⟩
  let node : Referable RequestBody := .inline { content := [(name, {})] }
  (outcome (around.resolveBody ⟨"addPet", [], "#"⟩ node) {}).1.toOption.map fun bodies =>
    bodies.types.map fun entry => entry.2.payload.kind

/-- The type that is read of two. -/
def readOf (first second : String) : Option String :=
  (chosenContent [(first, {}), (second, {})]).map Prod.fst

/-- With its suffix in capitals a body is not JSON any more, and a response is read in another
type. -/
theorem respelled_suffix :
    Media.Respells "application/problem+json" "application/problem+JSON" ∧
      kindsIn "application/problem+json" = some [.json] ∧
      kindsIn "application/problem+JSON" = some [.other] ∧
      readOf "text/plain" "application/problem+json" = some "application/problem+json" ∧
      readOf "text/plain" "application/problem+JSON" = some "text/plain" := by
  decide +kernel

end Surroundings

end ApiAtlas
