import ApiAtlas.Proofs.DocumentSoundness
import ApiAtlas.Proofs.EntryOrder
import ApiAtlas.Proofs.ModelStandards
import ApiAtlas.Proofs.StatusKeys

namespace ApiAtlas

open Resolving

/-- What comes back tells of a response: its description, its own extensions, and the media type
that is read, with a model if that has a schema. -/
structure ReturnType.Tells (type : ReturnType) (response : Response) : Prop where
  mediaType : type.mediaType = (Surroundings.chosenContent response.content).map Prod.fst
  model : type.model.isSome = true ↔ ∃ chosen,
    Surroundings.chosenContent response.content = some chosen ∧ chosen.2.schema.isSome = true
  description : type.description =
    if response.description.isEmpty then none else some response.description
  extensions : type.extensions = vendorExtensions response.extensions

/-- The answer to a response under a key, be it written there or referred to. -/
structure Surroundings.Answers (around : Surroundings) (entry : String × Referable Response)
    (answer : Status × ReturnType) : Prop where
  status : Status.parse entry.1 = some answer.1
  content : ∃ location response,
    entry.2.follow .responses around.components.responses location = .ok response ∧
      answer.2.Tells response

namespace Surroundings

variable {around : Surroundings} {errand : Errand} {endpoint : Endpoint} {media : MediaType}
  {pos : Position}

theorem optionalModel_isSome : (around.optionalModel media pos).Yields fun model =>
    model.isSome = media.schema.isSome := by
  unfold optionalModel
  cases media.schema with
  | some schema =>
    simp only [map_eq_pure_bind]
    exact Yields.last fun _ => Yields.pure rfl
  | none => exact Yields.pure rfl

theorem resolveReturn_answers (primary : Bool) (key : String) (node : Referable Response) :
    (around.resolveReturn errand primary key node).Yields (around.Answers (key, node)) := by
  unfold resolveReturn
  simp only
  cases hs : Status.parse key with
  | none => exact Yields.throw
  | some status =>
    refine Yields.lift_bind fun response hr => ?_
    cases hc : chosenContent response.content with
    | none =>
      simp only [pure_bind]
      exact Yields.pure ⟨hs, _, response, hr, by simp [hc], by simp [hc], rfl, rfl⟩
    | some chosen =>
      refine optionalModel_isSome.bind fun model hm => Yields.pure ?_
      exact ⟨hs, _, response, hr, by simp [hc], by simp [hc, hm], rfl, rfl⟩

theorem resolveEach_answers (responses : Responses) :
    (responses.entries.zipIdx.mapM fun item =>
      around.resolveReturn errand (item.2 == 0) item.1.1 item.1.2).Yields
        (List.Forall₂ around.Answers responses.entries) := by
  have heach (item : (String × Referable Response) × Nat) :
      (around.resolveReturn errand (item.2 == 0) item.1.1 item.1.2).Yields
        (around.Answers item.1) := resolveReturn_answers _ _ _
  refine (Yields.mapM heach responses.entries.zipIdx).mono fun answers ha => ?_
  have hentries := List.forall₂_map_left_iff.mpr ha
  rwa [List.zipIdx_map_fst] at hentries

theorem resolveReturns_answers (responses : Responses) :
    (around.resolveReturns errand responses).Yields fun returns =>
      ∃ answers, List.Forall₂ around.Answers responses.entries answers ∧
        returns.types =
          answers.foldl (fun types (status, type) => Entries.set status type types) [] :=
  (resolveEach_answers responses).bind fun answers ha => Yields.pure ⟨answers, ha, rfl⟩

theorem resolveRoute_answers : (around.resolveRoute endpoint).Yields fun route =>
    route.method = endpoint.method ∧ route.path = endpoint.path ∧
      ∃ answers, List.Forall₂ around.Answers endpoint.operation.responses.entries answers ∧
        route.returns.types =
          answers.foldl (fun types (status, type) => Entries.set status type types) [] := by
  unfold resolveRoute
  refine Yields.last fun input => ?_
  simp only
  cases endpoint.operation.requestBody with
  | some node =>
    exact Yields.last fun body => (resolveReturns_answers _).bind fun returns hr =>
      Yields.pure ⟨rfl, rfl, hr⟩
  | none =>
    exact Yields.last fun body => (resolveReturns_answers _).bind fun returns hr =>
      Yields.pure ⟨rfl, rfl, hr⟩

/-- Each route is the one that some operation came to. -/
theorem Sweeps.of_yields {fits : Endpoint → Route → Prop}
    (hy : ∀ endpoint, (around.resolveRoute endpoint).Yields (fits endpoint))
    {endpoints : List Endpoint} {arena after : Arena} {routes : List Route} {report : Report}
    (h : around.Sweeps endpoints arena routes report after) :
    ∀ route ∈ routes, ∃ endpoint ∈ endpoints, fits endpoint route := by
  induction h with
  | done => simp
  | kept _ he _ _ _ ih =>
    intro route hm
    rcases List.mem_cons.mp hm with rfl | hm
    · exact ⟨_, List.mem_cons_self, hy _ _ _ _ (attempt_eq_ok.mp he)⟩
    · obtain ⟨endpoint, hmem, hfits⟩ := ih route hm
      exact ⟨endpoint, List.mem_cons_of_mem _ hmem, hfits⟩
  | failed _ _ ih =>
    intro route hm
    obtain ⟨endpoint, hmem, hfits⟩ := ih route hm
    exact ⟨endpoint, List.mem_cons_of_mem _ hmem, hfits⟩

variable {entries : List (String × Referable Response)} {answers : List (Status × ReturnType)}

theorem Answers.texts (ha : List.Forall₂ around.Answers entries answers)
    (hs : ∀ key ∈ Entries.keys entries, Status.Spelled key.toList) :
    (Entries.keys answers).map (fun status => status.text.toLower) =
      (Entries.keys entries).map String.toLower := by
  induction ha with
  | nil => rfl
  | cons hfirst _ ih =>
    obtain ⟨hspelled, hrest⟩ := List.forall_mem_cons.mp hs
    exact congrArg₂ List.cons (Status.text_of_parse hspelled hfirst.status) (ih hrest)

/-- Statuses differ just where their keys differ in more than the case of letters. -/
theorem Answers.nodup_iff (ha : List.Forall₂ around.Answers entries answers)
    (hs : ∀ key ∈ Entries.keys entries, Status.Spelled key.toList) :
    (Entries.keys answers).Nodup ↔ ((Entries.keys entries).map String.toLower).Nodup := by
  have hkey {status : Status} (hm : status ∈ Entries.keys answers) : ∃ key,
      Status.Spelled key.toList ∧ Status.parse key = some status := by
    obtain ⟨answer, hanswer, rfl⟩ := List.mem_map.mp hm
    obtain ⟨entry, hentry, h⟩ := forall₂_of_mem_right ha hanswer
    exact ⟨entry.1, hs _ (List.mem_map_of_mem hentry), h.status⟩
  rw [← Answers.texts ha hs]
  refine ⟨fun hn => hn.map_on fun first hf second hsecond he => ?_, List.Nodup.of_map _⟩
  obtain ⟨key, hspelled, hparse⟩ := hkey hf
  obtain ⟨other, hspelled', hparse'⟩ := hkey hsecond
  rw [Status.text_of_parse hspelled hparse, Status.text_of_parse hspelled' hparse'] at he
  have hsame := (Status.parse_eq_iff hspelled hspelled' hparse).mpr he.symm
  exact Option.some.inj (hsame.symm.trans hparse')

end Surroundings

/-- The keys are written as keys of statuses are. -/
def Responses.Spelled (responses : Responses) : Prop :=
  ∀ key ∈ Entries.keys responses.entries, Status.Spelled key.toList

/-- A route has what comes back of its operation by status. If all keys of the responses are
written as keys are, each has an answer with the status that it is read as; a status stands where it
is answered first, and with the answer that comes last. So the answers are all there, as they come, just
where no two keys differ in the case of letters alone. -/
theorem Document.responses_returned {settings : Settings} {document : Document} {route : Route}
    (h : route ∈ (document.resolve settings).1) : ∃ endpoint ∈ document.endpoints,
      route.method = endpoint.method ∧ route.path = endpoint.path ∧
      (endpoint.operation.responses.Spelled → ∃ answers,
        List.Forall₂ (document.surroundings settings).Answers
          endpoint.operation.responses.entries answers ∧
        Entries.keys route.returns.types = (Entries.keys answers).eraseDups ∧
        (∀ status, Entries.get? route.returns.types status =
          Entries.get? answers.reverse status) ∧
        (route.returns.types = answers ↔
          ((Entries.keys endpoint.operation.responses.entries).map String.toLower).Nodup)) := by
  obtain ⟨endpoint, hmem, hmethod, hpath, answers, hanswers, htypes⟩ :=
    (Document.sweeps_routes settings document).of_yields
      (fun _ => Surroundings.resolveRoute_answers) route h
  refine ⟨endpoint, hmem, hmethod, hpath, fun hs => ⟨answers, hanswers, ?_, fun status => ?_, ?_⟩⟩
  · rw [htypes, Entries.keys_foldl_set]
  · rw [htypes, Entries.get?_foldl_set]
  · rw [← Surroundings.Answers.nodup_iff hanswers hs, htypes]
    refine ⟨fun he => ?_, Entries.foldl_set_of_nodup⟩
    exact he ▸ Entries.nodup_keys_foldl_set answers

namespace Document

/-- An operation with responses under the given keys, each with its key for a description. -/
def answering (keys : List String) : Document where
  openapi := "3.0.3"
  info := { title := "Answers", version := "1" }
  paths := [("/pets", { get := some { responses := {
    entries := keys.map fun key => (key, .inline { description := key }) } } })]

/-- Three keys of three statuses have an answer each. -/
theorem responses_returned_each : ∃ endpoint ∈ (answering ["200", "4xx", "default"]).endpoints,
    ∃ route ∈ ((answering ["200", "4xx", "default"]).resolve {}).1,
      List.Forall₂ ((answering ["200", "4xx", "default"]).surroundings {}).Answers
        endpoint.operation.responses.entries route.returns.types ∧
      Entries.keys route.returns.types = [.code 200, .range 4, .default] := by
  have hroute : ((answering ["200", "4xx", "default"]).resolve {}).1.any (fun route =>
      Entries.keys route.returns.types == [.code 200, .range 4, .default]) = true := by
    decide +kernel
  obtain ⟨route, hm, he⟩ := List.any_eq_true.mp hroute
  obtain ⟨endpoint, hmem, -, -, hreturned⟩ := responses_returned hm
  obtain rfl := List.mem_singleton.mp hmem
  obtain ⟨answers, hanswers, -, -, hall⟩ := hreturned fun key hkey => by
    simp only [Entries.keys, List.map_cons, List.map_nil, List.mem_cons, List.not_mem_nil,
      or_false] at hkey
    rcases hkey with rfl | rfl | rfl
    · exact .code rfl rfl rfl
    · exact .range rfl rfl rfl
    · exact .default
  have hdistinct : route.returns.types = answers := hall.mpr (by decide +kernel)
  exact ⟨_, hmem, route, hm, hdistinct ▸ hanswers, eq_of_beq he⟩

/-- Of two keys of one class the later one is answered, in the place of the earlier one. -/
theorem responses_not_returned : ∃ endpoint ∈ (answering ["4XX", "200", "4xx"]).endpoints,
    Entries.keys endpoint.operation.responses.entries = ["4XX", "200", "4xx"] ∧
    ∃ route ∈ ((answering ["4XX", "200", "4xx"]).resolve {}).1,
      route.returns.types.map (fun (status, type) => (status, type.description)) =
        [(.range 4, some "4xx"), (.code 200, some "200")] := by
  have hroute : ((answering ["4XX", "200", "4xx"]).resolve {}).1.any (fun route =>
      route.returns.types.map (fun (status, type) => (status, type.description)) ==
        [(.range 4, some "4xx"), (.code 200, some "200")]) = true := by decide +kernel
  obtain ⟨route, hm, he⟩ := List.any_eq_true.mp hroute
  exact ⟨_, List.mem_singleton_self _, rfl, route, hm, eq_of_beq he⟩

end Document

end ApiAtlas
