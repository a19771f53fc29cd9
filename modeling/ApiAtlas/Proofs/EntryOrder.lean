import Mathlib.Data.List.Induction
import Mathlib.Data.List.Sort
import Mathlib.Data.String.Basic
import ApiAtlas.Proofs.EntryLookup

namespace ApiAtlas

namespace Entries

section

variable {κ α : Type}

theorem keys_append (first second : List (κ × α)) :
    keys (first ++ second) = keys first ++ keys second := List.map_append

variable [DecidableEq κ] {entries pairs : List (κ × α)} {key : κ} {value : α}

theorem keys_set : keys (set key value entries) =
    if key ∈ keys entries then keys entries else keys entries ++ [key] := by
  split
  next hm =>
    obtain ⟨old, ho⟩ := has_iff.mp (has_iff_mem_keys.mpr hm)
    clear hm
    induction entries with
    | nil => simp at ho
    | cons pair rest ih =>
      obtain ⟨k, v⟩ := pair
      rw [get?_cons] at ho
      rw [set]
      split
      next hk => simp [keys, ← hk]
      next hk =>
        rw [if_neg hk] at ho
        simpa [keys] using ih ho
  next hm =>
    have hn : get? entries key = none := by
      rw [← has_eq_false_iff, ← Bool.not_eq_true, has_iff_mem_keys]
      exact hm
    simp [set_of_get?_eq_none hn, keys]

/-- One more name stands at the end, if it is new. -/
theorem eraseDups_concat (names : List κ) (name : κ) : (names ++ [name]).eraseDups =
    if name ∈ names then names.eraseDups else names.eraseDups ++ [name] := by
  rw [List.eraseDups_append]
  by_cases hm : name ∈ names <;> simp [hm, List.removeAll, List.eraseDups_cons]

/-- Set one after the other, keys stand where they came first. -/
theorem keys_foldl_set (pairs : List (κ × α)) :
    keys (pairs.foldl (fun entries (key, value) => set key value entries) []) =
      (keys pairs).eraseDups := by
  induction pairs using List.reverseRecOn with
  | nil => rfl
  | append_singleton pairs pair ih =>
    have hk : keys [pair] = [pair.1] := rfl
    rw [List.foldl_concat, keys_set, ih, keys_append, hk, eraseDups_concat]
    simp only [List.mem_eraseDups]

/-- The last value of a key stays. -/
theorem get?_foldl_set (pairs : List (κ × α)) (key : κ) :
    get? (pairs.foldl (fun entries (key, value) => set key value entries) []) key =
      get? pairs.reverse key := by
  induction pairs using List.reverseRecOn with
  | nil => rfl
  | append_singleton pairs pair ih =>
    rw [List.foldl_concat, get?_set, ih]
    simp [get?_cons]

theorem nodup_keys_foldl_set (pairs : List (κ × α)) :
    (keys (pairs.foldl (fun entries (key, value) => set key value entries) [])).Nodup := by
  induction pairs using List.reverseRecOn with
  | nil => exact List.nodup_nil
  | append_singleton pairs pair ih =>
    rw [List.foldl_concat]
    exact nodup_keys_set ih

theorem mem_of_mem_foldl_set {pair : κ × α}
    (h : pair ∈ pairs.foldl (fun entries (key, value) => set key value entries) []) :
    pair ∈ pairs := by
  induction pairs using List.reverseRecOn with
  | nil => exact h
  | append_singleton pairs last ih =>
    rw [List.foldl_concat] at h
    rcases mem_set h with he | hm
    · exact he ▸ List.mem_append_right _ List.mem_cons_self
    · exact List.mem_append_left _ (ih hm)

/-- Pairs of distinct keys stay as they are. -/
theorem foldl_set_of_nodup (h : (keys pairs).Nodup) :
    pairs.foldl (fun entries (key, value) => set key value entries) [] = pairs := by
  induction pairs using List.reverseRecOn with
  | nil => rfl
  | append_singleton pairs pair ih =>
    rw [keys_append, List.nodup_append] at h
    have hn : get? pairs pair.1 = none := by
      rw [← has_eq_false_iff, ← Bool.not_eq_true, has_iff_mem_keys]
      exact fun hm => h.2.2 _ hm _ List.mem_cons_self rfl
    rw [List.foldl_concat, ih h.1]
    exact set_of_get?_eq_none hn

theorem nodup_eraseDups (names : List κ) : names.eraseDups.Nodup := by
  have h := nodup_keys_foldl_set (names.map fun name => (name, ()))
  rw [keys_foldl_set] at h
  simpa [keys, Function.comp_def] using h

theorem eraseDups_of_nodup {names : List κ} (h : names.Nodup) : names.eraseDups = names := by
  have hkeys : keys (names.map fun name => (name, ())) = names := by
    simp [keys, Function.comp_def]
  rw [← hkeys] at h
  have he := congrArg keys (foldl_set_of_nodup h)
  rwa [keys_foldl_set, hkeys] at he

/-- What is found from the end comes last of its key. -/
theorem exists_last_of_get?_reverse (h : get? pairs.reverse key = some value) :
    ∃ before after, pairs = before ++ (key, value) :: after ∧ key ∉ keys after := by
  induction pairs using List.reverseRecOn with
  | nil => cases h
  | append_singleton pairs pair ih =>
    rw [List.reverse_concat, get?_cons] at h
    split at h
    next hk =>
      have hpair : pair = (key, value) := Prod.ext hk (Option.some.inj h)
      exact ⟨pairs, [], by rw [hpair], List.not_mem_nil⟩
    next hk =>
      obtain ⟨before, after, rfl, hn⟩ := ih h
      refine ⟨before, after ++ [pair], by simp, ?_⟩
      rw [keys_append, List.mem_append, not_or]
      exact ⟨hn, fun hm => hk (List.mem_singleton.mp hm).symm⟩

end

variable {α β : Type} {entries pairs : List (String × α)} {key other : String} {value : α}

/-- The keys ascend, so that each stands once. -/
abbrev Ascending (entries : List (String × α)) : Prop := (keys entries).Pairwise (· < ·)

theorem Ascending.nodup (h : Ascending entries) : (keys entries).Nodup := h.imp ne_of_lt

theorem sorted_concat (pairs : List (String × α)) (key : String) (value : α) :
    sorted (pairs ++ [(key, value)]) = setSorted key value (sorted pairs) := by
  simp [sorted]

/-- The last value of a key stays. -/
theorem get?_ofPairs (pairs : List (String × α)) (key : String) :
    get? (ofPairs pairs) key = get? pairs.reverse key := get?_foldl_set pairs key

/-- The keys stand where they came first. -/
theorem keys_ofPairs (pairs : List (String × α)) :
    keys (ofPairs pairs) = (keys pairs).eraseDups := keys_foldl_set pairs

theorem nodup_keys_ofPairs (pairs : List (String × α)) : (keys (ofPairs pairs)).Nodup :=
  nodup_keys_foldl_set pairs

/-- Pairs of distinct keys stay as they are. -/
theorem ofPairs_of_nodup (h : (keys pairs).Nodup) : ofPairs pairs = pairs := foldl_set_of_nodup h

theorem mem_of_mem_ofPairs {pair : String × α} (h : pair ∈ ofPairs pairs) : pair ∈ pairs :=
  mem_of_mem_foldl_set h

theorem get?_setSorted : get? (setSorted key value entries) other =
    if key = other then some value else get? entries other := by
  induction entries with
  | nil => simp [setSorted, get?_cons]
  | cons pair rest ih =>
    obtain ⟨k, v⟩ := pair
    rw [setSorted]
    split
    next => rw [get?_cons]
    next =>
      split
      next hk =>
        simp only [get?_cons, hk]
        split <;> rfl
      next hk =>
        simp only [get?_cons, ih]
        by_cases hko : k = other
        · have hne : key ≠ other := fun he => hk (hko.trans he.symm)
          simp [hko, hne]
        · simp [hko]

theorem mem_keys_setSorted :
    other ∈ keys (setSorted key value entries) ↔ key = other ∨ other ∈ keys entries := by
  rw [← has_iff_mem_keys, ← has_iff_mem_keys, has_iff, has_iff]
  simp only [get?_setSorted]
  by_cases h : key = other <;> simp [h]

theorem Ascending.setSorted (h : Ascending entries) : Ascending (setSorted key value entries) := by
  induction entries with
  | nil => exact List.pairwise_singleton _ _
  | cons pair rest ih =>
    obtain ⟨k, v⟩ := pair
    obtain ⟨hk, hrest⟩ := List.pairwise_cons.mp h
    rw [Entries.setSorted]
    split
    next hlt =>
      refine List.pairwise_cons.mpr ⟨fun k' hk' => ?_, h⟩
      rcases List.mem_cons.mp hk' with he | hr
      · exact he ▸ hlt
      · exact hlt.trans (hk k' hr)
    next hnlt =>
      split
      next he => exact he ▸ h
      next hne =>
        refine List.pairwise_cons.mpr ⟨fun k' hk' => ?_, ih hrest⟩
        rcases mem_keys_setSorted.mp hk' with he | hr
        · exact he ▸ lt_of_le_of_ne (not_lt.mp hnlt) hne
        · exact hk k' hr

theorem ascending_sorted (pairs : List (String × α)) : Ascending (sorted pairs) := by
  induction pairs using List.reverseRecOn with
  | nil => exact List.Pairwise.nil
  | append_singleton pairs pair ih =>
    rw [sorted_concat]
    exact ih.setSorted

theorem get?_sorted (pairs : List (String × α)) (key : String) :
    get? (sorted pairs) key = get? pairs.reverse key := by
  induction pairs using List.reverseRecOn with
  | nil => rfl
  | append_singleton pairs pair ih =>
    rw [sorted_concat, get?_setSorted, ih]
    simp [get?_cons]

/-- Entries with distinct keys are given by what is found under each key, up to their order. -/
theorem perm_of_get?_eq (hn : (keys entries).Nodup) (hn' : (keys pairs).Nodup)
    (h : ∀ key, get? entries key = get? pairs key) : entries.Perm pairs := by
  refine (List.perm_ext_iff_of_nodup hn.of_map hn'.of_map).mpr fun ⟨key, value⟩ => ?_
  constructor
  · exact fun hm => mem_of_get? (h key ▸ get?_of_mem_nodup hn hm)
  · exact fun hm => mem_of_get? (h key ▸ get?_of_mem_nodup hn' hm)

theorem sorted_perm_ofPairs (pairs : List (String × α)) : (sorted pairs).Perm (ofPairs pairs) :=
  perm_of_get?_eq (ascending_sorted pairs).nodup (nodup_keys_ofPairs pairs)
    fun key => (get?_sorted pairs key).trans (get?_ofPairs pairs key).symm

theorem sorted_perm_of_nodup (h : (keys pairs).Nodup) : (sorted pairs).Perm pairs :=
  (sorted_perm_ofPairs pairs).trans (.of_eq (ofPairs_of_nodup h))

/-- There is one ascending order of the same entries. -/
theorem Ascending.eq_of_perm (h : Ascending entries) (h' : Ascending pairs)
    (hp : entries.Perm pairs) : entries = pairs := by
  have hs : entries.Pairwise fun a b => a.1 < b.1 := List.pairwise_map.mp h
  have hs' : pairs.Pairwise fun a b => a.1 < b.1 := List.pairwise_map.mp h'
  exact hp.eq_of_pairwise (fun a b _ _ hab hba => absurd hab (lt_asymm hba)) hs hs'

/-- Pairs whose keys ascend stay as they are. -/
theorem sorted_of_ascending (h : Ascending pairs) : sorted pairs = pairs :=
  (ascending_sorted pairs).eq_of_perm h (sorted_perm_of_nodup h.nodup)

theorem keys_map (f : α → β) (entries : List (String × α)) :
    keys (entries.map fun (key, value) => (key, f value)) = keys entries := by
  simp [keys, Function.comp_def]

theorem sorted_map (f : α → β) (pairs : List (String × α)) :
    sorted (pairs.map fun (key, value) => (key, f value)) =
      (sorted pairs).map fun (key, value) => (key, f value) := by
  refine (ascending_sorted _).eq_of_perm ?_ (perm_of_get?_eq (ascending_sorted _).nodup ?_ ?_)
  · rw [Ascending, keys_map]
    exact ascending_sorted pairs
  · rw [keys_map]
    exact (ascending_sorted pairs).nodup
  · intro key
    rw [get?_sorted, get?_map, get?_sorted, ← List.map_reverse, get?_map]

theorem filter_eraseDups (keep : String → Bool) (names : List String) :
    names.eraseDups.filter keep = (names.filter keep).eraseDups := by
  induction names using List.reverseRecOn with
  | nil => rfl
  | append_singleton names name ih =>
    rw [List.eraseDups_append, List.filter_append, ih, List.filter_append, List.eraseDups_append]
    by_cases hk : keep name = true <;> by_cases hm : name ∈ names <;>
      simp [hk, hm, List.removeAll, List.eraseDups_cons]

end Entries

end ApiAtlas
