import ApiAtlas.Entries
import Mathlib.Data.List.Forall2

namespace ApiAtlas

theorem forall₂_of_mem_right {α β : Type} {related : α → β → Prop} {left : List α}
    {right : List β} (h : List.Forall₂ related left right) {b : β} (hb : b ∈ right) :
    ∃ a ∈ left, related a b := by
  induction h with
  | nil => simp at hb
  | cons hr _ ih =>
    rcases List.mem_cons.mp hb with rfl | ht
    · exact ⟨_, List.mem_cons_self, hr⟩
    · obtain ⟨a, ha, hab⟩ := ih ht
      exact ⟨a, List.mem_cons_of_mem _ ha, hab⟩

namespace Entries

variable {κ α : Type} [DecidableEq κ] {entries : List (κ × α)} {key other : κ} {value : α}

theorem get?_cons (pair : κ × α) (rest : List (κ × α)) (key : κ) :
    get? (pair :: rest) key = if pair.1 = key then some pair.2 else get? rest key := by
  obtain ⟨k, v⟩ := pair
  by_cases h : k = key
  · subst h
    simp [get?]
  · have hn : (key == k) = false := beq_false_of_ne (Ne.symm h)
    simp [get?, List.lookup_cons, hn, h]

@[simp] theorem get?_nil : get? ([] : List (κ × α)) key = none := rfl

theorem has_cons (pair : κ × α) (rest : List (κ × α)) (key : κ) :
    has (pair :: rest) key = (pair.1 == key || has rest key) := rfl

theorem has_iff : has entries key = true ↔ ∃ value, get? entries key = some value := by
  induction entries with
  | nil => simp [has]
  | cons pair rest ih =>
    rw [has_cons, get?_cons, Bool.or_eq_true, beq_iff_eq, ih]
    by_cases h : pair.1 = key <;> simp [h]

theorem has_eq_false_iff : has entries key = false ↔ get? entries key = none := by
  cases h : get? entries key with
  | none =>
    have hn : ¬ has entries key = true := by simp [has_iff, h]
    simpa using hn
  | some value => simpa using has_iff.mpr ⟨value, h⟩

theorem has_iff_mem_keys : has entries key = true ↔ key ∈ keys entries := by
  simp [has, keys, List.any_eq_true]

theorem mem_of_get? (h : get? entries key = some value) : (key, value) ∈ entries := by
  induction entries with
  | nil => simp at h
  | cons pair rest ih =>
    rw [get?_cons] at h
    split at h
    next hk =>
      cases Option.some.inj h
      subst hk
      exact List.mem_cons_self
    next => exact List.mem_cons_of_mem _ (ih h)

theorem get?_of_mem_nodup (hn : (keys entries).Nodup) (h : (key, value) ∈ entries) :
    get? entries key = some value := by
  induction entries with
  | nil => simp at h
  | cons pair rest ih =>
    have hn' := List.nodup_cons.mp hn
    rw [get?_cons]
    rcases List.mem_cons.mp h with he | hr
    · simp [← he]
    · have hne : pair.1 ≠ key := by
        intro he
        exact hn'.1 (he ▸ List.mem_map_of_mem hr)
      simp [hne, ih hn'.2 hr]

theorem get?_append (first second : List (κ × α)) (key : κ) :
    get? (first ++ second) key = (get? first key).or (get? second key) := by
  induction first with
  | nil => simp
  | cons pair rest ih =>
    rw [List.cons_append, get?_cons, get?_cons, ih]
    split <;> rfl

theorem get?_of_isPrefix {longer : List (κ × α)} (hp : entries <+: longer)
    (h : get? entries key = some value) : get? longer key = some value := by
  obtain ⟨added, rfl⟩ := hp
  simp [get?_append, h]

theorem get?_set (key other : κ) (value : α) (entries : List (κ × α)) :
    get? (set key value entries) other = if key = other then some value else get? entries other := by
  induction entries with
  | nil => simp [set, get?_cons]
  | cons pair rest ih =>
    obtain ⟨k, v⟩ := pair
    rw [set]
    split
    next hk =>
      subst hk
      simp only [get?_cons]
      split <;> rfl
    next hk =>
      simp only [get?_cons, ih]
      by_cases hko : k = other
      · have hne : key ≠ other := fun he => hk (hko.trans he.symm)
        simp [hko, hne]
      · simp [hko]

@[simp] theorem get?_set_self : get? (set key value entries) key = some value := by
  simp [get?_set]

theorem get?_set_of_ne (h : key ≠ other) : get? (set key value entries) other = get? entries other := by
  simp [get?_set, h]

/-- Setting a key to the value that it has changes nothing. -/
theorem set_of_get?_eq_some (h : get? entries key = some value) : set key value entries = entries := by
  induction entries with
  | nil => simp at h
  | cons pair rest ih =>
    obtain ⟨k, v⟩ := pair
    rw [get?_cons] at h
    rw [set]
    split at h
    next hk =>
      cases Option.some.inj h
      simp [show k = key from hk]
    next hk => simp [show k ≠ key from hk, ih h]

theorem set_of_get?_eq_none (h : get? entries key = none) :
    set key value entries = entries ++ [(key, value)] := by
  induction entries with
  | nil => rfl
  | cons pair rest ih =>
    obtain ⟨k, v⟩ := pair
    rw [get?_cons] at h
    rw [set]
    split at h
    next => simp at h
    next hk => simp [show k ≠ key from hk, ih h]

theorem mem_set {pair : κ × α} (h : pair ∈ set key value entries) :
    pair = (key, value) ∨ pair ∈ entries := by
  induction entries with
  | nil => exact .inl (List.mem_singleton.mp h)
  | cons first rest ih =>
    obtain ⟨k, v⟩ := first
    rw [set] at h
    split at h
    next =>
      rcases List.mem_cons.mp h with he | hr
      · exact .inl he
      · exact .inr (List.mem_cons_of_mem _ hr)
    next =>
      rcases List.mem_cons.mp h with he | hr
      · exact .inr (he ▸ List.mem_cons_self)
      · exact (ih hr).imp_right (List.mem_cons_of_mem _)

theorem mem_keys_set : other ∈ keys (set key value entries) ↔ key = other ∨ other ∈ keys entries := by
  rw [← has_iff_mem_keys, ← has_iff_mem_keys, has_iff, has_iff]
  simp only [get?_set]
  by_cases h : key = other
  · simp [h]
  · simp [h]

theorem nodup_keys_set (h : (keys entries).Nodup) : (keys (set key value entries)).Nodup := by
  induction entries with
  | nil => simp [set, keys]
  | cons pair rest ih =>
    obtain ⟨k, v⟩ := pair
    obtain ⟨hk, hrest⟩ := List.nodup_cons.mp h
    rw [set]
    split
    next he => exact he ▸ h
    next hne =>
      refine List.nodup_cons.mpr ⟨fun hm => ?_, ih hrest⟩
      rcases mem_keys_set.mp hm with he | hr
      · exact hne he.symm
      · exact hk hr

theorem get?_map {β : Type} (f : α → β) (entries : List (κ × α)) (key : κ) :
    get? (entries.map fun (k, v) => (k, f v)) key = (get? entries key).map f := by
  induction entries with
  | nil => rfl
  | cons pair rest ih =>
    obtain ⟨k, v⟩ := pair
    rw [List.map_cons, get?_cons, get?_cons, ih]
    by_cases hk : k = key <;> simp [hk]

theorem set_map {β : Type} (f : α → β) (key : κ) (value : α) (entries : List (κ × α)) :
    (set key value entries).map (fun (k, v) => (k, f v)) =
      set key (f value) (entries.map fun (k, v) => (k, f v)) := by
  induction entries with
  | nil => rfl
  | cons pair rest ih =>
    obtain ⟨k, v⟩ := pair
    rw [set, List.map_cons, set]
    split
    next => rfl
    next => rw [List.map_cons, ih]

theorem foldl_set_map {β : Type} (f : α → β) (pairs : List (κ × α)) :
    ∀ entries : List (κ × α),
      (pairs.foldl (fun entries (key, value) => set key value entries) entries).map
          (fun (k, v) => (k, f v)) =
        (pairs.map fun (k, v) => (k, f v)).foldl
          (fun entries (key, value) => set key value entries)
          (entries.map fun (k, v) => (k, f v)) := by
  induction pairs with
  | nil => exact fun _ => rfl
  | cons pair rest ih =>
    intro entries
    rw [List.foldl_cons, ih, List.map_cons, List.foldl_cons, set_map]

/-- Entries with distinct keys are looked up the same in any order. -/
theorem get?_perm {shuffled : List (κ × α)} (hp : entries.Perm shuffled)
    (hn : (keys entries).Nodup) (key : κ) : get? entries key = get? shuffled key := by
  have hn' : (keys shuffled).Nodup := (hp.map Prod.fst).nodup_iff.mp hn
  cases h : get? entries key with
  | some value => exact (get?_of_mem_nodup hn' (hp.mem_iff.mp (mem_of_get? h))).symm
  | none =>
    cases h' : get? shuffled key with
    | none => rfl
    | some value =>
      rw [get?_of_mem_nodup hn (hp.mem_iff.mpr (mem_of_get? h'))] at h
      cases h

theorem get?_filter_keys (keep : κ → Bool) (entries : List (κ × α)) (key : κ) :
    get? (entries.filter fun pair => keep pair.1) key =
      if keep key = true then get? entries key else none := by
  induction entries with
  | nil => simp
  | cons pair rest ih =>
    rw [List.filter_cons]
    by_cases hk : pair.1 = key
    · subst hk
      by_cases hd : keep pair.1 = true
      · simp [hd, get?_cons]
      · simp [hd, ih]
    · by_cases hd : keep pair.1 = true
      · simp [hd, get?_cons, hk, ih]
      · simp [hd, get?_cons, hk, ih]

end Entries

end ApiAtlas
