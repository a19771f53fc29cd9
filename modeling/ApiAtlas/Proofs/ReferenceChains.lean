import ApiAtlas.Proofs.ReferenceTexts
import ApiAtlas.Proofs.ResolutionDepth
import ApiAtlas.Resolve.Follow
import Mathlib.Data.List.Nodup

namespace ApiAtlas

namespace Referable

variable {α : Type} {kind : Section} {table : Entries (Referable α)} {location path name : String}
  {start node next last other : Referable α} {names more seen : List String}
  {result : Except ResolveError α} {fuel : Nat}

/-- References of the section lead from a node to another one; `names` are the entries that they
name, in order. -/
inductive Leads (kind : Section) (table : Entries (Referable α)) :
    Referable α → List String → Referable α → Prop
  | here {node : Referable α} : Leads kind table node [] node
  | next {path name : String} {node last : Referable α} {names : List String}
    (refers : kind.Refers path name) (found : Entries.get? table name = some node)
    (rest : Leads kind table node names last) : Leads kind table (.ref path) (name :: names) last

/-- What the chain of references of a node at a location comes to. -/
inductive Meets (kind : Section) (table : Entries (Referable α)) (location : String)
    (node : Referable α) : Except ResolveError α → Prop
  | value {names : List String} {value : α} (leads : Leads kind table node names (.inline value)) :
    Meets kind table location node (.ok value)
  | foreign {names : List String} {path : String} (leads : Leads kind table node names (.ref path))
    (foreign : ∀ name, ¬ kind.Refers path name) :
    Meets kind table location node (.error (.invalidRefFormat path location))
  | missing {names : List String} {path name : String}
    (leads : Leads kind table node names (.ref path)) (refers : kind.Refers path name)
    (missing : Entries.get? table name = none) :
    Meets kind table location node (.error (.unresolvedRef path location))
  | cycle {names : List String} {path name : String}
    (leads : Leads kind table node names (.ref path)) (distinct : names.Nodup)
    (refers : kind.Refers path name) (again : name ∈ names) :
    Meets kind table location node (.error (.circularRef (names ++ [name]) location))

/-- No reference leads further. -/
def Final (kind : Section) (table : Entries (Referable α)) (node : Referable α) : Prop :=
  ∀ names last, Leads kind table node names last → names = []

theorem final_inline {value : α} : Final kind table (.inline value) := by
  intro names last h
  cases h
  rfl

theorem final_of_foreign (h : ∀ name, ¬ kind.Refers path name) : Final kind table (.ref path) := by
  intro names last hl
  cases hl with
  | here => rfl
  | next refers => exact absurd refers (h _)

theorem final_of_missing (hr : kind.Refers path name) (hm : Entries.get? table name = none) :
    Final kind table (.ref path) := by
  intro names last h
  cases h with
  | here => rfl
  | next refers found =>
    rw [hr.unique refers, found] at hm
    cases hm

theorem Leads.concat (h : Leads kind table start names (.ref path)) (hr : kind.Refers path name)
    (hf : Entries.get? table name = some next) : Leads kind table start (names ++ [name]) next := by
  generalize hn : Referable.ref path = node at h
  induction h with
  | here =>
    subst hn
    exact .next hr hf .here
  | next refers found _ ih => exact .next refers found (ih hn)

/-- Two chains of one node that lead no further are the same. -/
theorem Leads.names_eq (h : Leads kind table node names last) (hl : Final kind table last)
    (h' : Leads kind table node more other) (ho : Final kind table other) : names = more := by
  induction h generalizing more with
  | here => exact (hl _ _ h').symm
  | next refers found rest ih =>
    cases h' with
    | here => exact ho _ _ (.next refers found rest)
    | next refers' found' rest' =>
      cases refers.unique refers'
      cases found.symm.trans found'
      exact congrArg _ (ih hl rest')

/-- From a name that a chain passes it goes on as before. -/
theorem Leads.after (h : Leads kind table node names last) (hm : name ∈ names) :
    ∃ next later, Entries.get? table name = some next ∧ Leads kind table next later last ∧
      later.length < names.length := by
  induction h with
  | here => cases hm
  | @next path first next last names _ found rest ih =>
    rcases List.mem_cons.mp hm with rfl | hm
    · exact ⟨next, names, found, rest, Nat.lt_succ_self _⟩
    · obtain ⟨node, later, hfound, hrest, hlt⟩ := ih hm
      exact ⟨node, later, hfound, hrest, Nat.lt_succ_of_lt hlt⟩

/-- A chain that comes to an end passes no name twice. -/
theorem Leads.nodup (h : Leads kind table node names last) (hl : Final kind table last) :
    names.Nodup := by
  induction h with
  | here => exact List.nodup_nil
  | @next path name next last names _ found rest ih =>
    refine List.nodup_cons.mpr ⟨fun hm => ?_, ih hl⟩
    obtain ⟨again, later, hfound, hlater, hlt⟩ := rest.after hm
    cases found.symm.trans hfound
    rw [rest.names_eq hl hlater hl] at hlt
    exact Nat.lt_irrefl _ hlt

theorem followWithin_ref (fuel : Nat) (seen : List String) :
    (Referable.ref path).followWithin kind table location (fuel + 1) seen =
      match kind.named? path with
      | none => .error (.invalidRefFormat path location)
      | some name =>
        if name ∈ seen then .error (.circularRef (seen ++ [name]) location)
        else
          match Entries.get? table name with
          | none => .error (.unresolvedRef path location)
          | some next => next.followWithin kind table location fuel (seen ++ [name]) := by
  rw [followWithin, Section.parseName_eq]
  cases kind.named? path with
  | none => rfl
  | some name =>
    simp only [bind, Except.bind, List.contains_iff_mem]
    split
    next => rfl
    next => cases Entries.get? table name <;> rfl

theorem followWithin_inline (fuel : Nat) (seen : List String) (value : α) :
    (Referable.inline value).followWithin kind table location fuel seen = .ok value := by
  cases fuel <;> rfl

theorem mem_keys_of_get? (h : Entries.get? table name = some next) : name ∈ Entries.keys table :=
  Entries.has_iff_mem_keys.mp (Entries.has_iff.mpr ⟨next, h⟩)

/-- The names passed are different, so that there is room for one more as long as one comes. -/
theorem meets_followWithin (fuel : Nat) :
    ∀ {seen : List String} {node : Referable α}, Leads kind table start seen node → seen.Nodup →
      roomFor (Entries.keys table) seen < fuel →
        start.Meets kind table location (node.followWithin kind table location fuel seen) := by
  induction fuel with
  | zero =>
    intro seen node _ _ hroom
    omega
  | succ fuel ih =>
    intro seen node h hn hroom
    cases node with
    | inline value =>
      rw [followWithin_inline]
      exact .value h
    | ref path =>
      rw [followWithin_ref]
      cases hname : kind.named? path with
      | none => exact .foreign h (Section.named?_eq_none_iff.mp hname)
      | some name =>
        have hrefers := Section.named?_eq_some_iff.mp hname
        simp only
        split
        next hseen => exact .cycle h hn hrefers hseen
        next hseen =>
          cases hfound : Entries.get? table name with
          | none => exact .missing h hrefers hfound
          | some next =>
            have hlt := roomFor_append_lt (mem_keys_of_get? hfound) hseen
            have hdistinct : (seen ++ [name]).Nodup :=
              List.concat_eq_append ▸ List.Nodup.concat hseen hn
            exact ih (h.concat hrefers hfound) hdistinct (by omega)

/-- Following walks along a chain of different names to its last node. -/
theorem Leads.followWithin (h : Leads kind table node names last) :
    ∀ (fuel : Nat) (seen : List String), (seen ++ names).Nodup →
      roomFor (Entries.keys table) seen < fuel →
        ∃ left, node.followWithin kind table location fuel seen =
          last.followWithin kind table location (left + 1) (seen ++ names) := by
  induction h with
  | here =>
    intro fuel seen _ hroom
    obtain ⟨left, rfl⟩ := Nat.exists_eq_succ_of_ne_zero (by omega : fuel ≠ 0)
    exact ⟨left, by rw [List.append_nil]⟩
  | @next path name next last names refers found _ ih =>
    intro fuel seen hn hroom
    obtain ⟨fuel, rfl⟩ := Nat.exists_eq_succ_of_ne_zero (by omega : fuel ≠ 0)
    have hseen : name ∉ seen := fun hm =>
      (List.nodup_append.mp hn).2.2 name hm name List.mem_cons_self rfl
    have hlt := roomFor_append_lt (mem_keys_of_get? found) hseen
    rw [List.append_cons] at hn ⊢
    obtain ⟨left, hleft⟩ := ih fuel _ hn (by omega)
    refine ⟨left, ?_⟩
    rw [followWithin_ref, Section.named?_eq_some_iff.mpr refers]
    simp only [hseen, if_false, found, hleft]

theorem Leads.followWithin_nil (h : Leads kind table node names last) (hn : names.Nodup)
    (hroom : roomFor (Entries.keys table) [] < fuel) :
    ∃ left, node.followWithin kind table location fuel [] =
      last.followWithin kind table location (left + 1) names :=
  h.followWithin fuel [] hn hroom

theorem Meets.followWithin (h : node.Meets kind table location result)
    (hroom : roomFor (Entries.keys table) [] < fuel) :
    node.followWithin kind table location fuel [] = result := by
  cases h with
  | value leads =>
    obtain ⟨left, hleft⟩ := leads.followWithin_nil (leads.nodup final_inline) hroom
    rw [hleft, followWithin_inline]
  | foreign leads foreign =>
    obtain ⟨left, hleft⟩ := leads.followWithin_nil (leads.nodup (final_of_foreign foreign)) hroom
    rw [hleft, followWithin_ref, Section.named?_eq_none_iff.mpr foreign]
  | @missing names path name leads refers missing =>
    have hdistinct := leads.nodup (final_of_missing refers missing)
    have hnew : name ∉ names := by
      intro hm
      obtain ⟨next, _, hfound, -⟩ := leads.after hm
      rw [missing] at hfound
      cases hfound
    obtain ⟨left, hleft⟩ := leads.followWithin_nil hdistinct hroom
    rw [hleft, followWithin_ref, Section.named?_eq_some_iff.mpr refers]
    simp only [hnew, if_false, missing]
  | cycle leads distinct refers again =>
    obtain ⟨left, hleft⟩ := leads.followWithin_nil distinct hroom
    rw [hleft, followWithin_ref, Section.named?_eq_some_iff.mpr refers]
    simp only [again, if_true]

theorem roomFor_keys_lt (h : table.length < fuel) : roomFor (Entries.keys table) [] < fuel := by
  have hle := roomFor_le (Entries.keys table) []
  rw [show (Entries.keys table).length = table.length from List.length_map _] at hle
  omega

theorem meets_follow : node.Meets kind table location (node.follow kind table location) :=
  meets_followWithin _ .here List.nodup_nil (roomFor_keys_lt (Nat.lt_succ_self _))

theorem Meets.follow (h : node.Meets kind table location result) :
    node.follow kind table location = result :=
  h.followWithin (roomFor_keys_lt (Nat.lt_succ_self _))

/-- A node comes to the value in place that its chain of references reaches. It fails with a text
that refers to nothing of the section, with one whose name is missing, or with the names up to the
first one that comes again, just where its chain does so. No more steps are taken than there are
entries in the section. -/
theorem follow_eq_iff (kind : Section) (table : Entries (Referable α)) (location : String)
    (node : Referable α) :
    (∀ result, node.follow kind table location = result ↔ node.Meets kind table location result) ∧
    ∀ fuel, table.length < fuel →
      node.followWithin kind table location fuel [] = node.follow kind table location := by
  refine ⟨fun result => ⟨?_, fun h => ?_⟩, fun fuel hlt => ?_⟩
  · rintro rfl
    exact meets_follow
  · exact h.follow
  · exact meets_follow.followWithin (roomFor_keys_lt hlt)

/-- A chain that enters a cycle behind its first name. -/
example : (Referable.ref "#/components/parameters/A" : Referable Nat).follow .parameters
    [("A", .ref "#/components/parameters/B"), ("B", .ref "#/components/parameters/B")] "#" =
      .error (.circularRef ["A", "B", "B"] "#") := by
  rfl

end Referable

end ApiAtlas
