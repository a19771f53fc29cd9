import Mathlib.Data.List.Induction

namespace ApiAtlas

theorem toList_toString_nat (n : Nat) : (toString n).toList = Nat.toDigits 10 n :=
  String.toList_ofList

theorem toDigits_injective : Function.Injective (Nat.toDigits 10) := by
  intro m n h
  have hvalue := congrArg (fun digits => Nat.ofDigitChars 10 digits 0) h
  simpa using hvalue

theorem append_toString_inj {base : String} {m n : Nat} :
    base ++ toString m = base ++ toString n ↔ m = n := by
  refine ⟨fun h => toDigits_injective ?_, fun h => h ▸ rfl⟩
  have hlists := congrArg String.toList h
  simpa only [String.toList_append, toList_toString_nat, List.append_cancel_left_eq] using hlists

/-- The first digits of a number are the digits of a number. -/
theorem toDigits_of_append {front : List Char} (hne : front ≠ []) (back : List Char) : ∀ {n : Nat},
    Nat.toDigits 10 n = front ++ back → ∃ m, front = Nat.toDigits 10 m := by
  induction back using List.reverseRecOn with
  | nil => exact fun {n} h => ⟨n, by rw [h, List.append_nil]⟩
  | append_singleton back digit ih =>
    intro n h
    rw [← List.append_assoc] at h
    by_cases hn : n < 10
    · -- A single digit has nothing in front of it.
      rw [Nat.toDigits_of_lt_base hn] at h
      have hlength := congrArg List.length h
      have hpos := List.length_pos_iff.mpr hne
      simp only [List.length_append, List.length_singleton] at hlength
      omega
    · rw [Nat.toDigits_of_base_le (by decide) (Nat.le_of_not_lt hn)] at h
      exact ih (List.append_inj' h rfl).1

/-- If two different numbers make two texts the same, one text is the other with a number. -/
theorem numbered_of_eq {first second : String} {m n : Nat}
    (h : first ++ toString m = second ++ toString n) (hne : m ≠ n) :
    (∃ number : Nat, first = second ++ toString number) ∨
      ∃ number : Nat, second = first ++ toString number := by
  have hlists := congrArg String.toList h
  simp only [String.toList_append, toList_toString_nat] at hlists
  -- What one text has more than the other is the beginning of the other one's number.
  have hmore {shorter longer : String} {between digits : List Char} {number : Nat}
      (htext : longer.toList = shorter.toList ++ between) (hb : between ≠ [])
      (hdigits : Nat.toDigits 10 number = between ++ digits) :
      ∃ number : Nat, longer = shorter ++ toString number := by
    obtain ⟨number, rfl⟩ := toDigits_of_append hb digits hdigits
    refine ⟨number, String.toList_injective ?_⟩
    rw [htext, String.toList_append, toList_toString_nat]
  rcases List.append_eq_append_iff.mp hlists with ⟨between, ht, hd⟩ | ⟨between, ht, hd⟩
  · refine .inr (hmore ht (fun hnil => hne (toDigits_injective ?_)) hd)
    rw [hd, hnil, List.nil_append]
  · refine .inl (hmore ht (fun hnil => hne (toDigits_injective ?_)) hd)
    rw [hd, hnil, List.nil_append]

end ApiAtlas
