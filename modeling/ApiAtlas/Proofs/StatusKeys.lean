import ApiAtlas.Proofs.NumberedTexts
import ApiAtlas.Route.Status

namespace ApiAtlas

theorem exists_digitChar_of_isDigit {c : Char} (h : c.isDigit = true) :
    ∃ n < 10, c = Nat.digitChar n := by
  simp only [Char.isDigit, Bool.and_eq_true, decide_eq_true_eq] at h
  obtain ⟨hlow, hhigh⟩ := h
  have hlow : 48 ≤ c.toNat := hlow
  have hhigh : c.toNat ≤ 57 := hhigh
  have hlt : c.toNat - 48 < 10 := by omega
  refine ⟨c.toNat - 48, hlt, Char.toNat_inj.mp ?_⟩
  rw [Nat.toNat_digitChar_of_lt_ten hlt]
  omega

/-- What holds of characters that have no small form beside themselves, and of each capital, holds
of all. -/
theorem forall_char_of_capitals {P : Char → Prop} (hsmall : ∀ c : Char, c.toLower = c → P c)
    (hcapital : ∀ n < 26, P (Char.ofNat ('A'.toNat + n))) (c : Char) : P c := by
  by_cases h : c.val ≥ 'A'.val ∧ c.val ≤ 'Z'.val
  · have hlow : 'A'.toNat ≤ c.toNat := h.1
    have hhigh : c.toNat ≤ 'A'.toNat + 25 := h.2
    have hc := hcapital (c.toNat - 'A'.toNat) (by omega)
    rwa [Nat.add_sub_cancel' hlow, Char.ofNat_toNat] at hc
  · exact hsmall c (dif_neg h)

namespace Status

/-- Keys as they are written: `default`, a digit and two letters of a class, or three digits. -/
inductive Spelled : List Char → Prop
  | default : Spelled "default".toList
  | range {digit first second : Char} (leads : digit.isDigit = true) (hf : first.toLower = 'x')
    (hs : second.toLower = 'x') : Spelled [digit, first, second]
  | code {first second third : Char} (hf : first.isDigit = true) (hs : second.isDigit = true)
    (ht : third.isDigit = true) : Spelled [first, second, third]

theorem toLower_digitChar : ∀ n < 10, (Nat.digitChar n).toLower = Nat.digitChar n := by decide

theorem digitChar_ne_x : ∀ n < 10, Nat.digitChar n ≠ 'x' := by decide

theorem digitChar_ne_plus : ∀ n < 10, Nat.digitChar n ≠ '+' := by decide

theorem ofChars?_range {digit first second : Char} (hf : first.toLower = 'x')
    (hs : second.toLower = 'x') : ofChars? [digit, first, second] =
      if '1' ≤ digit ∧ digit ≤ '5' then some (.range (digit.toNat - '0'.toNat)) else none := by
  simp [ofChars?, hf, hs]

theorem ofChars?_code {a b c : Nat} (ha : a < 10) (hb : b < 10) (hc : c < 10) :
    ofChars? [Nat.digitChar a, Nat.digitChar b, Nat.digitChar c] =
      if 100 ≤ 100 * a + 10 * b + c ∧ 100 * a + 10 * b + c ≤ 599 then
        some (.code (100 * a + 10 * b + c)) else none := by
  have hx : (Nat.digitChar b).toLower ≠ 'x' := by
    rw [toLower_digitChar b hb]
    exact digitChar_ne_x b hb
  have hplus : Nat.digitChar a ≠ '+' := digitChar_ne_plus a ha
  have hnumber : number? [Nat.digitChar a, Nat.digitChar b, Nat.digitChar c] =
      some (100 * a + 10 * b + c) := by
    simp [number?, digitsValue, hplus, Nat.isDigit_digitChar, Nat.toNat_digitChar_of_lt_ten, ha,
      hb, hc]
    omega
  simp [ofChars?, hx, ofChars?.ofNumber?, hnumber]

theorem toLower_x : ('x' : Char).toLower = 'x' := by decide

theorem toList_toLower (text : String) : text.toLower.toList = text.toList.map Char.toLower :=
  String.toList_map

/-- In small letters a key is one of the same status. -/
theorem parse_toLower {key : String} (h : Spelled key.toList) : parse key.toLower = parse key := by
  rw [parse, parse, toList_toLower]
  generalize key.toList = chars at h
  cases h with
  | default => decide
  | @range digit first second leads hf hs =>
    obtain ⟨n, hn, rfl⟩ := exists_digitChar_of_isDigit leads
    rw [List.map_cons, List.map_cons, List.map_singleton, hf, hs, toLower_digitChar n hn,
      ofChars?_range toLower_x toLower_x, ofChars?_range hf hs]
  | @code first second third hf hs ht =>
    obtain ⟨a, ha, rfl⟩ := exists_digitChar_of_isDigit hf
    obtain ⟨b, hb, rfl⟩ := exists_digitChar_of_isDigit hs
    obtain ⟨c, hc, rfl⟩ := exists_digitChar_of_isDigit ht
    rw [List.map_cons, List.map_cons, List.map_singleton, toLower_digitChar a ha,
      toLower_digitChar b hb, toLower_digitChar c hc]

theorem toList_toString_hundreds {a b c : Nat} (ha : a ≠ 0) (ha' : a < 10) (hb : b < 10)
    (hc : c < 10) : (toString (100 * a + 10 * b + c)).toList =
      [Nat.digitChar a, Nat.digitChar b, Nat.digitChar c] := by
  have htens : (100 * a + 10 * b + c) / 10 = 10 * a + b := by omega
  have hone : (100 * a + 10 * b + c) % 10 = c := by omega
  have hhundreds : (10 * a + b) / 10 = a := by omega
  have hten : (10 * a + b) % 10 = b := by omega
  rw [toList_toString_nat, Nat.toDigits_of_base_le (by decide) (by omega), htens, hone,
    Nat.toDigits_of_base_le (by decide) (by omega), hhundreds, hten,
    Nat.toDigits_of_lt_base (by omega)]
  rfl

/-- A key that is written as keys are is the text of its status, up to the case of letters. -/
theorem text_of_parse {key : String} {status : Status} (h : Spelled key.toList)
    (hp : parse key = some status) : status.text.toLower = key.toLower := by
  refine String.toList_injective ?_
  rw [parse] at hp
  rw [toList_toLower, toList_toLower]
  generalize key.toList = chars at h hp
  cases h with
  | default =>
    cases hp
    decide
  | @range digit first second leads hf hs =>
    obtain ⟨n, hn, rfl⟩ := exists_digitChar_of_isDigit leads
    rw [ofChars?_range hf hs, Option.ite_none_right_eq_some] at hp
    obtain ⟨-, hp⟩ := hp
    cases hp
    have hdigit : (Nat.digitChar n).toNat - '0'.toNat = n := by
      rw [Nat.toNat_digitChar_of_lt_ten hn, show '0'.toNat = 48 from rfl]
      omega
    rw [text, hdigit, String.toList_append, toList_toString_nat, Nat.toDigits_of_lt_base hn]
    simp [hf, hs]
  | @code first second third hf hs ht =>
    obtain ⟨a, ha, rfl⟩ := exists_digitChar_of_isDigit hf
    obtain ⟨b, hb, rfl⟩ := exists_digitChar_of_isDigit hs
    obtain ⟨c, hc, rfl⟩ := exists_digitChar_of_isDigit ht
    rw [ofChars?_code ha hb hc, Option.ite_none_right_eq_some] at hp
    obtain ⟨hrange, hp⟩ := hp
    cases hp
    rw [text, toList_toString_hundreds (by omega) ha hb hc]

/-- Two keys written as keys are stand for one status just where only the case of their letters
differs. -/
theorem parse_eq_iff {key other : String} {status : Status} (h : Spelled key.toList)
    (ho : Spelled other.toList) (hp : parse key = some status) :
    parse other = some status ↔ other.toLower = key.toLower := by
  constructor
  · intro hother
    rw [← text_of_parse h hp, ← text_of_parse ho hother]
  · intro he
    rw [← parse_toLower ho, he, parse_toLower h, hp]

end Status

end ApiAtlas
