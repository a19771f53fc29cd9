import ApiAtlas.Proofs.StatusKeys

namespace ApiAtlas

theorem digitsValue_concat (digits : List Nat) (last : Nat) :
    digitsValue (digits ++ [last]) = 10 * digitsValue digits + last := List.foldl_append

/-- Digits that spell no zero have a last one. -/
theorem exists_concat_of_digitsValue_ne {digits : List Nat} (h : digitsValue digits ≠ 0) :
    ∃ front last, digits = front ++ [last] := by
  cases digits using List.reverseRecOn with
  | nil => exact absurd rfl h
  | append_singleton front last => exact ⟨front, last, rfl⟩

theorem eq_replicate_of_digitsValue {digits : List Nat} (h : digitsValue digits = 0) :
    digits = List.replicate digits.length 0 := by
  induction digits using List.reverseRecOn with
  | nil => rfl
  | append_singleton front last ih =>
    rw [digitsValue_concat] at h
    have hfront := ih (by omega)
    have hlast : last = 0 := by omega
    rw [hlast, List.length_append, List.length_singleton, List.replicate_succ', ← hfront]

theorem digitsValue_replicate (zeros : Nat) (digits : List Nat) :
    digitsValue (List.replicate zeros 0 ++ digits) = digitsValue digits := by
  induction digits using List.reverseRecOn with
  | nil =>
    induction zeros with
    | zero => rfl
    | succ zeros ih => simpa [digitsValue, List.replicate_succ] using ih
  | append_singleton digits last ih =>
    rw [← List.append_assoc, digitsValue_concat, digitsValue_concat, ih]

/-- The digits of a number of three digits, and zeros in front of them. -/
theorem digitsValue_hundreds_iff {digits : List Nat} {number : Nat}
    (hd : ∀ digit ∈ digits, digit < 10) (hlow : 100 ≤ number) (hhigh : number < 1000) :
    digitsValue digits = number ↔ ∃ zeros a b c, a < 10 ∧ b < 10 ∧ c < 10 ∧
      digits = List.replicate zeros 0 ++ [a, b, c] ∧ number = 100 * a + 10 * b + c := by
  constructor
  · intro h
    -- One digit after the other is taken from the end, until zero remains.
    obtain ⟨tens, c, rfl⟩ := exists_concat_of_digitsValue_ne (by omega : digitsValue digits ≠ 0)
    rw [digitsValue_concat] at h
    have hc : c < 10 := hd c (by simp)
    obtain ⟨hundreds, b, rfl⟩ := exists_concat_of_digitsValue_ne (by omega : digitsValue tens ≠ 0)
    rw [digitsValue_concat] at h
    have hb : b < 10 := hd b (by simp)
    obtain ⟨front, a, rfl⟩ := exists_concat_of_digitsValue_ne (by omega : digitsValue hundreds ≠ 0)
    rw [digitsValue_concat] at h
    have ha : a < 10 := hd a (by simp)
    have hfront : digitsValue front = 0 := by omega
    refine ⟨front.length, a, b, c, ha, hb, hc, ?_, by omega⟩
    rw [← eq_replicate_of_digitsValue hfront]
    simp
  · rintro ⟨zeros, a, b, c, -, -, -, rfl, rfl⟩
    rw [digitsValue_replicate]
    simp [digitsValue]
    omega

/-- Characters that are digits are written for some numbers. -/
theorem exists_digits_of_all_isDigit {chars : List Char} (h : chars.all Char.isDigit = true) :
    ∃ digits : List Nat, (∀ digit ∈ digits, digit < 10) ∧ chars = digits.map Nat.digitChar := by
  induction chars with
  | nil => exact ⟨[], by simp, rfl⟩
  | cons first rest ih =>
    rw [List.all_cons, Bool.and_eq_true] at h
    obtain ⟨digit, hlt, rfl⟩ := exists_digitChar_of_isDigit h.1
    obtain ⟨digits, hdigits, rfl⟩ := ih h.2
    exact ⟨digit :: digits, List.forall_mem_cons.mpr ⟨hlt, hdigits⟩, rfl⟩

theorem value_digitChar {digit : Nat} (h : digit < 10) :
    (Nat.digitChar digit).toNat - '0'.toNat = digit := by
  rw [Nat.toNat_digitChar_of_lt_ten h, show '0'.toNat = 48 from rfl]
  omega

theorem values_map_digitChar {digits : List Nat} (h : ∀ digit ∈ digits, digit < 10) :
    (digits.map Nat.digitChar).map (fun c => c.toNat - '0'.toNat) = digits := by
  rw [List.map_map]
  exact (List.map_congr_left fun digit hm => value_digitChar (h digit hm)).trans (List.map_id _)

namespace Status

/-- A status and a key for it: `default`, the digit of a class and two letters, or three digits. -/
inductive Writes : Status → List Char → Prop
  | default : Writes .default ['d', 'e', 'f', 'a', 'u', 'l', 't']
  | range {digit : Nat} {first second : Char} (low : 1 ≤ digit) (high : digit ≤ 5)
    (hf : first = 'x' ∨ first = 'X') (hs : second = 'x' ∨ second = 'X') :
    Writes (.range digit) [Nat.digitChar digit, first, second]
  | code {a b c : Nat} (ha : a < 10) (hb : b < 10) (hc : c < 10)
    (low : 100 ≤ 100 * a + 10 * b + c) (high : 100 * a + 10 * b + c ≤ 599) :
    Writes (.code (100 * a + 10 * b + c)) [Nat.digitChar a, Nat.digitChar b, Nat.digitChar c]

/-- A status and a key that is read as it: one that is written for it, or the digits of a code with
zeros in front, and with a plus sign in front of these. -/
inductive Denotes : Status → List Char → Prop
  | written {status : Status} {key : List Char} (h : Writes status key) : Denotes status key
  | padded {number : Nat} {digits : List Char} (zeros : Nat) (h : Writes (.code number) digits) :
    Denotes (.code number) (List.replicate zeros '0' ++ digits)
  | signed {number : Nat} {digits : List Char} (zeros : Nat) (h : Writes (.code number) digits) :
    Denotes (.code number) ('+' :: List.replicate zeros '0' ++ digits)

/-- The letter of a class as it is in the text of a status. -/
def capital (c : Char) : Char := if c = 'x' then 'X' else c

variable {key other : List Char} {status : Status} {number : Nat}

theorem all_isDigit_map_digitChar {digits : List Nat} (h : ∀ digit ∈ digits, digit < 10) :
    (digits.map Nat.digitChar).all Char.isDigit = true := by
  rw [List.all_map, List.all_eq_true]
  exact fun digit hm => Nat.isDigit_digitChar.trans (decide_eq_true (h digit hm))

theorem number?_plus {digits : List Nat} (hne : digits ≠ []) (h : ∀ digit ∈ digits, digit < 10) :
    number? ('+' :: digits.map Nat.digitChar) = some (digitsValue digits) := by
  simp only [number?, values_map_digitChar h]
  exact if_pos ⟨by simpa using hne, all_isDigit_map_digitChar h⟩

theorem number?_digits {digits : List Nat} (hne : digits ≠ [])
    (h : ∀ digit ∈ digits, digit < 10) :
    number? (digits.map Nat.digitChar) = some (digitsValue digits) := by
  rw [← number?_plus hne h]
  cases digits with
  | nil => exact absurd rfl hne
  | cons first rest =>
    have hplus : Nat.digitChar first ≠ '+' := digitChar_ne_plus first (h first List.mem_cons_self)
    simp [number?, hplus]

theorem number?_eq_some (h : number? key = some number) : ∃ sign digits,
    (sign = [] ∨ sign = ['+']) ∧ (∀ digit ∈ digits, digit < 10) ∧
      key = sign ++ digits.map Nat.digitChar ∧ digitsValue digits = number := by
  have hread {chars : List Char} (h : chars.all Char.isDigit = true) :
      ∃ digits, (∀ digit ∈ digits, digit < 10) ∧ chars = digits.map Nat.digitChar ∧
        digitsValue digits = digitsValue (chars.map fun c => c.toNat - '0'.toNat) := by
    obtain ⟨digits, hdigits, rfl⟩ := exists_digits_of_all_isDigit h
    exact ⟨digits, hdigits, rfl, by rw [values_map_digitChar hdigits]⟩
  unfold number? at h
  rw [Option.ite_none_right_eq_some] at h
  obtain ⟨⟨-, hall⟩, hvalue⟩ := h
  cases hvalue
  split at hall
  next =>
    obtain ⟨digits, hdigits, rfl, hvalue⟩ := hread hall
    exact ⟨['+'], digits, .inr rfl, hdigits, rfl, hvalue⟩
  next =>
    obtain ⟨digits, hdigits, rfl, hvalue⟩ := hread hall
    exact ⟨[], digits, .inl rfl, hdigits, rfl, hvalue⟩

/-- A code is spelled with three digits, zeros and a plus sign. -/
theorem denotes_code_of_number? (low : 100 ≤ number) (high : number ≤ 599)
    (h : number? key = some number) : Denotes (.code number) key := by
  obtain ⟨sign, digits, hsign, hdigits, rfl, hvalue⟩ := number?_eq_some h
  obtain ⟨zeros, a, b, c, ha, hb, hc, rfl, rfl⟩ :=
    (digitsValue_hundreds_iff hdigits low (by omega)).mp hvalue
  have hwrites := Writes.code ha hb hc low high
  rw [List.map_append, List.map_replicate]
  rcases hsign with rfl | rfl
  · exact .padded zeros hwrites
  · exact .signed zeros hwrites

/-- Three digits spell their number with zeros in front of them, too. -/
theorem Writes.exists_spelled (h : Writes (.code number) key) (zeros : Nat) :
    ∃ digits : List Nat, digits ≠ [] ∧ (∀ digit ∈ digits, digit < 10) ∧
      digitsValue digits = number ∧
        digits.map Nat.digitChar = List.replicate zeros '0' ++ key := by
  cases h with
  | @code a b c ha hb hc low high =>
    have hall : ∀ digit ∈ List.replicate zeros 0 ++ [a, b, c], digit < 10 := by
      intro digit hm
      rcases List.mem_append.mp hm with hm | hm
      · rw [List.eq_of_mem_replicate hm]
        decide
      · simp only [List.mem_cons, List.not_mem_nil, or_false] at hm
        omega
    refine ⟨List.replicate zeros 0 ++ [a, b, c], by simp, hall, ?_, ?_⟩
    · exact (digitsValue_hundreds_iff hall low (by omega)).mpr
        ⟨zeros, a, b, c, ha, hb, hc, rfl, rfl⟩
    · rw [List.map_append, List.map_replicate]
      rfl

theorem number?_of_denotes (h : Denotes (.code number) key) : number? key = some number := by
  cases h with
  | written hw =>
    obtain ⟨digits, hne, hdigits, hvalue, hkey⟩ := hw.exists_spelled 0
    rw [List.replicate_zero, List.nil_append] at hkey
    rw [← hkey, number?_digits hne hdigits, hvalue]
  | padded zeros hw =>
    obtain ⟨digits, hne, hdigits, hvalue, hkey⟩ := hw.exists_spelled zeros
    rw [← hkey, number?_digits hne hdigits, hvalue]
  | signed zeros hw =>
    obtain ⟨digits, hne, hdigits, hvalue, hkey⟩ := hw.exists_spelled zeros
    rw [List.cons_append, ← hkey, number?_plus hne hdigits, hvalue]

theorem Writes.bounds (h : Writes (.code number) key) : 100 ≤ number ∧ number ≤ 599 := by
  cases h with
  | code _ _ _ low high => exact ⟨low, high⟩

theorem Denotes.exists_writes (h : Denotes status key) : ∃ digits, Writes status digits := by
  cases h with
  | written hw => exact ⟨_, hw⟩
  | padded _ hw => exact ⟨_, hw⟩
  | signed _ hw => exact ⟨_, hw⟩

theorem Denotes.bounds (h : Denotes (.code number) key) : 100 ≤ number ∧ number ≤ 599 := by
  obtain ⟨digits, hw⟩ := h.exists_writes
  exact hw.bounds

theorem Writes.head_ne (h : Writes status key) : ∀ c ∈ key.head?, c ≠ '+' ∧ c ≠ '0' := by
  have hdigit : ∀ digit < 10, 1 ≤ digit →
      Nat.digitChar digit ≠ '+' ∧ Nat.digitChar digit ≠ '0' := by decide
  cases h with
  | default => simp
  | range low _ => simpa using hdigit _ (by omega) low
  | code ha _ _ low _ => simpa using hdigit _ ha (by omega)

/-- A key that denotes a status is written for it if no plus sign and no zero stands in front. -/
theorem Denotes.writes_iff_head (h : Denotes status key) :
    Writes status key ↔ ∀ c ∈ key.head?, c ≠ '+' ∧ c ≠ '0' := by
  refine ⟨Writes.head_ne, fun hhead => ?_⟩
  cases h with
  | written hw => exact hw
  | padded zeros hw =>
    cases zeros with
    | zero => exact hw
    | succ zeros => simp [List.replicate_succ] at hhead
  | signed zeros hw => simp at hhead

/-- A key that ends in a digit is read as a number. -/
theorem ofChars?_concat_digit {front : List Char} {digit : Nat} (h : digit < 10) :
    ofChars? (front ++ [Nat.digitChar digit]) =
      ofChars?.ofNumber? (front ++ [Nat.digitChar digit]) := by
  have hx : (Nat.digitChar digit).toLower ≠ 'x' := by
    rw [toLower_digitChar digit h]
    exact digitChar_ne_x digit h
  have hdefault : front ++ [Nat.digitChar digit] ≠ ['d', 'e', 'f', 'a', 'u', 'l', 't'] := by
    intro he
    have hlast := congrArg List.getLast? he
    simp at hlast
  unfold ofChars?
  rw [if_neg hdefault]
  split
  next d x y he =>
    have hlast : y = Nat.digitChar digit := by
      have hends := congrArg List.getLast? he
      simpa using hends.symm
    rw [if_neg fun hxx => hx (hlast ▸ hxx.2)]
  next => rfl

theorem Writes.exists_concat_digit (h : Writes (.code number) key) :
    ∃ front digit, digit < 10 ∧ key = front ++ [Nat.digitChar digit] := by
  cases h with
  | @code a b c _ _ hc => exact ⟨[Nat.digitChar a, Nat.digitChar b], c, hc, rfl⟩

theorem Denotes.exists_concat_digit (h : Denotes (.code number) key) :
    ∃ front digit, digit < 10 ∧ key = front ++ [Nat.digitChar digit] := by
  cases h with
  | written hw => exact hw.exists_concat_digit
  | padded zeros hw =>
    obtain ⟨front, digit, hlt, rfl⟩ := hw.exists_concat_digit
    exact ⟨_, digit, hlt, (List.append_assoc ..).symm⟩
  | signed zeros hw =>
    obtain ⟨front, digit, hlt, rfl⟩ := hw.exists_concat_digit
    exact ⟨_, digit, hlt, (List.append_assoc ..).symm⟩

theorem toLower_eq_x {c : Char} : c.toLower = 'x' ↔ c = 'x' ∨ c = 'X' := by
  refine forall_char_of_capitals (P := fun c => c.toLower = 'x' ↔ c = 'x' ∨ c = 'X')
    (fun c h => ?_) (by decide) c
  have hcapital : c ≠ 'X' := by
    rintro rfl
    exact absurd h (by decide)
  rw [h]
  simp [hcapital]

theorem digitChar_class : ∀ digit < 10,
    '1' ≤ Nat.digitChar digit ∧ Nat.digitChar digit ≤ '5' ↔ 1 ≤ digit ∧ digit ≤ 5 := by decide

/-- A digit that a class may start with. -/
theorem exists_digit_of_class {c : Char} (h : '1' ≤ c ∧ c ≤ '5') :
    ∃ digit, 1 ≤ digit ∧ digit ≤ 5 ∧ c = Nat.digitChar digit := by
  have hlow : (48 : UInt32) ≤ c.val := UInt32.le_trans (by decide) h.1
  have hhigh : c.val ≤ 57 := UInt32.le_trans h.2 (by decide)
  obtain ⟨digit, hlt, rfl⟩ := exists_digitChar_of_isDigit (c := c) (by simp [Char.isDigit, *])
  obtain ⟨low, high⟩ := (digitChar_class digit hlt).mp h
  exact ⟨digit, low, high, rfl⟩

theorem denotes_of_ofNumber? (h : ofChars?.ofNumber? key = some status) : Denotes status key := by
  obtain ⟨number, hn, hs⟩ := Option.bind_eq_some_iff.mp h
  rw [Option.ite_none_right_eq_some] at hs
  obtain ⟨⟨low, high⟩, hcode⟩ := hs
  cases hcode
  exact denotes_code_of_number? low high hn

theorem denotes_of_ofChars? (h : ofChars? key = some status) : Denotes status key := by
  unfold ofChars? at h
  split at h
  next hk =>
    cases h
    exact hk ▸ .written .default
  next =>
    split at h
    next digit first second _ =>
      split at h
      next hx =>
        rw [Option.ite_none_right_eq_some] at h
        obtain ⟨hclass, hs⟩ := h
        obtain ⟨number, low, high, rfl⟩ := exists_digit_of_class hclass
        rw [value_digitChar (by omega)] at hs
        cases hs
        exact .written (.range low high (toLower_eq_x.mp hx.1) (toLower_eq_x.mp hx.2))
      next => exact denotes_of_ofNumber? h
    next => exact denotes_of_ofNumber? h

theorem ofChars?_of_denotes (h : Denotes status key) : ofChars? key = some status := by
  cases status with
  | default =>
    cases h with
    | written hw =>
      cases hw
      rfl
  | range digit =>
    cases h with
    | written hw =>
      cases hw with
      | range low high hf hs =>
        have hlt : digit < 10 := by omega
        rw [ofChars?_range (toLower_eq_x.mpr hf) (toLower_eq_x.mpr hs), value_digitChar hlt]
        exact if_pos ((digitChar_class digit hlt).mpr ⟨low, high⟩)
  | code number =>
    -- A code ends in a digit, so that it is neither `default` nor a class.
    obtain ⟨front, digit, hlt, rfl⟩ := h.exists_concat_digit
    rw [ofChars?_concat_digit hlt, ofChars?.ofNumber?, number?_of_denotes h]
    exact if_pos h.bounds

theorem capital_capital (c : Char) : capital (capital c) = capital c := by
  unfold capital
  split <;> rfl

theorem capital_eq_X {c : Char} : capital c = 'X' ↔ c = 'x' ∨ c = 'X' := by
  unfold capital
  split
  next h => simp [h]
  next h => simp [h]

theorem capital_eq_digit {c d : Char} (hd : d.isDigit = true) : capital c = d ↔ c = d := by
  unfold capital
  split
  next h =>
    subst h
    constructor <;> rintro rfl <;> cases hd
  next => exact Iff.rfl

theorem map_capital_of_not_mem {text : List Char} (hx : 'x' ∉ text) (hX : 'X' ∉ text) :
    key.map capital = text ↔ key = text := by
  have hfixed {chars : List Char} (h : 'x' ∉ chars) : chars.map capital = chars := by
    refine (List.map_congr_left fun c hm => ?_).trans (List.map_id _)
    exact if_neg fun (he : c = 'x') => h (he ▸ hm)
  constructor
  · rintro rfl
    exact (hfixed fun hm => hX (List.mem_map.mpr ⟨'x', hm, rfl⟩)).symm
  · rintro rfl
    exact hfixed hx

theorem writes_code_iff (low : 100 ≤ number) (high : number ≤ 599) :
    Writes (.code number) key ↔ key = (toString number).toList := by
  constructor
  · intro h
    cases h with
    | code ha hb hc low _ => exact (toList_toString_hundreds (by omega) ha hb hc).symm
  · rintro rfl
    obtain ⟨a, b, c, ha, hb, hc, rfl⟩ : ∃ a b c, a < 10 ∧ b < 10 ∧ c < 10 ∧
        number = 100 * a + 10 * b + c :=
      ⟨number / 100, number / 10 % 10, number % 10, by omega, by omega, by omega, by omega⟩
    rw [toList_toString_hundreds (by omega) ha hb hc]
    exact .code ha hb hc low high

/-- The keys that are written for a status are its text, up to the case of the letters of a
class. -/
theorem writes_iff (h : Writes status other) :
    Writes status key ↔ key.map capital = status.text.toList := by
  cases status with
  | default =>
    have htext : key.map capital = Status.default.text.toList ↔
        key = ['d', 'e', 'f', 'a', 'u', 'l', 't'] :=
      map_capital_of_not_mem (by decide) (by decide)
    rw [htext]
    refine ⟨fun hw => ?_, fun he => he ▸ .default⟩
    cases hw
    rfl
  | range digit =>
    obtain ⟨low, high⟩ : 1 ≤ digit ∧ digit ≤ 5 := by
      cases h with
      | range low high => exact ⟨low, high⟩
    have htext : (Status.range digit).text.toList = [Nat.digitChar digit, 'X', 'X'] := by
      rw [text, String.toList_append, toList_toString_nat, Nat.toDigits_of_lt_base (by omega)]
      rfl
    have hdigit : (Nat.digitChar digit).isDigit = true :=
      Nat.isDigit_digitChar.trans (decide_eq_true (by omega))
    rw [htext]
    constructor
    · intro hw
      cases hw with
      | range _ _ hf hs =>
        rw [List.map_cons, List.map_cons, List.map_singleton, capital_eq_X.mpr hf,
          capital_eq_X.mpr hs, (capital_eq_digit hdigit).mpr rfl]
    · intro he
      obtain ⟨first, rest, rfl, hfirst, he⟩ := List.map_eq_cons_iff.mp he
      obtain ⟨second, rest, rfl, hsecond, he⟩ := List.map_eq_cons_iff.mp he
      obtain ⟨third, rest, rfl, hthird, he⟩ := List.map_eq_cons_iff.mp he
      rw [List.map_eq_nil_iff.mp he, (capital_eq_digit hdigit).mp hfirst]
      exact .range low high (capital_eq_X.mp hsecond) (capital_eq_X.mp hthird)
  | code number =>
    obtain ⟨low, high⟩ := h.bounds
    have hdigits {c : Char} (hm : c ∈ (toString number).toList) : c.isDigit = true :=
      Nat.isDigit_of_mem_toDigits (by decide) (by decide) (toList_toString_nat number ▸ hm)
    rw [writes_code_iff low high]
    exact (map_capital_of_not_mem (fun hm => Bool.noConfusion (hdigits hm))
      fun hm => Bool.noConfusion (hdigits hm)).symm

end Status

/-- A key is read as a status just where it is written for it, as `default`, a class or the three
digits of a code, or where it is a code with zeros or a plus sign in front. The text of a status
that a key is read as is read as that status again. A key is that text, up to the case of the
letters of a class, just where it starts with neither; so two such keys of one status differ in
nothing else. -/
theorem Status.parse_grammar (key : String) :
    (∀ status, parse key = some status ↔ Denotes status key.toList) ∧
    (∀ status, parse key = some status → parse status.text = some status ∧
      (Writes status key.toList ↔ key.toList.map capital = status.text.toList) ∧
      (Writes status key.toList ↔ ∀ c ∈ key.toList.head?, c ≠ '+' ∧ c ≠ '0')) ∧
    ∀ status other, Writes status key.toList → Writes status other →
      key.toList.map capital = other.map capital := by
  refine ⟨fun status => ⟨denotes_of_ofChars?, ofChars?_of_denotes⟩, fun status h => ?_,
    fun status other hw ho => ?_⟩
  · have hdenotes := denotes_of_ofChars? h
    obtain ⟨digits, hw⟩ := hdenotes.exists_writes
    have htext : status.text.toList.map capital = status.text.toList := by
      rw [← (writes_iff hw).mp hw, List.map_map]
      exact List.map_congr_left fun c _ => capital_capital c
    exact ⟨ofChars?_of_denotes (.written ((writes_iff hw).mpr htext)), writes_iff hw,
      hdenotes.writes_iff_head⟩
  · rw [(writes_iff hw).mp hw, (writes_iff hw).mp ho]

/-- A plus sign or a zero in front of a code is read over, though the code is not written so. -/
theorem Status.parse_padded :
    parse "+200" = some (.code 200) ∧ parse "0200" = some (.code 200) ∧
      ¬ Writes (.code 200) "+200".toList ∧ ¬ Writes (.code 200) "0200".toList ∧
      parse "200" = some (.code 200) := by
  rw [writes_code_iff (by decide) (by decide), writes_code_iff (by decide) (by decide)]
  decide +kernel

end ApiAtlas
