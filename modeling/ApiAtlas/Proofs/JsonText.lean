import Mathlib.Data.List.TakeWhile
import ApiAtlas.Proofs.WrittenJson

namespace ApiAtlas

namespace Json

/-- What may stand after a value: nothing, or a mark that ends an item or a member. -/
def Ends : List Char → Prop
  | [] => True
  | c :: _ => c = ',' ∨ c = ']' ∨ c = '\x7d'

section
variable {cs rest : List Char}

theorem takeDigits_append (h : Ends rest) (cs : List Char) :
    takeDigits (cs ++ rest) = ((takeDigits cs).1, (takeDigits cs).2 ++ rest) := by
  have hrest : rest.takeWhile Char.isDigit = [] ∧ rest.dropWhile Char.isDigit = rest := by
    cases rest with
    | nil => exact ⟨rfl, rfl⟩
    | cons c rest => rcases h with rfl | rfl | rfl <;> exact ⟨rfl, rfl⟩
  induction cs with
  | nil => simp [takeDigits, hrest]
  | cons c cs ih =>
    by_cases hc : c.isDigit = true
    · simpa [takeDigits, hc] using ih
    · simp [takeDigits, hc]

theorem takeMinus_append (h : Ends rest) (cs : List Char) :
    takeMinus (cs ++ rest) = ((takeMinus cs).1, (takeMinus cs).2 ++ rest) := by
  cases cs with
  | nil =>
    cases rest with
    | nil => rfl
    | cons c rest => rcases h with rfl | rfl | rfl <;> rfl
  | cons c cs =>
    by_cases hc : c = '-'
    · subst hc
      rfl
    · simp [takeMinus, hc]

theorem takeSign_append (h : Ends rest) (cs : List Char) :
    takeSign (cs ++ rest) = ((takeSign cs).1, (takeSign cs).2 ++ rest) := by
  cases cs with
  | nil =>
    cases rest with
    | nil => rfl
    | cons c rest => rcases h with rfl | rfl | rfl <;> rfl
  | cons c cs =>
    by_cases hm : c = '-'
    · subst hm
      rfl
    · by_cases hp : c = '+'
      · subst hp
        rfl
      · simp [takeSign, hm, hp]

theorem takeFraction?_append (h : Ends rest) (cs : List Char) :
    takeFraction? (cs ++ rest) = (takeFraction? cs).map fun (found, cs) => (found, cs ++ rest) := by
  cases cs with
  | nil =>
    cases rest with
    | nil => rfl
    | cons c rest => rcases h with rfl | rfl | rfl <;> rfl
  | cons c cs =>
    by_cases hc : c = '.'
    · subst hc
      simp only [List.cons_append, takeFraction?, takeDigits_append h]
      split <;> rfl
    · simp [takeFraction?, hc]

theorem takeExponent?_append (h : Ends rest) (cs : List Char) :
    takeExponent? (cs ++ rest) = (takeExponent? cs).map fun (found, cs) => (found, cs ++ rest) := by
  cases cs with
  | nil =>
    cases rest with
    | nil => rfl
    | cons c rest => rcases h with rfl | rfl | rfl <;> rfl
  | cons c cs =>
    simp only [List.cons_append, takeExponent?, takeSign_append h, takeDigits_append h]
    split
    next => split <;> rfl
    next => rfl

/-- A number is read the same whatever follows it. -/
theorem number?_append (h : Ends rest) (cs : List Char) :
    number? (cs ++ rest) = (number? cs).map fun (scalar, cs) => (scalar, cs ++ rest) := by
  simp only [number?, takeMinus_append h, takeDigits_append h, takeFraction?_append h]
  split
  next => rfl
  next =>
    cases takeFraction? (takeDigits (takeMinus cs).2).2 with
    | none => rfl
    | some found =>
      simp only [Option.map_some, Option.bind_eq_bind, Option.bind_some, takeExponent?_append h]
      cases takeExponent? found.2 <;> rfl

/-- A number starts with a digit or a minus sign. -/
theorem head_of_number? {scalar : Scalar} (h : number? cs = some (scalar, rest)) :
    ∃ c tail, cs = c :: tail ∧ (c = '-' ∨ c.isDigit = true) := by
  cases cs with
  | nil => simp [number?, takeMinus, takeDigits] at h
  | cons c tail =>
    refine ⟨c, tail, rfl, ?_⟩
    by_contra hc
    rw [not_or] at hc
    have hminus : takeMinus (c :: tail) = (false, c :: tail) := by simp [takeMinus, hc.1]
    simp [number?, hminus, takeDigits, hc.2] at h

end

/-- A natural number is read from its digits. -/
theorem takeDigits_natDigits (n : Nat) :
    takeDigits (natDigits n) = ((natDigits n).map digitValue, []) ∧
      digitsValue ((natDigits n).map digitValue) = n := by
  have hdigits : ∀ c ∈ natDigits n, c.isDigit = true := fun c hc =>
    Nat.isDigit_of_mem_toDigits (by decide) (by decide) hc
  refine ⟨?_, ?_⟩
  · rw [takeDigits, List.takeWhile_eq_self_iff.mpr hdigits, List.dropWhile_eq_nil_iff.mpr hdigits]
  · rw [digitsValue, List.foldl_map]
    exact Nat.ofDigitChars_toDigits (b := 10) (by decide) (by decide)

/-- No zero stands in front of other digits. -/
theorem head?_natDigits (n : Nat) :
    ((natDigits n).map digitValue).head? = some 0 → (natDigits n).length = 1 := by
  induction n using Nat.strongRecOn with
  | ind n ih =>
    by_cases hn : n < 10
    · rw [natDigits, Nat.toDigits_of_lt_base hn]
      exact fun _ => rfl
    · have hne : natDigits (n / 10) ≠ [] := Nat.toDigits_ne_nil
      have hrec : natDigits n = natDigits (n / 10) ++ [(n % 10).digitChar] :=
        Nat.toDigits_of_base_le (by decide) (by omega)
      rw [hrec, List.map_append, List.head?_append_of_ne_nil _ (by simpa using hne)]
      intro hz
      exfalso
      have hone := ih (n / 10) (by omega) hz
      -- One digit that is zero spells zero, but `n` has at least two digits.
      obtain ⟨-, hvalue⟩ := takeDigits_natDigits (n / 10)
      cases hd : natDigits (n / 10) with
      | nil => exact hne hd
      | cons d ds =>
        rw [hd] at hz hone hvalue
        obtain rfl : ds = [] := by simpa using hone
        simp only [List.map_cons, List.map_nil, List.head?_cons, Option.some.injEq] at hz hvalue
        rw [hz] at hvalue
        have : n / 10 = 0 := hvalue.symm
        omega

/-- The digits of a natural number, with or without a minus sign, are read as a whole number. -/
theorem number?_natDigits {text : List Char} {negative : Bool} {n : Nat}
    (h : takeMinus text = (negative, natDigits n)) :
    number? text =
      some (numberScalar true ⟨negative, (natDigits n).map digitValue, [], 0⟩, []) := by
  obtain ⟨hdigits, -⟩ := takeDigits_natDigits n
  have hne : natDigits n ≠ [] := Nat.toDigits_ne_nil
  have hwhole : ¬(((natDigits n).map digitValue).isEmpty = true ∨
      (((natDigits n).map digitValue).head? = some 0 ∧
        ((natDigits n).map digitValue).length ≠ 1)) := by
    rintro (he | ⟨hh, hl⟩)
    · simp [hne] at he
    · exact hl (by simpa using head?_natDigits n hh)
  simp only [number?, h, hdigits]
  rw [if_neg hwhole]
  rfl

theorem number?_intText {z : Int} (least : -(2 ^ 63 : Int) ≤ z) (most : z < 2 ^ 64) :
    number? (intText z) = some ({ datum := some (Json.int z).datum }, []) := by
  cases z with
  | ofNat n =>
    have hminus : takeMinus (intText (.ofNat n)) = (false, natDigits n) := by
      cases hd : natDigits n with
      | nil => exact absurd hd Nat.toDigits_ne_nil
      | cons c cs =>
        have hc : c.isDigit = true := Nat.isDigit_of_mem_toDigits (by decide) (by decide)
          (show c ∈ natDigits n from hd ▸ List.mem_cons_self)
        have hne : c ≠ '-' := by
          rintro rfl
          exact absurd hc (by decide)
        have htext : intText (.ofNat n) = c :: cs := by
          rw [intText, if_neg (by simp)]
          exact hd
        rw [htext]
        simp [takeMinus, hne]
    have hn : n < Nat.pow 2 64 := by
      have : (n : Int) < 2 ^ 64 := most
      exact_mod_cast this
    rw [number?_natDigits hminus]
    simp only [numberScalar, (takeDigits_natDigits n).2, Json.datum]
    rw [if_pos ⟨trivial, by simp, hn⟩]
  | negSucc n =>
    have hminus : takeMinus (intText (.negSucc n)) = (true, natDigits (n + 1)) := by
      rw [intText, if_pos (Int.negSucc_lt_zero n)]
      rfl
    have hn : n + 1 ≤ Nat.pow 2 63 := by
      have : n + 1 ≤ 2 ^ 63 := by omega
      exact this
    rw [number?_natDigits hminus]
    simp only [numberScalar, (takeDigits_natDigits (n + 1)).2, Json.datum]
    rw [if_neg (by simp), if_pos ⟨trivial, trivial, by omega, hn⟩]

theorem numberScalar_eq (isWhole : Bool) (d : Decimal) :
    numberScalar isWhole d = { datum := (numberScalar isWhole d).datum } := by
  unfold numberScalar
  simp only
  split
  next => rfl
  next => split <;> first | rfl | (split <;> rfl)

/-- The number is read back from its text. -/
def rereads (x : Binary64) : Bool :=
  match number? (x.text exponentStyle) with
  | some ({ datum := some (.float (some y)), .. }, []) => x == y
  | _ => false

theorem number?_text {x : Binary64} (h : rereads x = true) :
    number? (x.text exponentStyle) = some ({ datum := some (Json.float x).datum }, []) := by
  unfold rereads at h
  split at h
  next hn =>
    rw [beq_iff_eq] at h
    subst h
    obtain ⟨isWhole, d, hd⟩ := exists_of_number? hn
    rw [hn, hd, numberScalar_eq, ← hd]
    rfl
  next => cases h

mutual

/-- The numbers of a value that have a fraction or an exponent. -/
def floats : Json → List Binary64
  | .float x => [x]
  | .array items => floatsOfItems items
  | .object members => floatsOfMembers members
  | _ => []

/-- The numbers with a fraction or an exponent in a list. -/
def floatsOfItems : List Json → List Binary64
  | [] => []
  | v :: vs => v.floats ++ floatsOfItems vs

/-- The numbers with a fraction or an exponent in a map. -/
def floatsOfMembers : List (String × Json) → List Binary64
  | [] => []
  | (_, v) :: ms => v.floats ++ floatsOfMembers ms

end

theorem hexUnit?_hexDigit : ∀ n < 32,
    hexUnit? '0' '0' (hexDigit (n / 16)) (hexDigit (n % 16)) = some n := by
  decide

/-- An escaped character is read as the character. -/
theorem stringUnits_escapeChar (c : Char) (rest : List Char) :
    stringUnits (escapeChar c ++ rest) =
      (stringUnits rest).map fun (units, rest) => (c.toNat :: units, rest) := by
  have hshort : ∀ letter, unescape? letter = some c → letter ≠ 'u' →
      stringUnits ('\\' :: letter :: rest) =
        (stringUnits rest).map fun (units, rest) => (c.toNat :: units, rest) := by
    intro letter hletter hu
    rw [stringUnits]
    · rw [hletter]
      cases stringUnits rest <;> rfl
    · intro _ _ _ _ _ h _
      exact hu h
  unfold escapeChar
  split_ifs with h1 h2 h3 h4 h5 h6 h7 h8
  · exact hshort '"' (by rw [h1]; rfl) (by decide)
  · exact hshort '\\' (by rw [h2]; rfl) (by decide)
  · exact hshort 'b' (by rw [h3]; rfl) (by decide)
  · exact hshort 'f' (by rw [h4]; rfl) (by decide)
  · exact hshort 'n' (by rw [h5]; rfl) (by decide)
  · exact hshort 'r' (by rw [h6]; rfl) (by decide)
  · exact hshort 't' (by rw [h7]; rfl) (by decide)
  · simp only [List.cons_append, List.nil_append]
    rw [stringUnits, hexUnit?_hexDigit _ h8]
    cases stringUnits rest <;> rfl
  · rw [List.singleton_append, stringUnits, if_neg (by simp [h2, h8])]
    all_goals simp_all

theorem stringUnits_quote (cs rest : List Char) :
    stringUnits (cs.flatMap escapeChar ++ '"' :: rest) = some (cs.map Char.toNat, rest) := by
  induction cs with
  | nil => rw [List.flatMap_nil, List.nil_append, stringUnits, List.map_nil]
  | cons c cs ih =>
    rw [List.flatMap_cons, List.append_assoc, stringUnits_escapeChar, ih]
    rfl

/-- No character is a surrogate. -/
theorem toNat_not_surrogate (c : Char) : c.toNat < 0xD800 ∨ 0xDFFF < c.toNat := by
  rcases c.valid with h | h
  · exact .inl h
  · exact .inr h.1

theorem joinSurrogates_toNat (cs : List Char) :
    joinSurrogates (cs.map Char.toNat) = some cs := by
  induction cs with
  | nil => rfl
  | cons c cs ih =>
    have hc := toNat_not_surrogate c
    cases cs with
    | nil =>
      rw [List.map_cons, List.map_nil, joinSurrogates, if_neg (by omega), Char.ofNat_toNat]
    | cons d ds =>
      rw [List.map_cons, List.map_cons, joinSurrogates, if_neg (by omega), if_neg (by omega),
        ← List.map_cons, ih, Option.map_some, Char.ofNat_toNat]

theorem stringScalar_toNat (s : String) : Node.scalar (stringScalar (s.toList.map Char.toNat)) =
    (Json.string s).node := by
  rw [stringScalar, joinSurrogates_toNat]
  simp [node]

section
variable {fuel room : Nat} {cs rest : List Char}

theorem valueFrom_quote (fuel room : Nat) (cs : List Char) : valueFrom (fuel + 1) room ('"' :: cs) =
    (stringUnits cs).map fun (units, rest) => (.scalar (stringScalar units), rest) := rfl

/-- A number is told from the other values by how it starts. -/
theorem valueFrom_number {scalar : Scalar} (h : number? cs = some (scalar, []))
    (hrest : Ends rest) :
    valueFrom (fuel + 1) room (cs ++ rest) = some (.scalar scalar, rest) := by
  have hall : number? (cs ++ rest) = some (scalar, rest) := by
    rw [number?_append hrest, h]
    rfl
  obtain ⟨c, tail, rfl, hc⟩ := head_of_number? h
  have hne : ∀ other : Char, other ≠ '-' → other.isDigit = false → c ≠ other := by
    rintro other hminus hdigit rfl
    rcases hc with rfl | hc
    · exact hminus rfl
    · rw [hc] at hdigit
      cases hdigit
  have hblank : skipBlanks (c :: tail ++ rest) = c :: tail ++ rest := by
    rw [List.cons_append, skipBlanks, if_neg]
    simp [hne]
  have hlead : ∀ (l : Char) (lead : List Char), l ≠ '-' → l.isDigit = false →
      afterLead? (l :: lead) (c :: tail ++ rest) = none := by
    intro l lead hminus hdigit
    rw [List.cons_append, afterLead?, if_neg (hne l hminus hdigit).symm]
  rw [valueFrom, hblank]
  split
  next h => exact absurd (List.cons.inj h).1 (hne _ (by decide) (by decide))
  next h => exact absurd (List.cons.inj h).1 (hne _ (by decide) (by decide))
  next h => exact absurd (List.cons.inj h).1 (hne _ (by decide) (by decide))
  next =>
    rw [hlead 'n' _ (by decide) (by decide), hlead 't' _ (by decide) (by decide),
      hlead 'f' _ (by decide) (by decide), hall]
    rfl

theorem valueFrom_scalar {v : Json} (hv : v.isScalar = true) (fits : v.Within room)
    (hf : ∀ x ∈ v.floats, rereads x = true) (hrest : Ends rest) :
    valueFrom (fuel + 1) room (v.compact ++ rest) = some (v.node, rest) := by
  cases v with
  | null => rfl
  | bool b => cases b <;> rfl
  | int z =>
    cases fits with
    | int least most => exact valueFrom_number (number?_intText least most) hrest
  | float x => exact valueFrom_number (number?_text (hf x (by simp [floats]))) hrest
  | string s =>
    simp only [compact, quote, List.cons_append, List.append_assoc, List.nil_append]
    rw [valueFrom_quote, stringUnits_quote, Option.map_some, ← stringScalar_toNat]
  | array | object => cases hv

/-- A value starts with a mark that neither ends its list nor is passed over. -/
theorem head_compact {v : Json} (fits : v.Within room) (hf : ∀ x ∈ v.floats, rereads x = true) :
    ∃ c tail, v.compact = c :: tail ∧ c ≠ ']' ∧ ∀ rest, skipBlanks (c :: rest) = c :: rest := by
  have hnumber : ∀ {cs : List Char} {scalar : Scalar}, number? cs = some (scalar, []) →
      ∃ c tail, cs = c :: tail ∧ c ≠ ']' ∧ ∀ rest, skipBlanks (c :: rest) = c :: rest := by
    intro cs scalar h
    obtain ⟨c, tail, rfl, hc⟩ := head_of_number? h
    refine ⟨c, tail, rfl, ?_, ?_⟩
    · rintro rfl
      exact absurd hc (by decide)
    · intro rest
      rw [skipBlanks, if_neg]
      rintro (rfl | rfl | rfl | rfl) <;> exact absurd hc (by decide)
  cases v with
  | null => exact ⟨'n', _, rfl, by decide, fun _ => rfl⟩
  | bool b => cases b <;> exact ⟨_, _, rfl, by decide, fun _ => rfl⟩
  | int z =>
    cases fits with
    | int least most => exact hnumber (number?_intText least most)
  | float x => exact hnumber (number?_text (hf x (by simp [floats])))
  | string s => exact ⟨'"', _, rfl, by decide, fun _ => rfl⟩
  | array items => exact ⟨'[', _, rfl, by decide, fun _ => rfl⟩
  | object members => exact ⟨'\x7b', _, rfl, by decide, fun _ => rfl⟩

theorem head_compactItems {v : Json} (vs : List Json) (fits : v.Within room)
    (hf : ∀ x ∈ v.floats, rereads x = true) : ∃ c tail, compactItems (v :: vs) = c :: tail ∧
      c ≠ ']' ∧ ∀ rest, skipBlanks (c :: rest) = c :: rest := by
  obtain ⟨c, tail, hc, hhead⟩ := head_compact fits hf
  cases vs with
  | nil => exact ⟨c, tail, by rw [compactItems, hc], hhead⟩
  | cons w ws => exact ⟨c, _, by rw [compactItems, hc, List.cons_append], hhead⟩

theorem head_compactMembers (m : String × Json) (ms : List (String × Json)) :
    ∃ tail, compactMembers (m :: ms) = '"' :: tail := by
  obtain ⟨key, v⟩ := m
  cases ms with
  | nil => exact ⟨_, rfl⟩
  | cons m ms => exact ⟨_, rfl⟩

/-- The items of a list that are not left out. -/
theorem valueFrom_items {items : List Node} (hne : ∀ tail, cs ≠ ']' :: tail)
    (hblank : skipBlanks cs = cs)
    (h : itemsFrom fuel room cs = some (items, rest)) :
    valueFrom (fuel + 1) (room + 1) ('[' :: cs) = some (.sequence true true items, rest) := by
  have hopen : skipBlanks ('[' :: cs) = '[' :: cs := rfl
  rw [valueFrom, hopen]
  simp only [hblank]
  rw [Nat.add_sub_cancel, h]
  rfl

theorem valueFrom_members {members : List (Node × Node)}
    (h : membersFrom fuel room ('"' :: cs) = some (members, rest)) :
    valueFrom (fuel + 1) (room + 1) ('\x7b' :: '"' :: cs) = some (.mapping true members, rest) := by
  have hopen : valueFrom (fuel + 1) (room + 1) ('\x7b' :: '"' :: cs) =
      (membersFrom fuel room ('"' :: cs)).map fun result =>
        (.mapping true result.1, result.2) := rfl
  rw [hopen, h]
  rfl

theorem itemsFrom_last {item : Node} (h : valueFrom fuel room cs = some (item, ']' :: rest)) :
    itemsFrom (fuel + 1) room cs = some ([item], rest) := by
  rw [itemsFrom, h]
  rfl

theorem itemsFrom_next {item : Node} {items : List Node} {more : List Char}
    (h : valueFrom fuel room cs = some (item, ',' :: more))
    (hmore : itemsFrom fuel room more = some (items, rest)) :
    itemsFrom (fuel + 1) room cs = some (item :: items, rest) := by
  have hcomma : skipBlanks (',' :: more) = ',' :: more := rfl
  rw [itemsFrom, h]
  simp only [Option.bind_eq_bind, Option.bind_some, hcomma, hmore, Option.map_some]

theorem skipBlanks_quote (key : String) (cs : List Char) : skipBlanks (quote key ++ cs) =
    '"' :: (key.toList.flatMap escapeChar ++ '"' :: cs) := by
  simp [quote, skipBlanks]

theorem membersFrom_last {key : String} {value : Node}
    (h : valueFrom fuel room cs = some (value, '\x7d' :: rest)) :
    membersFrom (fuel + 1) room (quote key ++ ':' :: cs) =
      some ([((Json.string key).node, value)], rest) := by
  have hcolon : skipBlanks (':' :: cs) = ':' :: cs := rfl
  have hclose : skipBlanks ('\x7d' :: rest) = '\x7d' :: rest := rfl
  rw [membersFrom]
  simp only [skipBlanks_quote, stringUnits_quote, Option.bind_eq_bind, Option.bind_some, hcolon, h,
    hclose, stringScalar_toNat]

theorem membersFrom_next {key : String} {value : Node} {members : List (Node × Node)}
    {more : List Char} (h : valueFrom fuel room cs = some (value, ',' :: more))
    (hmore : membersFrom fuel room more = some (members, rest)) :
    membersFrom (fuel + 1) room (quote key ++ ':' :: cs) =
      some (((Json.string key).node, value) :: members, rest) := by
  have hcolon : skipBlanks (':' :: cs) = ':' :: cs := rfl
  have hcomma : skipBlanks (',' :: more) = ',' :: more := rfl
  rw [membersFrom]
  simp only [skipBlanks_quote, stringUnits_quote, Option.bind_eq_bind, Option.bind_some, hcolon, h,
    hcomma, hmore, Option.map_some, stringScalar_toNat]

/-- The value is read from its text, whatever follows. -/
def IsRead (room : Nat) (v : Json) : Prop :=
  ∀ {fuel : Nat} {rest : List Char}, Ends rest → v.compact.length ≤ fuel →
    valueFrom fuel room (v.compact ++ rest) = some (v.node, rest)

/-- A list takes one step more than its text has characters: its last item has no comma. -/
theorem itemsFrom_compact {items : List Json} (hne : items ≠ [])
    (each : ∀ v ∈ items, IsRead room v) (hfuel : (compactItems items).length < fuel) :
    itemsFrom fuel room (compactItems items ++ ']' :: rest) = some (nodes items, rest) := by
  induction items generalizing fuel with
  | nil => exact absurd rfl hne
  | cons v vs ih =>
    obtain ⟨fuel, rfl⟩ := Nat.exists_eq_add_one_of_ne_zero (Nat.ne_of_gt (Nat.zero_lt_of_lt hfuel))
    obtain ⟨hv, hvs⟩ := List.forall_mem_cons.mp each
    cases vs with
    | nil =>
      rw [compactItems] at hfuel ⊢
      exact itemsFrom_last (hv (.inr (.inl rfl)) (by omega))
    | cons w ws =>
      rw [compactItems, List.length_append, List.length_cons] at hfuel
      rw [compactItems, List.append_assoc, List.cons_append]
      exact itemsFrom_next (hv (.inl rfl) (by omega)) (ih (by simp) hvs (by omega))

theorem membersFrom_compact {members : List (String × Json)} (hne : members ≠ [])
    (each : ∀ m ∈ members, IsRead room m.2) (hfuel : (compactMembers members).length < fuel) :
    membersFrom fuel room (compactMembers members ++ '\x7d' :: rest) =
      some (nodesOfMembers members, rest) := by
  induction members generalizing fuel with
  | nil => exact absurd rfl hne
  | cons m ms ih =>
    obtain ⟨key, v⟩ := m
    obtain ⟨fuel, rfl⟩ := Nat.exists_eq_add_one_of_ne_zero (Nat.ne_of_gt (Nat.zero_lt_of_lt hfuel))
    have hv : IsRead room v := each (key, v) List.mem_cons_self
    have hvs : ∀ m ∈ ms, IsRead room m.2 := fun m hm => each m (List.mem_cons_of_mem _ hm)
    cases ms with
    | nil =>
      simp only [compactMembers, List.length_append, List.length_cons, List.append_assoc,
        List.cons_append] at hfuel ⊢
      exact membersFrom_last (hv (.inr (.inr rfl)) (by omega))
    | cons m ms =>
      simp only [compactMembers, List.length_append, List.length_cons, List.append_assoc,
        List.cons_append] at hfuel ⊢
      exact membersFrom_next (hv (.inl rfl) (by omega)) (ih (by simp) hvs (by omega))

theorem floatsOfItems_eq (items : List Json) : floatsOfItems items = items.flatMap floats := by
  induction items with
  | nil => rfl
  | cons v vs ih => rw [floatsOfItems, ih, List.flatMap_cons]

theorem floatsOfMembers_eq (members : List (String × Json)) :
    floatsOfMembers members = members.flatMap fun m => m.2.floats := by
  induction members with
  | nil => rfl
  | cons m ms ih => rw [floatsOfMembers, ih, List.flatMap_cons]

/-- The induction is over the value; `room` shrinks with each collection that is gone into. -/
theorem isRead (v : Json) (fits : v.Within room) (hf : ∀ x ∈ v.floats, rereads x = true) :
    IsRead room v := by
  induction v using induct generalizing room with
  | scalar v hv =>
    intro fuel rest hrest hfuel
    obtain ⟨c, tail, hc, -⟩ := head_compact fits hf
    rw [hc, List.length_cons] at hfuel
    obtain ⟨fuel, rfl⟩ := Nat.exists_eq_add_one_of_ne_zero (show fuel ≠ 0 by omega)
    exact valueFrom_scalar hv fits hf hrest
  | array items ih =>
    cases fits with
    | array each =>
    rw [floats, floatsOfItems_eq] at hf
    have hread : ∀ v ∈ items, IsRead _ v := fun v hv =>
      ih v hv (each v hv) fun x hx => hf x (List.mem_flatMap_of_mem hv hx)
    intro fuel rest hrest hfuel
    simp only [compact, List.length_cons, List.length_append, List.length_nil] at hfuel
    obtain ⟨fuel, rfl⟩ := Nat.exists_eq_add_one_of_ne_zero (show fuel ≠ 0 by omega)
    simp only [compact, List.cons_append, List.append_assoc, List.nil_append]
    cases items with
    | nil => rfl
    | cons v vs =>
      obtain ⟨c, tail, hc, hne, hblank⟩ := head_compactItems vs
        (each v List.mem_cons_self) fun x hx => hf x (List.mem_flatMap_of_mem List.mem_cons_self hx)
      have hitems : itemsFrom fuel _ (compactItems (v :: vs) ++ ']' :: rest) = _ :=
        itemsFrom_compact (by simp) hread (by omega)
      rw [hc, List.cons_append] at hitems ⊢
      exact valueFrom_items (fun _ h => hne (List.cons.inj h).1) (hblank _) hitems
  | object members ih =>
    cases fits with
    | object each =>
    rw [floats, floatsOfMembers_eq] at hf
    have hread : ∀ m ∈ members, IsRead _ m.2 := fun m hm =>
      ih m hm (each m hm) fun x hx => hf x (List.mem_flatMap_of_mem hm hx)
    intro fuel rest hrest hfuel
    simp only [compact, List.length_cons, List.length_append, List.length_nil] at hfuel
    obtain ⟨fuel, rfl⟩ := Nat.exists_eq_add_one_of_ne_zero (show fuel ≠ 0 by omega)
    simp only [compact, List.cons_append, List.append_assoc, List.nil_append]
    cases members with
    | nil => rfl
    | cons m ms =>
      obtain ⟨tail, hm⟩ := head_compactMembers m ms
      have hmembers : membersFrom fuel _ (compactMembers (m :: ms) ++ '\x7d' :: rest) = _ :=
        membersFrom_compact (by simp) hread (by omega)
      rw [hm, List.cons_append] at hmembers ⊢
      exact valueFrom_members hmembers

end

/-- A value is read back from its text if its numbers are. -/
theorem readNode_toText {v : Json} (fits : v.Within maxDepth)
    (hf : ∀ x ∈ v.floats, rereads x = true) : readNode v.toText = some v.node := by
  have hread : valueFrom (v.compact.length + 1) maxDepth (v.compact ++ []) = some (v.node, []) :=
    isRead v fits hf trivial (Nat.le_succ _)
  rw [List.append_nil] at hread
  rw [readNode, toText, String.toList_ofList, readChars, hread]
  rfl

end Json

end ApiAtlas
