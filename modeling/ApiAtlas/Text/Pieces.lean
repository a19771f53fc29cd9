namespace ApiAtlas

/-- The stretches between the characters that satisfy `cut`, empty ones included. -/
def pieces (cut : Char → Bool) : List Char → List (List Char)
  | [] => [[]]
  | c :: cs =>
    if cut c then [] :: pieces cut cs
    else
      match pieces cut cs with
      | [] => [[c]]
      | first :: others => (c :: first) :: others

/-- The stretches between the characters that satisfy `cut`, without the empty ones. -/
def runs (cut : Char → Bool) (text : List Char) : List (List Char) :=
  (pieces cut text).filter fun piece => !piece.isEmpty

/-- What follows `lead` in a text that starts with it. -/
def afterLead? : List Char → List Char → Option (List Char)
  | [], text => some text
  | _ :: _, [] => none
  | l :: lead, c :: text => if l = c then afterLead? lead text else none

/-- The text before the first `mark`, and the text after it. -/
def cutAt? (mark : Char) : List Char → Option (List Char × List Char)
  | [] => none
  | c :: cs =>
    if c = mark then some ([], cs)
    else (cutAt? mark cs).map fun (before, after) => (c :: before, after)

/-- The text before the last `mark`; the whole text if there is none. -/
def beforeLast (mark : Char) (text : List Char) : List Char :=
  match cutAt? mark text.reverse with
  | some (_, before) => before.reverse
  | none => text

/-- The text after the last `mark`; the whole text if there is none. -/
def afterLast (mark : Char) (text : List Char) : List Char :=
  match cutAt? mark text.reverse with
  | some (after, _) => after.reverse
  | none => text

/-- A character of the Unicode property White_Space. -/
def isBlank (c : Char) : Bool :=
  let n := c.toNat
  (9 ≤ n && n ≤ 13) || n == 0x20 || n == 0x85 || n == 0xA0 || n == 0x1680 ||
    (0x2000 ≤ n && n ≤ 0x200A) || n == 0x2028 || n == 0x2029 || n == 0x202F || n == 0x205F ||
    n == 0x3000

/-- The text without the blanks at its two ends. -/
def trimBlanks (text : List Char) : List Char :=
  ((text.dropWhile isBlank).reverse.dropWhile isBlank).reverse

/-- The same characters, up to the case of ASCII letters. -/
def sameLetters (a b : List Char) : Bool :=
  a.map Char.toLower == b.map Char.toLower

end ApiAtlas
