import ApiAtlas.Text.Alphanumeric
import ApiAtlas.Text.LetterCase
import ApiAtlas.Text.Pieces

namespace ApiAtlas

/-- The letters and numbers of a text, with one `_` for whatever stands between two of them.
`started` says that some were written, `gap` that something else came since. -/
def squeezeFrom (started gap : Bool) : List Char → List Char
  | [] => []
  | c :: cs =>
    if isAlphanumeric c then
      if gap && started then '_' :: c :: squeezeFrom true false cs
      else c :: squeezeFrom true false cs
    else squeezeFrom started true cs

/-- The letters and numbers of a text, with one `_` for each stretch of other characters between
two of them. -/
def squeeze (text : List Char) : List Char :=
  squeezeFrom false false text

/-- What the letters of the current word have been so far. -/
inductive Hump
  | fresh
  | small
  | capital
deriving Repr, DecidableEq

/-- The state after one more letter; a character without case changes nothing. -/
def Hump.next (hump : Hump) (c : Char) : Hump :=
  if isLowercase c then .small else if isUppercase c then .capital else hump

/-- Cut a run of letters and numbers where its capitals start new words. `word` holds the current
word, last character first. -/
def humpsFrom (hump : Hump) (word : List Char) : List Char → List (List Char)
  | [] => []
  | [c] => [(c :: word).reverse]
  | c :: d :: cs =>
    if hump.next c = .small ∧ isUppercase d then
      (c :: word).reverse :: humpsFrom .fresh [] (d :: cs)
    else if hump = .capital ∧ isUppercase c ∧ isLowercase d then
      word.reverse :: humpsFrom .fresh [c] (d :: cs)
    else humpsFrom (hump.next c) (c :: word) (d :: cs)

/-- The words of a text, in order. -/
def wordsOf (text : List Char) : List (List Char) :=
  (runs (fun c => !isAlphanumeric c) text).flatMap (humpsFrom .fresh [])

/-- A word in lower case. A capital sigma at its end becomes a final sigma. -/
def lowerWord : List Char → List Char
  | [] => []
  | [c] => if c = 'Σ' then ['ς'] else toLowercase c
  | c :: cs => toLowercase c ++ lowerWord cs

/-- A word in upper case. -/
def upperWord (word : List Char) : List Char :=
  word.flatMap toUppercase

/-- A word with its first character in upper case and the others in lower case. -/
def capitalWord : List Char → List Char
  | [] => []
  | c :: cs => toUppercase c ++ lowerWord cs

/-- How the words of an identifier are written. -/
inductive Casing
  | pascal
  | camel
  | snake
  | screamingSnake
deriving Repr, DecidableEq, Inhabited

/-- The words of a text as one identifier. -/
def Casing.apply (casing : Casing) (text : List Char) : List Char :=
  match casing, wordsOf text with
  | .pascal, words => words.flatMap capitalWord
  | .camel, [] => []
  | .camel, first :: others => lowerWord first ++ others.flatMap capitalWord
  | .snake, words => List.intercalate ['_'] (words.map lowerWord)
  | .screamingSnake, words => List.intercalate ['_'] (words.map upperWord)

end ApiAtlas
