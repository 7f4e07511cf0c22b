import Pagewright.Text.Character

/-! # Texts

A text is a list of characters, so offsets and lengths count characters and every function on
texts is a recursion on the list.  String literals are read as texts.

Main definitions: `slice`, `strip`, `words` (blank-separated words), `order`, `sorted`, `dropLead?`
(the rest after a given beginning), `cutAt?` (the parts around the first occurrence of a separator),
`splitOn`, `replaceAll`, `ofNat`, `ofInt`, and the case forms of whole texts. -/

namespace Pagewright

/-- A text, character by character. -/
abbrev Text := List Char

instance coeOfString : Coe String (List Char) := ⟨String.toList⟩

namespace Text

/-- The characters of `t` from offset `start` up to offset `stop`. -/
def slice (t : Text) (start stop : Nat) : Text := (t.drop start).take (stop - start)

/-- Whether `needle` occurs in a text. -/
def occursIn (needle : Text) : Text → Bool
  | [] => needle.isEmpty
  | c :: r => needle.isPrefixOf (c :: r) || occursIn needle r

/-! ### Blanks -/

/-- `t` without leading white space. -/
def stripLeft (t : Text) : Text := t.dropWhile isSpace

/-- `t` without trailing white space. -/
def stripRight (t : Text) : Text := (t.reverse.dropWhile isSpace).reverse

/-- `t` without white space at either end. -/
def strip (t : Text) : Text := stripRight (stripLeft t)

/-- `t` without the characters of `cs` at either end. -/
def stripOf (cs : Text) (t : Text) : Text :=
  ((t.dropWhile cs.contains).reverse.dropWhile cs.contains).reverse

/-- Whether a text holds nothing but white space. -/
def isBlank (t : Text) : Bool := t.all isSpace

/-- The words of a text, read from the right: the word in progress and the words after it. -/
def wordsAux : Text → Text × List Text
  | [] => ([], [])
  | c :: r =>
    let (word, rest) := wordsAux r
    if isSpace c then ([], if word.isEmpty then rest else word :: rest)
    else (c :: word, rest)

/-- The maximal stretches of `t` without white space. -/
def words (t : Text) : List Text :=
  let (word, rest) := wordsAux t
  if word.isEmpty then rest else word :: rest

/-! ### Order -/

/-- The order of two texts, character by character. -/
def order : Text → Text → Ordering
  | [], [] => .eq
  | [], _ :: _ => .lt
  | _ :: _, [] => .gt
  | c :: cs, d :: ds => (compareOfLessAndEq c d).then (order cs ds)

/-- Texts in their order, equal ones in the order given. -/
def sorted (ts : List Text) : List Text := ts.mergeSort fun a b => order a b != .gt

/-! ### Searching and cutting -/

/-- The rest of a text after `lead`, if the text starts with it. -/
def dropLead? : Text → Text → Option Text
  | [], t => some t
  | _ :: _, [] => none
  | l :: ls, c :: cs => if l = c then dropLead? ls cs else none

/-- `t` without `tail` at its end, if the text ends with it. -/
def dropTail? (tail t : Text) : Option Text :=
  (dropLead? tail.reverse t.reverse).map List.reverse

/-- The parts of a text before and after the first occurrence of `sep`. -/
def cutAt? (sep : Text) : Text → Option (Text × Text)
  | [] => if sep.isEmpty then some ([], []) else none
  | c :: r =>
    match dropLead? sep (c :: r) with
    | some rest => some ([], rest)
    | none => (cutAt? sep r).map fun (before, after) => (c :: before, after)

/-- The parts of a text before and after the last occurrence of `sep`. -/
def cutAtLast? (sep t : Text) : Option (Text × Text) :=
  (cutAt? sep.reverse t.reverse).map fun (after, before) => (before.reverse, after.reverse)

/-- The pieces of a text between the occurrences of a separator, read after `skip` characters
of an occurrence have still to be passed over. -/
def splitFrom (sep : Text) : Nat → Text → Text × List Text
  | _, [] => ([], [])
  | k + 1, _ :: r => splitFrom sep k r
  | 0, c :: r =>
    if sep.isPrefixOf (c :: r) then
      let (piece, rest) := splitFrom sep (sep.length - 1) r
      ([], piece :: rest)
    else
      let (piece, rest) := splitFrom sep 0 r
      (c :: piece, rest)

/-- The pieces of `t` between the occurrences of the non-empty separator `sep`; there is one
piece more than there are occurrences. -/
def splitOn (sep t : Text) : List Text :=
  if sep.isEmpty then [t]
  else
    let (piece, rest) := splitFrom sep 0 t
    piece :: rest

/-- Texts one after the other with a separator between them. -/
def join (sep : Text) (ts : List Text) : Text := List.intercalate sep ts

/-- `t` with every occurrence of the non-empty text `old` replaced by `new`. -/
def replaceAll (old new t : Text) : Text := join new (splitOn old t)

/-! ### Numbers -/

/-- The decimal digits of a natural number. -/
def ofNat (n : Nat) : Text := Nat.toDigits 10 n

/-- The decimal digits of an integer, with its sign. -/
def ofInt : Int → Text
  | .ofNat n => ofNat n
  | .negSucc n => '-' :: ofNat (n + 1)

/-- The number written by decimal digits of any script. -/
def natOfDigits? (t : Text) : Option Nat :=
  if t.isEmpty then none
  else t.foldl (fun acc c => do return (← acc) * 10 + (← digitValue? c)) (some 0)

/-! ### Case forms -/

/-- Characters that do not interrupt a word when its last letter is looked for. -/
def isWordNeutral (c : Char) : Bool :=
  ("'.:^".toList.contains c) || c.toNat == 0x60 || c.toNat == 0xAD || c.toNat == 0x2019 ||
    (0x300 ≤ c.toNat && c.toNat ≤ 0x36F)

/-- Whether a cased character comes first, neutral characters aside. -/
def leadsCased : Text → Bool
  | [] => false
  | c :: r => if isWordNeutral c then leadsCased r else isCased c

/-- The lower case form of a character between the reversed text `before` and the text
`after`: a capital sigma at the end of a word becomes a final sigma. -/
def lowerBetween (before : Text) (c : Char) (after : Text) : Text :=
  if c.toNat == 0x3A3 then [if leadsCased before && !leadsCased after then 'ς' else 'σ']
  else lowerForm c

/-- The lower case form of a text that follows the reversed text `before`. -/
def lowerAfter (before : Text) : Text → Text
  | [] => []
  | c :: r => lowerBetween before c r ++ lowerAfter (c :: before) r

/-- The lower case form of a text. -/
def lower (t : Text) : Text := lowerAfter [] t

/-- The upper case form of a text. -/
def upper (t : Text) : Text := t.flatMap upperForm

/-- The form of a text for comparison without regard to case. -/
def fold (t : Text) : Text := t.flatMap foldForm

/-- A text with its first character in title case and the rest in lower case. -/
def capitalize : Text → Text
  | [] => []
  | c :: r => titleForm c ++ lowerAfter [c] r

/-- A text with the first letter of every run of letters in title case and the others in lower
case; `inside` says whether a cased character comes before. -/
def titleAfter (before : Text) (inside : Bool) : Text → Text
  | [] => []
  | c :: r =>
    (if inside then lowerBetween before c r else titleForm c) ++
      titleAfter (c :: before) (isCased c) r

/-- A text with every word in title case. -/
def title (t : Text) : Text := titleAfter [] false t

/-- A text with upper and lower case exchanged. -/
def swapCase (t : Text) : Text :=
  t.flatMap fun c => if isUpper c then lowerForm c else if isLower c then upperForm c else [c]

end Text

end Pagewright
