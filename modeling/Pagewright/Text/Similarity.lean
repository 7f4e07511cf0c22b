import Pagewright.Text.Basic

/-! # Similar texts

Two texts are as similar as the share of their characters that lie in matching blocks: the longest
block that both have in common, and the blocks found in the same way before and behind it.  In a
long text, characters that occur very often do not start a block.

Main definitions: `longestBlock`, `matched` (the number of matched characters), `closeMatches` (the
candidates most similar to a text). -/

namespace Pagewright.Text

/-- The characters of a text that are too common to start a block: in a text of at least 200
characters, those that make up more than a hundredth of it. -/
def common (t : Text) : List Char :=
  if t.length < 200 then []
  else t.eraseDups.filter fun c => t.length / 100 + 1 < t.count c

/-- A block that two texts have in common: where it starts in each, and its length. -/
structure Block where
  first : Nat := 0
  second : Nat := 0
  length : Nat := 0
  deriving DecidableEq, Repr

/-- The lengths of the blocks that end at a character `c` of the first text and at each character of
the second, from those of the character before; `diagonal` is the length at the place before. -/
def blockRow (skip : List Char) (c : Char) : Nat → List Nat → Text → List Nat
  | _, _, [] => []
  | diagonal, prev, d :: ds =>
    (if d = c ∧ !skip.contains d then diagonal + 1 else 0) ::
      blockRow skip c (prev.headD 0) prev.tail ds

/-- The better of a block and those that end at place `i` of the first text, the earlier one if they
have the same length. -/
def betterInRow (i : Nat) (best : Block) (row : List Nat) : Block :=
  row.zipIdx.foldl (fun best (k, j) =>
    if best.length < k then ⟨i + 1 - k, j + 1 - k, k⟩ else best) best

/-- The longest block, from place `i` of the first text on. -/
def longestFrom (skip : List Char) (second : Text) : Nat → Block → List Nat → Text → Block
  | _, best, _, [] => best
  | i, best, prev, c :: cs =>
    let row := blockRow skip c 0 prev second
    longestFrom skip second (i + 1) (betterInRow i best row) row cs

/-- The number of characters that two texts have in common at their beginnings. -/
def commonLead : Text → Text → Nat
  | c :: cs, d :: ds => if c = d then commonLead cs ds + 1 else 0
  | _, _ => 0

/-- The longest block of two texts, grown at both ends over common characters. -/
def longestBlock (skip : List Char) (first second : Text) : Block :=
  let b := longestFrom skip second 0 {} [] first
  let before := commonLead (first.take b.first).reverse (second.take b.second).reverse
  let behind := commonLead (first.drop (b.first + b.length)) (second.drop (b.second + b.length))
  ⟨b.first - before, b.second - before, b.length + before + behind⟩

/-- The number of characters in the matching blocks of two texts. -/
def matchedWithin (skip : List Char) : Nat → Text → Text → Nat
  | 0, _, _ => 0
  | fuel + 1, first, second =>
    let b := longestBlock skip first second
    if b.length = 0 then 0
    else
      matchedWithin skip fuel (first.take b.first) (second.take b.second) + b.length +
        matchedWithin skip fuel (first.drop (b.first + b.length))
          (second.drop (b.second + b.length))

/-- The number of characters in the matching blocks of two texts. -/
def matched (first second : Text) : Nat :=
  matchedWithin (common second) (first.length + 1) first second

/-- A candidate with its similarity, a fraction. -/
structure Scored where
  text : Text
  num : Nat
  den : Nat

/-- The similarity of a candidate to a text: twice the matched characters over all characters. -/
def score (name candidate : Text) : Scored :=
  let total := candidate.length + name.length
  if total = 0 then ⟨candidate, 1, 1⟩ else ⟨candidate, 2 * matched candidate name, total⟩

/-- Whether a candidate comes before another one: it is more similar, or its text is larger. -/
def Scored.isBefore (a b : Scored) : Bool :=
  match Ord.compare (a.num * b.den) (b.num * a.den) with
  | .gt => true
  | .lt => false
  | .eq => a.text.order b.text != .lt

/-- At most `most` candidates of at least three fifths similarity, the most similar first. -/
def closeMatches (most : Nat) (name : Text) (candidates : List Text) : List Text :=
  let close := (candidates.map (score name)).filter fun s => decide (3 * s.den ≤ 5 * s.num)
  ((close.mergeSort Scored.isBefore).take most).map Scored.text

end Pagewright.Text
