import Pagewright.Text.Basic

/-! # Scanning with a recogniser

A recogniser looks at the beginning of a text and answers a value together with the number of
characters that it covers.  Scanning a text from left to right with a recogniser cuts it into
single characters, at which nothing was recognised, and hits, which do not overlap.

Main definitions: `Recogniser`, `pieces`, `replaceHits` (a text with every hit replaced),
`hitSpans` (where the hits stand), `Edit` and `applyEdits` (a text with given stretches
replaced). -/

namespace Pagewright.Text

/-- What is recognised at the beginning of a text, and how many characters it covers. -/
abbrev Recogniser (α : Type) := Text → Option (α × Nat)

/-- A part of a scanned text: a character of its own, or a hit. -/
inductive Piece (α : Type) where
  | char (c : Char)
  | hit (value : α) (start stop : Nat)

variable {α : Type}

/-- The pieces of a text that starts at offset `pos`, of which the first `skip` characters
belong to an earlier hit. -/
def piecesFrom (find : Recogniser α) : Nat → Nat → Text → List (Piece α)
  | _, _, [] => []
  | pos, k + 1, _ :: r => piecesFrom find (pos + 1) k r
  | pos, 0, c :: r =>
    match find (c :: r) with
    | some (a, n) => .hit a pos (pos + n) :: piecesFrom find (pos + 1) (n - 1) r
    | none => .char c :: piecesFrom find (pos + 1) 0 r

/-- The pieces of a text under a recogniser, from left to right. -/
def pieces (find : Recogniser α) (t : Text) : List (Piece α) := piecesFrom find 0 0 t

/-- A text with every hit replaced. -/
def replaceHits (find : Recogniser α) (new : α → Text) (t : Text) : Text :=
  (pieces find t).flatMap fun
    | .char c => [c]
    | .hit a _ _ => new a

/-- The hits of a recogniser in a text. -/
def hits (find : Recogniser α) (t : Text) : List α :=
  (pieces find t).filterMap fun
    | .char _ => none
    | .hit a _ _ => some a

/-- Where the hits of a recogniser stand in a text. -/
def hitSpans (find : Recogniser α) (t : Text) : List (Nat × Nat) :=
  (pieces find t).filterMap fun
    | .char _ => none
    | .hit _ start stop => some (start, stop)

/-- The length of a maximal run of characters of a class at the beginning of a text. -/
def runLength (p : Char → Bool) (t : Text) : Nat := (t.takeWhile p).length

/-- The offset of the first place at which `find` recognises something, with what it finds. -/
def firstHit? (find : Recogniser α) : Text → Option (Nat × α × Nat)
  | [] => (find []).map fun (a, n) => (0, a, n)
  | c :: r =>
    match find (c :: r) with
    | some (a, n) => some (0, a, n)
    | none => (firstHit? find r).map fun (i, a, n) => (i + 1, a, n)

/-! ### Edits -/

/-- A stretch of a text and what takes its place. -/
structure Edit where
  start : Nat
  stop : Nat
  new : Text

/-- The text `t` from offset `last` on, with the stretches of the edits replaced; the edits
stand in increasing order behind `last`. -/
def editFrom (t : Text) : Nat → List Edit → Text
  | last, [] => t.drop last
  | last, e :: es => slice t last e.start ++ e.new ++ editFrom t e.stop es

/-- A text with given stretches replaced, in increasing order. -/
def applyEdits (t : Text) (es : List Edit) : Text := editFrom t 0 es

end Pagewright.Text
