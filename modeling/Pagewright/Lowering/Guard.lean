import Pagewright.Failure
import Pagewright.Text.Scan

/-! # Guarding literal text

Three kinds of text are put out of reach before directives are rewritten: comments are removed,
doubled at signs are swapped for a sentinel, and raw and verbatim regions are swapped for
numbered placeholders.  At the end the placeholders and sentinels are turned into engine text
that is emitted literally.

Main definitions: `stripComments`, `escapeMarkers` and `restoreMarkers`, `Region`, `guardRegions`
and `restoreRegions`, `protectedSpans`. -/

namespace Pagewright.Lowering

open Text

/-- An engine tag. -/
def tag (body : Text) : Text := "\x7b% " ++ body ++ " %\x7d"

/-- The tag that opens a stretch which the engine emits literally. -/
def rawOpen : Text := "\x7b% raw %\x7d"

/-- The tag that closes a literal stretch. -/
def rawClose : Text := "\x7b% endraw %\x7d"

/-- A text wrapped so that the engine emits it literally. -/
def protect (t : Text) : Text := if t.isEmpty then [] else rawOpen ++ t ++ rawClose

/-! ### Comments -/

/-- A comment: two curly brackets and two hyphens, up to the first two hyphens and two closing
curly brackets. -/
def comment? : Recogniser Unit := fun t => do
  let rest ← dropLead? "\x7b\x7b--" t
  let (body, _) ← cutAt? "--\x7d\x7d" rest
  return ((), body.length + 8)

/-- A text without its comments. -/
def stripComments (t : Text) : Text := replaceHits comment? (fun _ => []) t

/-! ### Doubled at signs -/

/-- What stands for a doubled at sign while directives are rewritten. -/
def atSentinel : Text := "\x00hk:at\x00"

/-- A text with its doubled at signs swapped for the sentinel. -/
def escapeMarkers (t : Text) : Text := replaceAll "@@" atSentinel t

/-- A text with its sentinels turned into an at sign that the engine emits literally. -/
def restoreMarkers (t : Text) : Text := replaceAll atSentinel (protect "@") t

/-- A text with its sentinels turned back into doubled at signs. -/
def unescapeMarkers (t : Text) : Text := replaceAll atSentinel "@@" t

/-! ### Regions -/

/-- A region that is out of reach: an engine raw block, whole, or the inside of a verbatim
block. -/
inductive Region where
  | raw (whole : Text)
  | verbatim (inner : Text)
  deriving DecidableEq, Repr

/-- The engine tag made of one keyword, with optional hyphens and blanks around it. -/
def keywordTag? (keyword : Text) : Recogniser Unit := fun t => do
  let rest ← dropLead? "\x7b%" t
  let rest := (dropLead? "-" rest).getD rest
  let rest ← dropLead? keyword (stripLeft rest)
  let rest := stripLeft rest
  let rest := (dropLead? "-" rest).getD rest
  let rest ← dropLead? "%\x7d" rest
  return ((), t.length - rest.length)

/-- A word at the beginning of a text that is not continued by a word character. -/
def wholeWord? (word : Text) : Recogniser Unit := fun t => do
  let rest ← dropLead? word t
  if (rest.head?.map isWord).getD false then none
  return ((), word.length)

/-- A raw block or a verbatim block, up to the first tag or directive that closes it. -/
def region? : Recogniser Region := fun t =>
  match keywordTag? "raw" t with
  | some ((), opened) => do
    let (inner, (), closed) ← firstHit? (keywordTag? "endraw") (t.drop opened)
    let length := opened + inner + closed
    return (.raw (t.take length), length)
  | none => do
    let ((), opened) ← wholeWord? "@verbatim" t
    let (inner, (), closed) ← firstHit? (wholeWord? "@endverbatim") (t.drop opened)
    return (.verbatim (slice t opened (opened + inner)), opened + inner + closed)

/-- The final form of a region; `wrap` says whether verbatim text is protected from the engine or
left plain. -/
def Region.restored (wrap : Bool) : Region → Text
  | .raw whole => unescapeMarkers whole
  | .verbatim inner => if wrap then protect (unescapeMarkers inner) else unescapeMarkers inner

/-- The placeholder of the region with the given number. -/
def guardToken (n : Nat) : Text := "\x00hk:guard:" ++ ofNat n ++ "\x00"

/-- The text of scanned pieces with the regions replaced by placeholders from number `n` on. -/
def guardPieces (n : Nat) : List (Piece Region) → Text
  | [] => []
  | .char c :: ps => c :: guardPieces n ps
  | .hit _ _ _ :: ps => guardToken n ++ guardPieces (n + 1) ps

/-- A text with its regions replaced by placeholders, and the final forms of the regions in the
order of their placeholders. -/
def guardRegions (t : Text) (wrap : Bool := true) : Text × List Text :=
  (guardPieces 0 (pieces region? t), (hits region? t).map (Region.restored wrap))

/-- A placeholder and its number. -/
def guardToken? : Recogniser Nat := fun t => do
  let rest ← dropLead? "\x00hk:guard:" t
  let digits := rest.takeWhile isDecimal
  let n ← natOfDigits? digits
  let rest ← dropLead? "\x00" (rest.drop digits.length)
  return (n, t.length - rest.length)

/-- The text of scanned pieces with the placeholders replaced by the regions. -/
def restorePieces (regions : List Text) : List (Piece Nat) → Except Failure Text
  | [] => .ok []
  | .char c :: ps => (restorePieces regions ps).map (c :: ·)
  | .hit n _ _ :: ps =>
    match regions[n]? with
    | some region => (restorePieces regions ps).map (region ++ ·)
    | none => .error .noSuchPlace

/-- A text with its placeholders replaced by the regions; it fails at a placeholder whose number
no region has. -/
def restoreRegions (t : Text) (regions : List Text) : Except Failure Text :=
  restorePieces regions (pieces guardToken? t)

/-- Where the raw and verbatim regions of a text stand. -/
def protectedSpans (t : Text) : List (Nat × Nat) := hitSpans region? t

end Pagewright.Lowering
