import Pagewright.Lowering.Conditional
import Pagewright.Lowering.IncludeDirective
import Pagewright.Lowering.Loop
import Pagewright.Lowering.Marker
import Pagewright.Memo

/-! # The whole rewriting

Directives are rewritten in a fixed order: comments go first, escapes and regions are guarded
before any directive is rewritten and restored last.

Main definitions: `Delimiters` (what encloses output expressions), `transform`. -/

namespace Pagewright

/-- The delimiters around output expressions. -/
structure Delimiters where
  start : Text := "\x7b\x7b"
  stop : Text := "\x7d\x7d"
  deriving DecidableEq, Repr

namespace Lowering

/-- Whether a text can hold anything to rewrite. -/
def mayHoldDirectives (t : Text) : Bool := t.contains '@' || Text.occursIn "\x7b\x7b--" t

/-- The rewriting of all directives of a text between guarding and restoring. -/
def rewriteAll (ds : Delimiters) (t : Text) : Text :=
  rewriteIncludes (rewriteStackMarkers (rewriteHelpers
    (rewriteLoops (rewriteSwitches (rewriteConditionals t))) ds.start ds.stop))

/-- A text in authoring syntax turned into engine syntax. -/
def transform (ds : Delimiters) (t : Text) : Except Failure Text :=
  if mayHoldDirectives t then
    let (guarded, regions) := guardRegions (escapeMarkers (stripComments t))
    (restoreRegions (rewriteAll ds guarded) regions).map restoreMarkers
  else .ok t

end Lowering

end Pagewright

/-! ## Rewriting with a memo

Rewriting depends on the text and the delimiters only, so a memo can keep its results.  Results for
delimiters other than the usual ones are kept under keys of their own.

Main definitions: `keySpace`, `memoKey`, `transformKept`. -/

namespace Pagewright.Lowering

/-- The namespace of the keys for given delimiters. -/
def keySpace (ds : Delimiters) : Text := if ds = {} then [] else ds.start ++ '|' :: ds.stop

/-- The key of a text under given delimiters. -/
def memoKey (ds : Delimiters) (t : Text) : Text := fingerprint t (keySpace ds)

/-- A text in engine syntax, taken from a memo or kept in it. -/
def transformKept (ds : Delimiters) (now : Rat) (t : Text) (m : Memo) :
    Except Failure Text × Memo :=
  if mayHoldDirectives t then
    let key := memoKey ds t
    match m.get now key with
    | (some kept, m) => (.ok kept, m)
    | (none, m) =>
      match transform ds t with
      | .ok new => (.ok new, m.set now key new)
      | .error e => (.error e, m)
  else (.ok t, m)

end Pagewright.Lowering
