import Pagewright.Digest.Sha256
import Pagewright.Directive.Block

/-! # Stack and once markers

Stack and once directives become HTML comments that stay in the rendered page until its content
is collected.  Names in markers hold word characters, full stops and hyphens only.  A once block
without an id is known by the fingerprint of its body.

Main definitions: `markerName?`, `marker`, `rewriteStackMarkers`. -/

/-! ## Fingerprints

A text is known by the digest of its content.  A namespace in front of the text keeps results
apart that were made from one text under different settings.

Main definition: `fingerprint`. -/

namespace Pagewright

/-- The fingerprint of a text under a namespace. -/
def fingerprint (t : Text) (space : Text := []) : Text :=
  Sha256.hexDigest (if space.isEmpty then t else space ++ '\x00' :: t)

end Pagewright

namespace Pagewright.Lowering

open Text Directive

/-- A character that may stand in the name of a marker. -/
def isMarkerChar (c : Char) : Bool := isWord c || c == '.' || c == '-'

/-- The name for markers that a non-empty string literal stands for. -/
def markerName? (e : Text) : Option Text :=
  match literal? e with
  | none | some [] => none
  | some name => some (name.map fun c => if isMarkerChar c then c else '_')

/-- The marker of a kind with a name. -/
def marker (kind name : Text) : Text := "<!--hk:" ++ kind ++ ":" ++ name ++ "-->"

/-- The directives that become markers. -/
def stackNames : List Text :=
  ["push", "endpush", "prepend", "endprepend", "stack", "once", "endonce"]

/-- The kinds and names of the markers still open, innermost first. -/
abbrev OpenMarkers := List (Text × Text)

/-- The name of the innermost open marker of a kind, and the open markers without it. -/
def closeMarker? (kind : Text) : OpenMarkers → Option (Text × OpenMarkers)
  | [] => none
  | (k, name) :: rest =>
    if k = kind then some (name, rest)
    else (closeMarker? kind rest).map fun (found, rest) => (found, (k, name) :: rest)

/-- The key of a once block in the text `t`: its id, or the fingerprint of its body. -/
def onceKey? (t : Text) (d : Directive) : Option Text :=
  match d.argumentList with
  | id :: _ => markerName? id
  | [] => (blockEnd? "once" "endonce" t d.stop).map fun closer =>
      "fp-" ++ (fingerprint (slice t d.stop closer.start)).take 16

/-- The marker for a directive of the text `t`. -/
def stackMarker? (t : Text) (s : OpenMarkers) (d : Directive) : Option Text × OpenMarkers :=
  if d.name = "push" ∨ d.name = "prepend" ∨ d.name = "stack" then
    match d.argumentList.head?.bind markerName? with
    | none => (none, s)
    | some name =>
      (some (marker d.name name), if d.name = "stack" then s else (d.name, name) :: s)
  else if d.name = "once" then
    match onceKey? t d with
    | none => (none, s)
    | some key => (some (marker "once" key), ("once", key) :: s)
  else
    let kind := d.name.drop 3
    match closeMarker? kind s with
    | none => (none, s)
    | some (name, s) => (some (marker ("end" ++ kind) name), s)

/-- A text with its stack and once directives turned into markers. -/
def rewriteStackMarkers (t : Text) : Text := (replaceWith stackNames (stackMarker? t) [] t).1

end Pagewright.Lowering
