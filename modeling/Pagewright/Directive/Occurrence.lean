import Pagewright.Directive.Bracket
import Pagewright.Text.Scan

/-! # Directives in a text

A directive is an at sign, a name, and an argument list in round brackets if there is one.  Two
at signs in a row stand for one and never start a directive.  Directly after a word character a
name is an address, not a directive, when a full stop and a word follow it.  Some directives
never take arguments; a bracket after them belongs to the text.

Main definitions: `Directive`, `directives` (all directives of a text, in order), `named` (those
with given names), `replace` (a text with directives replaced by a handler that carries a
state). -/

namespace Pagewright

/-- A directive at the offsets from `start` up to `stop` of a text.  A directive is malformed
when its argument list is never closed; it then covers its name alone. -/
structure Directive where
  name : Text
  args : Option Text
  start : Nat
  stop : Nat
  malformed : Bool
  deriving DecidableEq, Repr

namespace Directive

open Text

/-- The arguments of a directive. -/
def argumentList (d : Directive) : List Text := (d.args.map arguments).getD []

/-- The directives that never take arguments. -/
def bareNames : List Text :=
  ["else", "endif", "endunless", "endisset", "endempty", "break", "default", "endswitch",
    "endforeach", "endforelse", "endsection", "endslot", "endpush", "endprepend", "endonce",
    "verbatim", "endverbatim"]

/-- Whether a character may start the name of a directive. -/
def startsName (c : Char) : Bool := isAsciiLetter c || c == '_'

/-- The name at the beginning of a text: a letter or underscore and further word characters. -/
def name? (t : Text) : Option Text :=
  match t with
  | c :: r => if startsName c then some (c :: r.takeWhile isWord) else none
  | [] => none

/-- Whether a text continues an address: a full stop and a word character. -/
def continuesAddress : Text → Bool
  | '.' :: c :: _ => isWord c
  | _ => false

/-- The offset of the round bracket that opens an argument list, after blanks. -/
def argumentsStart? (t : Text) : Option Nat :=
  let blanks := runLength (fun c => c == ' ' || c == '\t') t
  if (t.drop blanks).head? = some '(' then some blanks else none

/-- The directive whose at sign stands at offset `pos`, between the character `prev` and the text
`rest`. -/
def at? (prev : Option Char) (pos : Nat) (rest : Text) : Option Directive := do
  let name ← name? rest
  let after := rest.drop name.length
  if (prev.map isWord).getD false && continuesAddress after then none
  let stop := pos + 1 + name.length
  if bareNames.contains name then return ⟨name, none, pos, stop, false⟩
  match argumentsStart? after with
  | none => return ⟨name, none, pos, stop, false⟩
  | some blanks =>
    let list := after.drop blanks
    match closing? list with
    | none => return ⟨name, none, pos, stop, true⟩
    | some close => return ⟨name, some (slice list 1 close), pos, stop + blanks + close + 1, false⟩

/-- The directives of a text that starts at offset `pos` after the character `prev` and of which
the first `skip` characters are passed over. -/
def scanFrom (prev : Option Char) (pos : Nat) : Nat → Text → List Directive
  | _, [] => []
  | k + 1, c :: r => scanFrom (some c) (pos + 1) k r
  | 0, c :: r =>
    if c = '@' then
      if r.head? = some '@' then scanFrom (some c) (pos + 1) 1 r
      else match at? prev pos r with
        | some d => d :: scanFrom (some c) (pos + 1) (d.stop - pos - 1) r
        | none => scanFrom (some c) (pos + 1) 0 r
    else scanFrom (some c) (pos + 1) 0 r

/-- The directives of a text from offset `start` on, in order. -/
def directives (t : Text) (start : Nat := 0) : List Directive :=
  scanFrom ((t.take start).getLast?) start 0 (t.drop start)

/-- The directives with one of the given names. -/
def named (names : List Text) (ds : List Directive) : List Directive :=
  ds.filter fun d => names.contains d.name

/-! ### Replacing directives -/

/-- The edits that a handler asks for, and its state afterwards.  The handler sees the well-formed
directives in order and may leave one as it is. -/
def editsOf {σ : Type} (handler : σ → Directive → Option Text × σ) :
    σ → List Directive → List Edit × σ
  | s, [] => ([], s)
  | s, d :: ds =>
    if d.malformed then editsOf handler s ds
    else
      let (answer, s) := handler s d
      let (es, s) := editsOf handler s ds
      match answer with
      | some new => (⟨d.start, d.stop, new⟩ :: es, s)
      | none => (es, s)

/-- A text with the directives of the given names replaced by a handler that carries a state. -/
def replaceWith {σ : Type} (names : List Text) (handler : σ → Directive → Option Text × σ)
    (s : σ) (t : Text) : Text × σ :=
  let (es, s) := editsOf handler s (named names (directives t))
  (applyEdits t es, s)

/-- A text with the directives of the given names replaced by a handler. -/
def replace (names : List Text) (handler : Directive → Option Text) (t : Text) : Text :=
  (replaceWith names (fun (_ : Unit) d => (handler d, ())) () t).1

end Directive

end Pagewright
