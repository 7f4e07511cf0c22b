import Pagewright.Directive.Occurrence

/-! # Blocks of directives

An opening and a closing directive with the text between them.  Sections and slots do not nest:
an opener forms a block when the next directive of its family is the closer.  Stack and once
blocks nest, and are matched by counting.

Main definitions: `Block`, `blocks` (the non-nesting blocks of a text), `blockEnd?` (the closer
that balances a block), `carriedBlocks` (the outermost stack and once blocks of a text). -/

namespace Pagewright

/-- An opening directive and, if it has one, the closing directive with the text between. -/
structure Block where
  opener : Directive
  closer : Option Directive
  content : Option Text
  deriving DecidableEq, Repr

namespace Block

/-- Where a block starts. -/
def start (b : Block) : Nat := b.opener.start

/-- Where a block stops: behind its closer, or behind its opener if it has none. -/
def stop (b : Block) : Nat :=
  match b.closer with
  | some d => d.stop
  | none => b.opener.stop

end Block

namespace Directive

open Text

/-- The blocks among the directives of a text, of which the first `skip` are passed over. -/
def blocksFrom (t opening closing : Text) (isInline : Directive → Bool) :
    Nat → List Directive → List Block
  | _, [] => []
  | k + 1, _ :: ds => blocksFrom t opening closing isInline k ds
  | 0, d :: ds =>
    if d.name ≠ opening ∨ d.malformed then blocksFrom t opening closing isInline 0 ds
    else
      let alone := Block.mk d none none :: blocksFrom t opening closing isInline 0 ds
      if isInline d then alone
      else match ds.findIdx? fun e => e.name = opening ∨ e.name = closing with
        | none => alone
        | some i =>
          match ds[i]? with
          | some e =>
            if e.name = closing then
              Block.mk d (some e) (some (slice t d.stop e.start)) ::
                blocksFrom t opening closing isInline (i + 1) ds
            else alone
          | none => alone

/-- The non-nesting blocks of a text: an opener and the next directive of either name, when that
is a closer; else, or when `isInline` says so, the opener alone.  Malformed openers are passed
over. -/
def blocks (opening closing : Text) (isInline : Directive → Bool) (t : Text) : List Block :=
  blocksFrom t opening closing isInline 0 (directives t)

/-- The position in the list and the directive that closes a block opened before it, `depth`
being the number of inner blocks still open. -/
def balance? (opening closing : Text) : Nat → List Directive → Option (Nat × Directive)
  | _, [] => none
  | depth, d :: ds =>
    if d.name = opening then (balance? opening closing (depth + 1) ds).map fun (i, e) => (i + 1, e)
    else if d.name = closing then
      match depth with
      | 0 => some (0, d)
      | depth + 1 => (balance? opening closing depth ds).map fun (i, e) => (i + 1, e)
    else (balance? opening closing depth ds).map fun (i, e) => (i + 1, e)

/-- The directive that closes a block opened just before offset `start`. -/
def blockEnd? (opening closing : Text) (t : Text) (start : Nat) : Option Directive :=
  (balance? opening closing 0 (directives t start)).map Prod.snd

/-- The blocks that a page keeps when its body is replaced by a layout: the name of the opener
and the name of the closer. -/
def carriedFamilies : List (Text × Text) :=
  [("push", "endpush"), ("prepend", "endprepend"), ("once", "endonce")]

/-- The carried blocks among the directives of a text, of which the first `skip` are passed
over. -/
def carriedFrom (t : Text) : Nat → List Directive → List Text
  | _, [] => []
  | k + 1, _ :: ds => carriedFrom t k ds
  | 0, d :: ds =>
    match carriedFamilies.lookup d.name with
    | none => carriedFrom t 0 ds
    | some closing =>
      match balance? d.name closing 0 ds with
      | none => carriedFrom t 0 ds
      | some (i, e) => slice t d.start e.stop :: carriedFrom t (i + 1) ds

/-- The outermost push, prepend and once blocks of a text, in order. -/
def carriedBlocks (t : Text) : List Text := carriedFrom t 0 (directives t)

end Directive

end Pagewright
