import Pagewright.Problem
import Pagewright.Template.Evaluate
import Pagewright.Template.Parse

/-! # The press

A press prints templates.  It keeps the templates that it has read, the oldest first, up to a
capacity, so that a text is read once for many pages.  What goes wrong is a problem of the page that
asked.

Main definitions: `Press`, `Press.compile`, `Press.print`, `Press.evaluate`, `Press.forget`. -/

/-! ## Rendering

A template is read and checked once and can then be rendered with any data.

Main definitions: `Compiled`, `compile`, `Compiled.render`, `evaluateExpression`. -/

namespace Pagewright.Template

open Text

/-- A template that is ready to be rendered. -/
structure Compiled where
  nodes : List Node
  blocks : List BlockDefinition
  guarded : Bool

/-- Reads and checks a template. -/
def compile (d : Dialect) (t : Text) : Except SyntaxFault Compiled := do
  let nodes ← parse d t
  check vocabulary nodes
  return { nodes, blocks := blocksOf nodes, guarded := d.sandbox }

/-- How deeply the parts of a running template may be nested. -/
def runDepth : Nat := 3000

/-- The data under its names, which have to be texts. -/
def namedData (data : List (Value × Value)) : Except Fault (List (Text × Value)) :=
  data.mapM fun (k, v) => match k.text? with
    | some n => .ok (n, v)
    | none => .error .namesNotText

/-- A computation on data that has been moved into a new store. -/
def withData {α : Type} (data : List (Value × Value))
    (run : List (Text × Value) → Run α) : Except Fault α := do
  let named ← namedData data
  let all : Run α := do run (← named.mapM fun (n, v) => do return (n, ← keep v))
  return (← all.run {}).1

/-- The setting at the top of a template, whose scope is that of its nodes. -/
def topSetting (mentions : List Mention) (scope : Scope) : Run Setting := do
  let params := if (readsFirst ["self"] mentions).isEmpty then [] else
    [("self".toList, some Value.self)]
  return { (← enter {} scope params) with top := true }

/-- The text of a template with some data. -/
def Compiled.render (c : Compiled) (data : List (Value × Value)) : Except Fault Text :=
  withData data fun named => do
    let g : Program := { guarded := c.guarded, data := named, blocks := c.blocks }
    let s ← topSetting (mentionsAllOf c.nodes) (Scope.ofBody [] [] c.nodes)
    runNodes g (machine g runDepth) s c.nodes

/-- Reads and checks an expression that stands alone. -/
def compileExpression (d : Dialect) (t : Text) : Except SyntaxFault Expr := do
  let e ← parseExpression d t
  e.check vocabulary false
  return e

/-- The value of an expression with some data. -/
def evaluateExpression (d : Dialect) (e : Expr) (data : List (Value × Value)) :
    Except Fault Value :=
  withData data fun named => do
    let g : Program := { guarded := d.sandbox, data := named }
    let s ← topSetting e.mentions (Scope.ofBody [] [] [.output e])
    whole (← evaluate g (machine g runDepth) s e)

end Pagewright.Template

namespace Pagewright

open Text Template

/-- A press: how templates are written, how many are kept, and those that are kept. -/
structure Press where
  dialect : Dialect := {}
  capacity : Int := 128
  kept : List (Text × Compiled) := []

namespace Press

/-- The problem of a template that cannot be read. -/
def unreadable (path : Option Text) (e : SyntaxFault) : Problem :=
  .expression ("Invalid template syntax at line " ++ ofNat e.line ++ ": " ++ e.problem.message)
    path "compile"

/-- The template that is kept for a text. -/
def find? (p : Press) (t : Text) : Option Compiled :=
  (p.kept.find? fun (k, _) => k == t).map Prod.snd

/-- A press that keeps a further template; the oldest one makes room for it. -/
def keep (p : Press) (t : Text) (c : Compiled) : Press :=
  if p.capacity ≤ 0 then p
  else
    let kept := if p.capacity ≤ p.kept.length then p.kept.drop 1 else p.kept
    { p with kept := kept ++ [(t, c)] }

/-- The template for a text, read only if it is not kept already. -/
def compile (p : Press) (t : Text) (path : Option Text) : Except Problem Compiled × Press :=
  match p.find? t with
  | some c => (.ok c, p)
  | none => match Template.compile p.dialect t with
    | .ok c => (.ok c, p.keep t c)
    | .error e => (.error (unreadable path e), p)

/-- The page that a template gives with some data. -/
def printed (c : Compiled) (data : List (Value × Value)) (path : Option Text) :
    Except Problem Text :=
  match c.render data with
  | .ok t => .ok t
  | .error e => .error (.expression ("Template rendering failed: " ++ e.message) path "render")

/-- The page that a text gives with some data. -/
def print (p : Press) (t : Text) (data : List (Value × Value)) (path : Option Text) :
    Except Problem Text × Press :=
  let (c, p) := p.compile t path
  (c.bind fun c => printed c data path, p)

/-- The value of an expression with some data. -/
def evaluate (d : Dialect) (t : Text) (data : List (Value × Value)) (path : Option Text)
    (undefinedToNone : Bool := true) : Except Problem Value :=
  match compileExpression d t with
  | .error e =>
    .error (.expression ("Invalid expression '" ++ t ++ "': " ++ e.problem.message) path "compile")
  | .ok e => match evaluateExpression d e data with
    | .ok v => .ok (if undefinedToNone && v.isUndefined then .none else v)
    | .error f =>
      .error (.expression ("Failed to evaluate '" ++ t ++ "': " ++ f.message) path "render")

/-- A press that keeps no template. -/
def forget (p : Press) : Press := { p with kept := [] }

end Press

end Pagewright
