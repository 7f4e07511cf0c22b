import Pagewright.Template.Token
import Pagewright.Value.Basic

/-! # Syntax trees

What a template consists of once it is read: expressions, and nodes that print, assign, branch,
loop and define.

Main definitions: `Expr`, `Node`, `Arguments` (of a call, filter or test). -/

namespace Pagewright.Template

/-- The arguments of a call: in order, by name, and the items of a sequence and the entries of a
mapping that are passed along. -/
structure Arguments (α : Type) where
  positional : List α := []
  named : List (Text × α) := []
  rest : Option α := none
  restNamed : Option α := none

/-- A binary arithmetic operator. -/
inductive BinaryOp where
  | add
  | sub
  | mul
  | div
  | floorDiv
  | mod
  | pow
  deriving DecidableEq, Repr

/-- How an operator is written. -/
def BinaryOp.symbol : BinaryOp → Text
  | .add => "+"
  | .sub => "-"
  | .mul => "*"
  | .div => "/"
  | .floorDiv => "//"
  | .mod => "%"
  | .pow => "** or pow()"

/-- A comparison. -/
inductive CompareOp where
  | eq
  | ne
  | lt
  | le
  | gt
  | ge
  | isIn
  | notIn
  deriving DecidableEq, Repr

/-- An expression.  Lines are kept where a problem or a note refers to them. -/
inductive Expr where
  | const (v : Value) (line : Nat)
  | name (n : Text) (line : Nat)
  /-- A field of a namespace, as the target of an assignment. -/
  | field (object field : Text) (line : Nat)
  | tuple (xs : List Expr) (line : Nat)
  | list (xs : List Expr) (line : Nat)
  | dict (pairs : List (Expr × Expr)) (line : Nat)
  /-- The first expression if the second holds, else the third; without a third there may be no
  value. -/
  | cond (value test : Expr) (otherwise : Option Expr) (line : Nat)
  | or (l r : Expr) (line : Nat)
  | and (l r : Expr) (line : Nat)
  | not (e : Expr) (line : Nat)
  | compare (e : Expr) (ops : List (CompareOp × Expr)) (line : Nat)
  | binary (op : BinaryOp) (l r : Expr) (line : Nat)
  | neg (e : Expr) (line : Nat)
  | pos (e : Expr) (line : Nat)
  | concat (xs : List Expr) (line : Nat)
  | attr (e : Expr) (name : Text) (line : Nat)
  | item (e key : Expr) (line : Nat)
  | slice (start stop step : Option Expr) (line : Nat)
  | call (f : Expr) (args : Arguments Expr) (line : Nat)
  /-- A filter applied to a value, or to the text of a block if there is none. -/
  | filter (e : Option Expr) (name : Text) (args : Arguments Expr) (line : Nat)
  | test (e : Expr) (name : Text) (args : Arguments Expr) (line : Nat)

instance : Inhabited Expr := ⟨.const .none 1⟩

namespace Expr

/-- The line on which an expression starts. -/
def line : Expr → Nat
  | const _ l | name _ l | field _ _ l | tuple _ l | list _ l | dict _ l | cond _ _ _ l
  | or _ _ l | and _ _ l | not _ l | compare _ _ l | binary _ _ _ l | neg _ l | pos _ l
  | concat _ l | attr _ _ l | item _ _ l | slice _ _ _ l | call _ _ l | filter _ _ _ l
  | test _ _ _ l => l

/-- The name of the kind of an expression. -/
def kindName : Expr → Text
  | const .. => "const"
  | name .. => "name"
  | field .. => "nsref"
  | tuple .. => "tuple"
  | list .. => "list"
  | dict .. => "dict"
  | cond .. => "condexpr"
  | or .. => "or"
  | and .. => "and"
  | not .. => "not"
  | compare .. => "compare"
  | binary .add .. => "add"
  | binary .sub .. => "sub"
  | binary .mul .. => "mul"
  | binary .div .. => "div"
  | binary .floorDiv .. => "floordiv"
  | binary .mod .. => "mod"
  | binary .pow .. => "pow"
  | neg .. => "neg"
  | pos .. => "pos"
  | concat .. => "concat"
  | attr .. => "getattr"
  | item .. => "getitem"
  | slice .. => "slice"
  | call .. => "call"
  | filter .. => "filter"
  | test .. => "test"

end Expr

/-- The parameters of a definition: their names, and the defaults of the last ones. -/
structure Signature where
  params : List (Text × Nat) := []
  defaults : List Expr := []

/-- How another template is asked for. -/
inductive Reference where
  | extend
  | insert
  | importAs (target : Text)
  | importFrom (targets : List Text)

/-- A part of a template. -/
inductive Node where
  | data (t : Text)
  | output (e : Expr)
  /-- Branches with their conditions, and the branch taken when none holds. -/
  | ifElse (branches : List (Expr × List Node)) (otherwise : List Node)
  | loop (target iter : Expr) (body otherwise : List Node) (test : Option Expr)
      (recursive : Bool) (line : Nat)
  | set (target e : Expr)
  /-- An assignment of the text of a block, through a filter if there is one. -/
  | setBlock (target : Expr) (filter : Option Expr) (body : List Node)
  | bind (targets values : List Expr) (body : List Node)
  /-- A named block; it may see the variables around it, and it may have to be overridden. -/
  | block (name : Text) (body : List Node) (seesAround required : Bool) (line : Nat)
  | define (name : Text) (signature : Signature) (body : List Node) (line : Nat)
  | callBlock (signature : Signature) (call : Expr) (body : List Node) (line : Nat)
  | filterBlock (filter : Expr) (body : List Node)
  | autoescape (e : Expr) (body : List Node)
  | reference (kind : Reference) (e : Expr) (line : Nat)

end Pagewright.Template
