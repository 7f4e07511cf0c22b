import Pagewright.Template.Scope

/-! # Checks before a template runs

A template that can be read may still be refused: filters and tests must exist, blocks have
different names, and the name of a loop's position is not assigned inside a loop.  An unknown
filter or test is let pass where it stands directly under a condition, since it may never be
reached.

Main definitions: `Vocabulary` (the filters and tests that exist), `check`. -/

namespace Pagewright.Template

/-- The names of the filters and tests that exist. -/
structure Vocabulary where
  filters : List Text
  tests : List Text

/-- The answer of a check. -/
abbrev Checked := Except SyntaxFault Unit

mutual

/-- Checks an expression; `soft` says whether it stands directly under a condition. -/
def Expr.check (v : Vocabulary) (soft : Bool) : Expr → Checked
  | .const .. => .ok ()
  | .name .. => .ok ()
  | .field .. => .ok ()
  | .tuple xs _ => checkExprs v soft xs
  | .list xs _ => checkExprs v soft xs
  | .dict ps _ => checkPairs v soft ps
  | .cond value test otherwise _ => do
    value.check v true
    test.check v true
    checkOption v true otherwise
  | .or l r _ => do
    l.check v soft
    r.check v soft
  | .and l r _ => do
    l.check v soft
    r.check v soft
  | .not e _ => e.check v soft
  | .compare e ops _ => do
    e.check v soft
    checkOperands v soft ops
  | .binary _ l r _ => do
    l.check v soft
    r.check v soft
  | .neg e _ => e.check v soft
  | .pos e _ => e.check v soft
  | .concat xs _ => checkExprs v soft xs
  | .attr e _ _ => e.check v soft
  | .item e k _ => do
    e.check v soft
    k.check v soft
  | .slice a b c _ => do
    checkOption v soft a
    checkOption v soft b
    checkOption v soft c
  | .call f args _ => do
    f.check v soft
    checkArguments v soft args
  | .filter e name args line => do
    if !soft && !v.filters.contains name then throw ⟨line, .unknownFilter name⟩
    checkOption v soft e
    checkArguments v soft args
  | .test e name args line => do
    if !soft && !v.tests.contains name then throw ⟨line, .unknownTest name⟩
    e.check v soft
    checkArguments v soft args

/-- Checks some expressions. -/
def checkExprs (v : Vocabulary) (soft : Bool) : List Expr → Checked
  | [] => .ok ()
  | e :: es => do
    e.check v soft
    checkExprs v soft es

/-- Checks an expression that may be absent. -/
def checkOption (v : Vocabulary) (soft : Bool) : Option Expr → Checked
  | none => .ok ()
  | some e => e.check v soft

/-- Checks pairs of expressions. -/
def checkPairs (v : Vocabulary) (soft : Bool) : List (Expr × Expr) → Checked
  | [] => .ok ()
  | (k, e) :: ps => do
    k.check v soft
    e.check v soft
    checkPairs v soft ps

/-- Checks the operands of comparisons. -/
def checkOperands (v : Vocabulary) (soft : Bool) : List (CompareOp × Expr) → Checked
  | [] => .ok ()
  | (_, e) :: ops => do
    e.check v soft
    checkOperands v soft ops

/-- Checks arguments given by name. -/
def checkNamed (v : Vocabulary) (soft : Bool) : List (Text × Expr) → Checked
  | [] => .ok ()
  | (_, e) :: es => do
    e.check v soft
    checkNamed v soft es

/-- Checks arguments. -/
def checkArguments (v : Vocabulary) (soft : Bool) : Arguments Expr → Checked
  | ⟨positional, named, rest, restNamed⟩ => do
    checkExprs v soft positional
    checkNamed v soft named
    checkOption v soft rest
    checkOption v soft restNamed

end

/-! ### Assignments to the position of a loop -/

mutual

/-- Where a target sets a name. -/
def Expr.setLines (name : Text) : Expr → List Nat
  | .name n line => if n = name then [line] else []
  | .tuple xs _ => setLinesOf name xs
  | .list xs _ => setLinesOf name xs
  | _ => []

/-- Where targets set a name. -/
def setLinesOf (name : Text) : List Expr → List Nat
  | [] => []
  | e :: es => e.setLines name ++ setLinesOf name es

end

mutual

/-- Where a node assigns a name, blocks included. -/
def Node.assignedLines (name : Text) : Node → List Nat
  | .ifElse branches otherwise =>
    assignedLinesBranches name branches ++ assignedLinesOf name otherwise
  | .loop target _ body otherwise _ _ _ =>
    target.setLines name ++ assignedLinesOf name body ++ assignedLinesOf name otherwise
  | .set target _ => target.setLines name
  | .setBlock target _ body => target.setLines name ++ assignedLinesOf name body
  | .bind _ _ body => assignedLinesOf name body
  | .block _ body _ _ _ => assignedLinesOf name body
  | .define _ _ body _ => assignedLinesOf name body
  | .callBlock _ _ body _ => assignedLinesOf name body
  | .filterBlock _ body => assignedLinesOf name body
  | .autoescape _ body => assignedLinesOf name body
  | .data _ | .output _ | .reference .. => []

/-- Where nodes assign a name. -/
def assignedLinesOf (name : Text) : List Node → List Nat
  | [] => []
  | n :: ns => n.assignedLines name ++ assignedLinesOf name ns

/-- Where branches assign a name. -/
def assignedLinesBranches (name : Text) : List (Expr × List Node) → List Nat
  | [] => []
  | (_, ns) :: bs => assignedLinesOf name ns ++ assignedLinesBranches name bs

end

/-! ### Blocks -/

/-- The definition of a block. -/
structure BlockDefinition where
  name : Text
  body : List Node
  seesAround : Bool
  required : Bool
  line : Nat

mutual

/-- The blocks of a node, outer ones before the ones inside them. -/
def Node.blocks : Node → List BlockDefinition
  | .ifElse branches otherwise => blocksOfBranches branches ++ blocksOf otherwise
  | .loop _ _ body otherwise _ _ _ => blocksOf body ++ blocksOf otherwise
  | .setBlock _ _ body => blocksOf body
  | .bind _ _ body => blocksOf body
  | .block name body seesAround required line =>
    ⟨name, body, seesAround, required, line⟩ :: blocksOf body
  | .define _ _ body _ => blocksOf body
  | .callBlock _ _ body _ => blocksOf body
  | .filterBlock _ body => blocksOf body
  | .autoescape _ body => blocksOf body
  | .data _ | .output _ | .set .. | .reference .. => []

/-- The blocks of some nodes. -/
def blocksOf : List Node → List BlockDefinition
  | [] => []
  | n :: ns => n.blocks ++ blocksOf ns

/-- The blocks of branches. -/
def blocksOfBranches : List (Expr × List Node) → List BlockDefinition
  | [] => []
  | (_, ns) :: bs => blocksOf ns ++ blocksOfBranches bs

end

/-- The first block whose name is taken by a block before it. -/
def repeatedBlock? (seen : List Text) : List BlockDefinition → Option BlockDefinition
  | [] => none
  | b :: bs => if seen.contains b.name then some b else repeatedBlock? (b.name :: seen) bs

/-! ### Nodes -/

/-- Where nodes stand: directly under a condition, at the top of the template, and whether what
they print is used. -/
structure Place where
  soft : Bool := false
  top : Bool := false
  printed : Bool := true

/-- The inside of a scope. -/
def Place.inner (p : Place) : Place := { p with soft := false, top := false }

/-- The inside of a branch. -/
def Place.branch (p : Place) : Place := { p with soft := true }

/-- Refuses a definition that reads its caller and has a parameter of that name without
default. -/
def checkCaller (s : Signature) (body : List Node) (line : Nat) : Checked :=
  match s.params.findIdx? (fun (n, _) => n == "caller".toList) with
  | some i =>
    if s.params.length - i ≤ s.defaults.length ||
        (readsFirst ["caller"] (mentionsAllOf body)).isEmpty then .ok ()
    else .error ⟨line, .callerWithoutDefault⟩
  | none => .ok ()

mutual

/-- Checks a node; the answer says whether the template is known to extend another one. -/
def Node.check (v : Vocabulary) (p : Place) (extended : Bool) : Node → Except SyntaxFault Bool
  | .data _ => .ok extended
  | .output e => do
    if !(extended && p.printed) then e.check v p.soft
    return extended
  | .ifElse branches otherwise => do
    checkBranches v p.branch extended branches
    checkNodes v p.branch extended otherwise
    return extended
  | .loop target iter body otherwise test recursive _ => do
    checkOption v false test
    match target.setLines "loop" ++ assignedLinesOf "loop" body ++
        assignedLinesOf "loop" otherwise with
    | line :: _ => throw ⟨line, .loopAssigned⟩
    | [] => pure ()
    if !recursive then iter.check v p.soft
    checkNodes v p.inner extended body
    checkNodes v p.inner extended otherwise
    if recursive then iter.check v p.soft
    return extended
  | .set _ e => do
    e.check v p.soft
    return extended
  | .setBlock _ filter body => do
    checkNodes v { p.inner with printed := false } extended body
    checkOption v false filter
    return extended
  | .bind _ values body => do
    checkExprs v p.soft values
    checkNodes v p.inner extended body
    return extended
  | .block .. => .ok extended
  | .define _ signature body line => do
    checkCaller signature body line
    checkExprs v false signature.defaults
    checkNodes v { p.inner with printed := false } extended body
    return extended
  | .callBlock signature call body line => do
    checkCaller signature body line
    checkExprs v false signature.defaults
    checkNodes v { p.inner with printed := false } extended body
    call.check v p.soft
    return extended
  | .filterBlock filter body => do
    checkNodes v p.inner extended body
    filter.check v false
    return extended
  | .autoescape e body => do
    e.check v false
    checkNodes v p.inner extended body
    return extended
  | .reference kind e line => do
    match kind with
    | .extend =>
      if !p.top then throw ⟨line, .nestedExtends⟩
      e.check v p.soft
      return extended || !p.soft
    | _ =>
      e.check v p.soft
      return extended

/-- Checks nodes one after the other. -/
def checkNodes (v : Vocabulary) (p : Place) (extended : Bool) : List Node → Checked
  | [] => .ok ()
  | n :: ns => do checkNodes v p (← n.check v p extended) ns

/-- Checks the branches of a condition. -/
def checkBranches (v : Vocabulary) (p : Place) (extended : Bool) :
    List (Expr × List Node) → Checked
  | [] => .ok ()
  | (e, ns) :: bs => do
    e.check v true
    checkNodes v p extended ns
    checkBranches v p extended bs

end

/-- Checks a template: its blocks have different names, its own nodes are in order, and so are
those of its blocks. -/
def check (v : Vocabulary) (nodes : List Node) : Checked := do
  let blocks := blocksOf nodes
  match repeatedBlock? [] blocks with
  | some b => throw ⟨b.line, .blockTwice b.name⟩
  | none => pure ()
  checkNodes v { top := true } false nodes
  blocks.forM fun b => checkNodes v {} false b.body

end Pagewright.Template
