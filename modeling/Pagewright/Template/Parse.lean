import Pagewright.Template.Tokenize
import Pagewright.Template.Tree

/-! # Reading syntax trees

A reader goes through the tokens one at a time and refuses a template at the first token that
does not fit.  It remembers which statements are open and which tags would close them, since
both appear in its answers.

The rules of the grammar refer to each other, so they are written against a record of the rules
for smaller pieces (`Grammar`); `grammar` ties the knot with a bound that the number of tokens
always meets.

Main definitions: `Reader`, `Grammar`, `grammar`, `parse` (a template), `parseExpression` (a lone
expression). -/

namespace Pagewright.Template

open Text

/-- The tokens still to be read, the names of the open statements and the tags that each of them
waits for, innermost first. -/
structure ReadState where
  tokens : List Token
  tags : List Text := []
  ends : List (List Text) := []

/-- A reader: an answer and the state after it, or what is wrong. -/
abbrev Reader := StateT ReadState (Except SyntaxFault)

/-- Refuses a template for a problem on a line. -/
def refuse {α : Type} (line : Nat) (problem : SyntaxProblem) : Reader α := throw ⟨line, problem⟩

/-! ### Tokens -/

/-- The token to be read next. -/
def current : Reader Token := do return (← get).tokens.head?.getD default

/-- The token behind the current one. -/
def following : Reader Token := do return ((← get).tokens.drop 1).head?.getD default

/-- Refuses a template whose next token could not be read. -/
def checkReadable : Reader Unit := do
  let t ← current
  match t.lexeme with
  | .broken wording => refuse t.line (.unreadable wording)
  | _ => return

/-- The current token, which is passed over. -/
def next : Reader Token := do
  let t ← current
  match t.lexeme with
  | .eof => return t
  | _ =>
    modify fun s => { s with tokens := s.tokens.drop 1 }
    checkReadable
    return t

/-- Whether a token is the given operator. -/
def Token.isOperator (symbol : Text) (t : Token) : Bool :=
  match t.lexeme with
  | .operator s => s == symbol
  | _ => false

/-- Whether a token is the given name. -/
def Token.isName (name : Text) (t : Token) : Bool :=
  match t.lexeme with
  | .name n => n == name
  | _ => false

/-- Whether a token ends a statement. -/
def Token.isTagClose (t : Token) : Bool :=
  match t.lexeme with
  | .tagClose => true
  | _ => false

/-- Whether a token ends the template. -/
def Token.isEnd (t : Token) : Bool :=
  match t.lexeme with
  | .eof => true
  | _ => false

/-- Passes over the current token if it is the given operator. -/
def skipOperator (symbol : Text) : Reader Bool := do
  if (← current).isOperator symbol then
    let _ ← next
    return true
  return false

/-- Passes over the current token if it is the given name. -/
def skipName (name : Text) : Reader Bool := do
  if (← current).isName name then
    let _ ← next
    return true
  return false

/-- Refuses the current token, where `wanted` had to stand. -/
def refuseCurrent {α : Type} (wanted : Text) : Reader α := do
  let t ← current
  if t.isEnd then refuse t.line (.endInstead wanted)
  else refuse t.line (.expected wanted t.lexeme.description)

/-- Reads the given operator. -/
def expectOperator (symbol : Text) : Reader Token := do
  if (← current).isOperator symbol then next else refuseCurrent symbol

/-- Reads the given name. -/
def expectName (name : Text) : Reader Token := do
  if (← current).isName name then next else refuseCurrent name

/-- Reads any name. -/
def anyName : Reader (Text × Nat) := do
  let t ← current
  match t.lexeme with
  | .name n =>
    let _ ← next
    return (n, t.line)
  | _ => refuseCurrent "name"

/-- Reads the end of a statement. -/
def expectTagClose : Reader Unit := do
  if (← current).isTagClose then
    let _ ← next
  else refuseCurrent Lexeme.tagClose.kindName

/-- Reads the end of an output expression. -/
def expectOutputClose : Reader Unit := do
  match (← current).lexeme with
  | .outputClose =>
    let _ ← next
  | _ => refuseCurrent Lexeme.outputClose.kindName

/-- The number of tokens still to be read, which bounds every repetition. -/
def remaining : Reader Nat := do return (← get).tokens.length + 1

/-! ### Expressions -/

/-- The rules for the pieces that a rule is made of. -/
structure Grammar where
  /-- An expression, with or without the conditional form. -/
  expr : Bool → Reader Expr
  /-- A signed expression, with or without filters. -/
  signed : Bool → Reader Expr
  negation : Reader Expr
  /-- The nodes up to one of the given tags, or up to the end of the template. -/
  nodes : Option (List Text) → Reader (List Node)

/-- How a tuple without brackets is read. -/
structure TupleStyle where
  /-- Only names and literals, as in a target. -/
  simple : Bool := false
  conditional : Bool := true
  /-- A name that ends the tuple. -/
  endName : Option Text := none
  bracketed : Bool := false
  fields : Bool := false

/-- Whether the current token ends a tuple. -/
def atTupleEnd (endName : Option Text) : Reader Bool := do
  let t ← current
  match t.lexeme with
  | .outputClose | .tagClose => return true
  | .operator ")" => return true
  | .name n => return endName == some n
  | _ => return false

/-- The items of a list of pieces with commas between them, up to the operator `closer`, which is
not read.  A comma may stand in front of it if `trailing` says so. -/
def separated {α : Type} (closer : Text) (trailing : Bool) (item : Reader α) :
    Nat → Bool → Reader (List α)
  | 0, _ => do refuse (← current).line .tooDeep
  | fuel + 1, first => do
    if (← current).isOperator closer then return []
    if !first then
      let _ ← expectOperator ","
      if trailing && (← current).isOperator closer then return []
    let x ← item
    return x :: (← separated closer trailing item fuel false)

/-- The strings behind a string, which are joined to it. -/
def moreStrings : Nat → Reader Text
  | 0 => return []
  | fuel + 1 => do
    match (← current).lexeme with
    | .string t =>
      let _ ← next
      return t ++ (← moreStrings fuel)
    | _ => return []

/-- The items of a tuple, and whether a comma makes it one even of a single item. -/
def tupleItems (style : TupleStyle) (item : Reader Expr) :
    Nat → Bool → Reader (List Expr × Bool)
  | 0, _ => do refuse (← current).line .tooDeep
  | fuel + 1, first => do
    if !first then
      let _ ← expectOperator ","
    if ← atTupleEnd style.endName then return ([], false)
    let x ← item
    if (← current).isOperator "," then
      let (xs, _) ← tupleItems style item fuel false
      return (x :: xs, true)
    return ([x], false)

/-- The expression made of the items of a tuple that started at `line`. -/
def tupleOf (style : TupleStyle) (line : Nat) (items : List Expr) (isTuple : Bool) :
    Reader Expr := do
  if isTuple then return .tuple items line
  match items with
  | x :: _ => return x
  | [] =>
    if style.bracketed then return .tuple [] line
    let t ← current
    refuse t.line (.expressionExpected t.lexeme.description)

/-- The names that stand for values. -/
def constant? (n : Text) : Option Value :=
  if n = "true" ∨ n = "True" then some (.bool true)
  else if n = "false" ∨ n = "False" then some (.bool false)
  else if n = "none" ∨ n = "None" then some .none
  else none

/-- An entry of a dictionary. -/
def dictEntry (g : Grammar) : Reader (Expr × Expr) := do
  let key ← g.expr true
  let _ ← expectOperator ":"
  let value ← g.expr true
  return (key, value)

/-- A tuple of expressions. -/
def tuple (g : Grammar) (style : TupleStyle) : Reader Expr := do
  let line := (← current).line
  let (items, isTuple) ← tupleItems style (g.expr style.conditional) (← remaining) true
  tupleOf style line items isTuple

/-- A name, literal or bracketed expression; with `fields` a name may be followed by a field. -/
def primary (g : Grammar) (fields : Bool) : Reader Expr := do
  let t ← current
  match t.lexeme with
  | .name n =>
    let _ ← next
    match constant? n with
    | some v => return .const v t.line
    | none =>
      if fields && (← current).isOperator "." then
        let _ ← next
        let (field, _) ← anyName
        return .field n field t.line
      return .name n t.line
  | .string s =>
    let _ ← next
    let more ← moreStrings (← remaining)
    return .const (.str (s ++ more)) t.line
  | .integer n =>
    let _ ← next
    return .const (.int n) t.line
  | .decimal x =>
    let _ ← next
    return .const (.float x) t.line
  | .operator "(" =>
    let _ ← next
    let e ← tuple g { bracketed := true }
    let _ ← expectOperator ")"
    return e
  | .operator "[" =>
    let _ ← next
    let xs ← separated "]" true (g.expr true) (← remaining) true
    let _ ← expectOperator "]"
    return .list xs t.line
  | .operator "\x7b" =>
    let _ ← next
    let es ← separated "\x7d" true (dictEntry g) (← remaining) true
    let _ ← expectOperator "\x7d"
    return .dict es t.line
  | l => refuse t.line (.unexpected l.description)

/-- A part of a slice, if one stands before the next colon or closing bracket. -/
def slicePart (g : Grammar) : Reader (Option Expr) := do
  let t ← current
  if t.isOperator ":" || t.isOperator "]" || t.isOperator "," then return none
  return some (← g.expr true)

/-- What stands between square brackets behind an expression: a key or a slice. -/
def subscribed (g : Grammar) : Reader Expr := do
  let line := (← current).line
  let start ← slicePart' g
  match start with
  | some e => if !(← current).isOperator ":" then return e
  | none => pure ()
  let _ ← expectOperator ":"
  let stop ← slicePart g
  let step ← if ← skipOperator ":" then slicePart g else pure none
  return .slice start stop step line
where
  /-- The first part, which may be missing only in front of a colon. -/
  slicePart' (g : Grammar) : Reader (Option Expr) := do
    if (← current).isOperator ":" then return none
    return some (← g.expr true)

/-- An attribute or item of an expression. -/
def subscript (g : Grammar) (e : Expr) : Reader Expr := do
  let t ← next
  if t.isOperator "." then
    let a ← current
    let _ ← next
    match a.lexeme with
    | .name n => return .attr e n t.line
    | .integer n => return .item e (.const (.int n) a.line) t.line
    | _ => refuse a.line .nameOrNumberExpected
  else
    let keys ← separated "]" false (subscribed g) (← remaining) true
    let _ ← expectOperator "]"
    match keys with
    | [k] => return .item e k t.line
    | ks => return .item e (.tuple ks t.line) t.line

/-- One argument added to those read before it; `line` is where the arguments start. -/
def argument (g : Grammar) (line : Nat) (args : Arguments Expr) : Reader (Arguments Expr) := do
  let ensure := fun (ok : Bool) => if ok then pure () else refuse line .malformedCall
  if (← current).isOperator "*" then
    ensure (args.rest.isNone && args.restNamed.isNone)
    let _ ← next
    return { args with rest := some (← g.expr true) }
  else if (← current).isOperator "**" then
    ensure args.restNamed.isNone
    let _ ← next
    return { args with restNamed := some (← g.expr true) }
  else
    match (← current).lexeme, (← following).isOperator "=" with
    | .name n, true =>
      ensure args.restNamed.isNone
      let _ ← next
      let _ ← next
      let e ← g.expr true
      return { args with named := args.named ++ [(n, e)] }
    | _, _ =>
      ensure (args.rest.isNone && args.restNamed.isNone && args.named.isEmpty)
      return { args with positional := args.positional ++ [← g.expr true] }

/-- The arguments up to the closing bracket, which is not read. -/
def argumentsFrom (g : Grammar) (line : Nat) : Nat → Bool → Arguments Expr →
    Reader (Arguments Expr)
  | 0, _, _ => do refuse (← current).line .tooDeep
  | fuel + 1, first, args => do
    if (← current).isOperator ")" then return args
    if !first then
      let _ ← expectOperator ","
      if (← current).isOperator ")" then return args
    argumentsFrom g line fuel false (← argument g line args)

/-- Arguments in round brackets. -/
def callArguments (g : Grammar) : Reader (Arguments Expr) := do
  let line := (← current).line
  let _ ← expectOperator "("
  let args ← argumentsFrom g line (← remaining) true {}
  let _ ← expectOperator ")"
  return args

/-- A call of an expression. -/
def call (g : Grammar) (e : Expr) : Reader Expr := do
  let line := (← current).line
  return .call e (← callArguments g) line

/-- Attributes, items and calls behind an expression. -/
def suffixes (g : Grammar) : Nat → Expr → Reader Expr
  | 0, e => return e
  | fuel + 1, e => do
    let t ← current
    if t.isOperator "." || t.isOperator "[" then suffixes g fuel (← subscript g e)
    else if t.isOperator "(" then suffixes g fuel (← call g e)
    else return e

/-- A name with further names after full stops. -/
def dottedName : Nat → Text → Reader Text
  | 0, n => return n
  | fuel + 1, n => do
    if ← skipOperator "." then
      let (more, _) ← anyName
      dottedName fuel (n ++ '.' :: more)
    else return n

/-- Arguments if the current token opens them. -/
def optionalArguments (g : Grammar) : Reader (Arguments Expr) := do
  if (← current).isOperator "(" then callArguments g else return {}

/-- A filter whose name comes next, applied to an expression. -/
def oneFilter (g : Grammar) (e : Option Expr) : Reader Expr := do
  let (name, line) ← anyName
  let name ← dottedName (← remaining) name
  return .filter e name (← optionalArguments g) line

/-- The filters from the next bar on, applied one after the other. -/
def filterChain (g : Grammar) : Nat → Option Expr → Reader (Option Expr)
  | 0, e => return e
  | fuel + 1, e => do
    if ← skipOperator "|" then filterChain g fuel (some (← oneFilter g e)) else return e

/-- Whether a token starts an argument without brackets of a test. -/
def startsTestArgument (t : Token) : Bool :=
  match t.lexeme with
  | .name n => !(["else", "or", "and"] : List Text).contains n
  | .string _ | .integer _ | .decimal _ => true
  | .operator s => (["[", "\x7b"] : List Text).contains s
  | _ => false

/-- A test of an expression, from the word `is` on. -/
def test (g : Grammar) (e : Expr) : Reader Expr := do
  let line := (← next).line
  let negated ← skipName "not"
  let (name, _) ← anyName
  let name ← dottedName (← remaining) name
  let t ← current
  let args : Arguments Expr ←
    if t.isOperator "(" then callArguments g
    else if startsTestArgument t then do
      if t.isName "is" then refuse t.line .chainedTest
      let a ← primary g false
      let a ← suffixes g (← remaining) a
      pure { positional := [a] }
    else pure {}
  let result := Expr.test e name args line
  return if negated then .not result line else result

/-- Filters, tests and calls behind an expression. -/
def filtersAndTests (g : Grammar) : Nat → Expr → Reader Expr
  | 0, e => return e
  | fuel + 1, e => do
    let t ← current
    if t.isOperator "|" then
      let chained ← filterChain g (← remaining) (some e)
      filtersAndTests g fuel (chained.getD e)
    else if t.isName "is" then filtersAndTests g fuel (← test g e)
    else if t.isOperator "(" then filtersAndTests g fuel (← call g e)
    else return e

/-- A signed expression. -/
def signedExpr (g : Grammar) (filters : Bool) : Reader Expr := do
  let t ← current
  let e ←
    if t.isOperator "-" then do
      let _ ← next
      pure (Expr.neg (← g.signed false) t.line)
    else if t.isOperator "+" then do
      let _ ← next
      pure (Expr.pos (← g.signed false) t.line)
    else primary g false
  let e ← suffixes g (← remaining) e
  if filters then filtersAndTests g (← remaining) e else return e

/-- The rest of a chain of left-associative operators behind `left`, which started at `line`. -/
def chain (ops : List (Text × BinaryOp)) (operand : Reader Expr) : Nat → Nat → Expr → Reader Expr
  | 0, _, left => return left
  | fuel + 1, line, left => do
    match (← current).lexeme with
    | .operator s =>
      match ops.lookup s with
      | some op =>
        let _ ← next
        let right ← operand
        let here := (← current).line
        chain ops operand fuel here (.binary op left right line)
      | none => return left
    | _ => return left

/-- A chain of left-associative operators. -/
def leftAssoc (ops : List (Text × BinaryOp)) (operand : Reader Expr) : Reader Expr := do
  let line := (← current).line
  let left ← operand
  chain ops operand (← remaining) line left

/-- A power. -/
def power (g : Grammar) : Reader Expr := leftAssoc [("**".toList, .pow)] (signedExpr g true)

/-- A product. -/
def product (g : Grammar) : Reader Expr :=
  leftAssoc [("*".toList, .mul), ("/".toList, .div), ("//".toList, .floorDiv), ("%".toList, .mod)]
    (power g)

/-- The operands behind a tilde. -/
def tildeOperands (g : Grammar) : Nat → Reader (List Expr)
  | 0 => return []
  | fuel + 1 => do
    if ← skipOperator "~" then
      let e ← product g
      return e :: (← tildeOperands g fuel)
    else return []

/-- Texts joined by tildes. -/
def concatenation (g : Grammar) : Reader Expr := do
  let line := (← current).line
  let first ← product g
  match ← tildeOperands g (← remaining) with
  | [] => return first
  | more => return .concat (first :: more) line

/-- A sum. -/
def sum (g : Grammar) : Reader Expr :=
  leftAssoc [("+".toList, .add), ("-".toList, .sub)] (concatenation g)

/-- The comparison that an operator stands for. -/
def comparison? (symbol : Text) : Option CompareOp :=
  if symbol = "==" then some .eq
  else if symbol = "!=" then some .ne
  else if symbol = "<" then some .lt
  else if symbol = "<=" then some .le
  else if symbol = ">" then some .gt
  else if symbol = ">=" then some .ge
  else none

/-- The comparisons behind an expression, and the line behind the last one. -/
def comparisons (g : Grammar) (line : Nat) : Nat → Reader (List (CompareOp × Expr) × Nat)
  | 0 => return ([], line)
  | fuel + 1 => do
    let t ← current
    let op ← (match t.lexeme with
      | .operator s => do
        match comparison? s with
        | some op =>
          let _ ← next
          pure (some op)
        | none => pure none
      | .name n => do
        if n = "in" then
          let _ ← next
          pure (some CompareOp.isIn)
        else if n = "not" ∧ (← following).isName "in" then
          let _ ← next
          let _ ← next
          pure (some CompareOp.notIn)
        else pure none
      | _ => pure none)
    match op with
    | none => return ([], line)
    | some op =>
      let e ← sum g
      let here := (← current).line
      let (more, last) ← comparisons g here fuel
      return ((op, e) :: more, last)

/-- A comparison. -/
def compare (g : Grammar) : Reader Expr := do
  let line := (← current).line
  let e ← sum g
  match ← comparisons g line (← remaining) with
  | ([], _) => return e
  | (ops, line) => return .compare e ops line

/-- A negation, or a comparison. -/
def negationExpr (g : Grammar) : Reader Expr := do
  let t ← current
  if t.isName "not" then
    let _ ← next
    return .not (← g.negation) t.line
  compare g

/-- The rest of a chain of a word operator. -/
def wordChain (word : Text) (build : Expr → Expr → Nat → Expr) (operand : Reader Expr) :
    Nat → Nat → Expr → Reader Expr
  | 0, _, left => return left
  | fuel + 1, line, left => do
    if ← skipName word then
      let right ← operand
      let here := (← current).line
      wordChain word build operand fuel here (build left right line)
    else return left

/-- A conjunction. -/
def conjunction (g : Grammar) : Reader Expr := do
  let line := (← current).line
  let left ← negationExpr g
  wordChain "and" .and (negationExpr g) (← remaining) line left

/-- A disjunction. -/
def disjunction (g : Grammar) : Reader Expr := do
  let line := (← current).line
  let left ← conjunction g
  wordChain "or" .or (conjunction g) (← remaining) line left

/-- The conditions behind an expression. -/
def conditionals (g : Grammar) : Nat → Nat → Expr → Reader Expr
  | 0, _, e => return e
  | fuel + 1, line, e => do
    if ← skipName "if" then
      let condition ← disjunction g
      let otherwise ← if ← skipName "else" then pure (some (← g.expr true)) else pure none
      let here := (← current).line
      conditionals g fuel here (.cond e condition otherwise line)
    else return e

/-- An expression, with or without the conditional form. -/
def expression (g : Grammar) (conditional : Bool) : Reader Expr := do
  let line := (← current).line
  let e ← disjunction g
  if conditional then conditionals g (← remaining) line e else return e

/-! ### Statements -/

mutual

/-- Whether an expression can stand on the left of an assignment. -/
def isAssignable : Expr → Bool
  | .name n _ => (constant? n).isNone
  | .field .. => true
  | .tuple xs _ => areAssignable xs
  | _ => false

/-- Whether expressions can stand on the left of an assignment. -/
def areAssignable : List Expr → Bool
  | [] => true
  | x :: xs => isAssignable x && areAssignable xs

end

/-- Refuses an expression that cannot be assigned to. -/
def checkAssignable (e : Expr) : Reader Expr :=
  if isAssignable e then return e else refuse e.line (.notAssignable e.kindName)

/-- The target of an assignment. -/
def target (g : Grammar) (endName : Option Text) (fields : Bool) : Reader Expr := do
  let style : TupleStyle := { simple := true, endName, fields }
  let line := (← current).line
  let (items, isTuple) ← tupleItems style (primary g fields) (← remaining) true
  checkAssignable (← tupleOf style line items isTuple)

/-- A name that is bound. -/
def boundName : Reader (Text × Nat) := do
  let (n, line) ← anyName
  let _ ← checkAssignable (.name n line)
  return (n, line)

/-- The nodes of a statement up to one of its closing tags; the closing tag itself is passed over
if `drop` says so. -/
def body (g : Grammar) (ends : List Text) (drop : Bool) : Reader (List Node) := do
  let _ ← skipOperator ":"
  expectTagClose
  let nodes ← g.nodes (some ends)
  let t ← current
  if t.isEnd then
    let s ← get
    refuse t.line (.unknownTag none ends false s.tags.head?)
  if drop then
    let _ ← next
  return nodes

/-- The parameters of a definition. -/
def signatureFrom (g : Grammar) : Nat → Signature → Reader Signature
  | 0, s => return s
  | fuel + 1, s => do
    if (← current).isOperator ")" then return s
    if !s.params.isEmpty then
      let _ ← expectOperator ","
    let (n, line) ← boundName
    if ← skipOperator "=" then
      let e ← g.expr true
      signatureFrom g fuel ⟨s.params ++ [(n, line)], s.defaults ++ [e]⟩
    else
      if !s.defaults.isEmpty then refuse (← current).line .defaultOrder
      signatureFrom g fuel { s with params := s.params ++ [(n, line)] }

/-- Parameters in round brackets. -/
def signature (g : Grammar) : Reader Signature := do
  let _ ← expectOperator "("
  let s ← signatureFrom g (← remaining) {}
  let _ ← expectOperator ")"
  return s

/-- The branches of a conditional from a condition on. -/
def branches (g : Grammar) : Nat → Reader (List (Expr × List Node) × List Node)
  | 0 => return ([], [])
  | fuel + 1 => do
    let condition ← tuple g { conditional := false }
    let nodes ← body g ["elif", "else", "endif"] false
    let t ← next
    if t.isName "elif" then
      let (more, otherwise) ← branches g fuel
      return ((condition, nodes) :: more, otherwise)
    else if t.isName "else" then
      let otherwise ← body g ["endif"] true
      return ([(condition, nodes)], otherwise)
    else return ([(condition, nodes)], [])

/-- A loop. -/
def loopStatement (g : Grammar) : Reader Node := do
  let line := (← next).line
  let t ← target g (some "in") false
  let _ ← expectName "in"
  let iter ← tuple g { conditional := false, endName := some "recursive" }
  let test ← if ← skipName "if" then pure (some (← g.expr true)) else pure none
  let recursive ← skipName "recursive"
  let nodes ← body g ["endfor", "else"] false
  let stop ← next
  let otherwise ← if stop.isName "endfor" then pure [] else body g ["endfor"] true
  return .loop t iter nodes otherwise test recursive line

/-- An assignment. -/
def setStatement (g : Grammar) : Reader Node := do
  let _ ← next
  let t ← target g none true
  if ← skipOperator "=" then
    return .set t (← tuple g {})
  let filter ← filterChain g (← remaining) none
  return .setBlock t filter (← body g ["endset"] true)

/-- The bindings of a scope, up to the end of its tag. -/
def bindings (g : Grammar) : Nat → Bool → Reader (List (Expr × Expr))
  | 0, _ => return []
  | fuel + 1, first => do
    if (← current).isTagClose then return []
    if !first then
      let _ ← expectOperator ","
    let t ← target g none false
    let _ ← expectOperator "="
    let e ← g.expr true
    return (t, e) :: (← bindings g fuel false)

/-- Whether nodes hold nothing but white space. -/
def isBlankBody (nodes : List Node) : Bool :=
  nodes.all fun
    | .data t => isBlank t && !t.isEmpty
    | _ => false

/-- A named block. -/
def blockStatement (g : Grammar) : Reader Node := do
  let line := (← next).line
  let (name, _) ← anyName
  let seesAround ← skipName "scoped"
  let required ← skipName "required"
  let t ← current
  if t.isOperator "-" then refuse t.line .hyphenInBlockName
  let nodes ← body g ["endblock"] true
  if required && !isBlankBody nodes then refuse (← current).line .requiredBlockContent
  let _ ← skipName name
  return .block name nodes seesAround required line

/-- The words `with context` or `without context`. -/
def contextWords : Reader Bool := do
  let t ← current
  if (t.isName "with" || t.isName "without") && (← following).isName "context" then
    let _ ← next
    let _ ← next
    return true
  return false

/-- The names that are imported from a template. -/
def importedNames : Nat → Bool → Reader (List Text)
  | 0, _ => return []
  | fuel + 1, first => do
    if !first then
      let _ ← expectOperator ","
    match (← current).lexeme with
    | .name _ =>
      if ← contextWords then return []
      let (n, line) ← boundName
      if n.head? = some '_' then refuse line .underscoreImport
      let bound ← if ← skipName "as" then do pure (← boundName).1 else pure n
      if ← contextWords then return [bound]
      if (← current).isOperator "," then return bound :: (← importedNames fuel false)
      return [bound]
    | _ => refuseCurrent "name"

/-- The expressions of a printing statement. -/
def printedExprs (g : Grammar) : Nat → Bool → Reader (List Node)
  | 0, _ => return []
  | fuel + 1, first => do
    if (← current).isTagClose then return []
    if !first then
      let _ ← expectOperator ","
    let e ← g.expr true
    return .output e :: (← printedExprs g fuel false)

/-- The statement with a known name. -/
def knownStatement? (g : Grammar) (name : Text) : Option (Reader (List Node)) :=
  let one := fun (r : Reader Node) => some (do return [← r])
  if name = "for" then one (loopStatement g)
  else if name = "if" then one do
    let _ ← next
    let (bs, otherwise) ← branches g (← remaining)
    return .ifElse bs otherwise
  else if name = "set" then one (setStatement g)
  else if name = "with" then one do
    let _ ← next
    let bs ← bindings g (← remaining) true
    return .bind (bs.map Prod.fst) (bs.map Prod.snd) (← body g ["endwith"] true)
  else if name = "block" then one (blockStatement g)
  else if name = "macro" then one do
    let line := (← next).line
    let (n, _) ← boundName
    let s ← signature g
    return .define n s (← body g ["endmacro"] true) line
  else if name = "call" then one do
    let line := (← next).line
    let s ← if (← current).isOperator "(" then signature g else pure {}
    let e ← g.expr true
    match e with
    | .call .. => return .callBlock s e (← body g ["endcall"] true) line
    | _ => refuse line .callExpected
  else if name = "filter" then one do
    let _ ← next
    let first ← oneFilter g none
    let chained ← filterChain g (← remaining) (some first)
    return .filterBlock (chained.getD first) (← body g ["endfilter"] true)
  else if name = "print" then some do
    let _ ← next
    printedExprs g (← remaining) true
  else if name = "autoescape" then one do
    let _ ← next
    let e ← g.expr true
    return .autoescape e (← body g ["endautoescape"] true)
  else if name = "extends" then one do
    let line := (← next).line
    return .reference .extend (← g.expr true) line
  else if name = "include" then one do
    let line := (← next).line
    let e ← g.expr true
    if (← current).isName "ignore" && (← following).isName "missing" then
      let _ ← next
      let _ ← next
    let _ ← contextWords
    return .reference .insert e line
  else if name = "import" then one do
    let line := (← next).line
    let e ← g.expr true
    let _ ← expectName "as"
    let (n, _) ← boundName
    let _ ← contextWords
    return .reference (.importAs n) e line
  else if name = "from" then one do
    let line := (← next).line
    let e ← g.expr true
    let _ ← expectName "import"
    return .reference (.importFrom (← importedNames (← remaining) true)) e line
  else none

/-- A statement; while it is read its name is the innermost open one. -/
def statement (g : Grammar) : Reader (List Node) := do
  let t ← current
  match t.lexeme with
  | .name n =>
    match knownStatement? g n with
    | some r =>
      modify fun s => { s with tags := n :: s.tags }
      let nodes ← r
      modify fun s => { s with tags := s.tags.drop 1 }
      return nodes
    | none =>
      let s ← get
      refuse t.line (.unknownTag (some n) (s.ends.head?.getD [])
        (s.ends.any fun names => names.contains n) s.tags.head?)
  | _ => refuse t.line .tagNameExpected

/-- Whether the current token is one of the tags that close a statement. -/
def atEnd (ends : Option (List Text)) : Reader Bool := do
  match ends, (← current).lexeme with
  | some names, .name n => return names.contains n
  | _, _ => return false

/-- The nodes up to a closing tag or the end of the template. -/
def nodesFrom (g : Grammar) (ends : Option (List Text)) : Nat → Reader (List Node)
  | 0 => return []
  | fuel + 1 => do
    match (← current).lexeme with
    | .eof => return []
    | .data t =>
      let _ ← next
      return .data t :: (← nodesFrom g ends fuel)
    | .outputOpen =>
      let _ ← next
      let e ← tuple g {}
      expectOutputClose
      return .output e :: (← nodesFrom g ends fuel)
    | .tagOpen =>
      let _ ← next
      if ← atEnd ends then return []
      let nodes ← statement g
      expectTagClose
      return nodes ++ (← nodesFrom g ends fuel)
    | l => refuse (← current).line (.unexpected l.description)

/-- The nodes up to a closing tag, which is waited for while they are read. -/
def nodesUntil (g : Grammar) (ends : Option (List Text)) : Reader (List Node) := do
  match ends with
  | none => nodesFrom g none (← remaining)
  | some names =>
    modify fun s => { s with ends := names :: s.ends }
    let nodes ← nodesFrom g ends (← remaining)
    modify fun s => { s with ends := s.ends.drop 1 }
    return nodes

/-- The rules for pieces that are nested at most as deeply as the bound says. -/
def grammar : Nat → Grammar
  | 0 =>
    { expr := fun _ => refuse 1 .tooDeep
      signed := fun _ => refuse 1 .tooDeep
      negation := refuse 1 .tooDeep
      nodes := fun _ => refuse 1 .tooDeep }
  | n + 1 =>
    { expr := fun conditional => expression (grammar n) conditional
      signed := fun filters => signedExpr (grammar n) filters
      negation := fun s => negationExpr (grammar n) s
      nodes := fun ends => nodesUntil (grammar n) ends }

/-- The nodes of a template. -/
def parse (d : Dialect) (t : Text) : Except SyntaxFault (List Node) := do
  let tokens := tokenize d t
  let whole : Reader (List Node) := do
    checkReadable
    (grammar (tokens.length + 1)).nodes none
  return (← whole.run { tokens }).1

/-- The tree of an expression that stands alone. -/
def parseExpression (d : Dialect) (t : Text) : Except SyntaxFault Expr := do
  let tokens := tokenizeExpression d t
  let whole : Reader Expr := do
    checkReadable
    let e ← (grammar (tokens.length + 1)).expr true
    let rest ← current
    if !rest.isEnd then refuse rest.line .chunkAfterExpression
    return e
  return (← whole.run { tokens }).1

end Pagewright.Template
