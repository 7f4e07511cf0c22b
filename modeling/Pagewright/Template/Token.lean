import Pagewright.Lowering.Transform
import Pagewright.Number.Read
import Pagewright.Text.Quoted

/-! # Tokens of a template

A template is text with tags in it.  Between the delimiters of an output expression or of a
statement stand names, literals and operators; outside stands data.  A stream of tokens ends with
the end of the template or with a token at which reading broke off.

Main definitions: `Dialect` (how a template is written and run), `Lexeme`, `Token`,
`SyntaxProblem` and its `message`. -/

namespace Pagewright.Template

open Text

/-- How templates are written and run. -/
structure Dialect where
  delimiters : Delimiters := {}
  /-- Whether the line break after a statement is dropped. -/
  trimBlocks : Bool := false
  /-- Whether blanks before a statement that starts its line are dropped. -/
  lstripBlocks : Bool := false
  keepTrailingNewline : Bool := true
  /-- Whether names that start with an underscore are out of reach. -/
  sandbox : Bool := true
  deriving DecidableEq, Repr

/-- What a token is. -/
inductive Lexeme where
  | data (t : Text)
  | outputOpen
  | outputClose
  | tagOpen
  | tagClose
  | name (t : Text)
  | string (t : Text)
  | integer (n : Nat)
  | decimal (x : Float)
  | operator (symbol : Text)
  /-- Reading breaks off here. -/
  | broken (wording : Text)
  | eof

/-- A token and the line on which it starts. -/
structure Token where
  line : Nat
  lexeme : Lexeme

instance : Inhabited Token := ⟨⟨1, .eof⟩⟩

/-- What a kind of token is called. -/
def Lexeme.kindName : Lexeme → Text
  | .data _ => "template data / text"
  | .outputOpen => "begin of print statement"
  | .outputClose => "end of print statement"
  | .tagOpen => "begin of statement block"
  | .tagClose => "end of statement block"
  | .name _ => "name"
  | .string _ => "string"
  | .integer _ => "integer"
  | .decimal _ => "float"
  | .operator symbol => symbol
  | .broken wording => wording
  | .eof => "end of template"

/-- How a token is described: a name by itself, another token by its kind. -/
def Lexeme.description : Lexeme → Text
  | .name t => t
  | l => l.kindName

/-- What is wrong with the syntax of a template. -/
inductive SyntaxProblem where
  | expected (wanted got : Text)
  | endInstead (wanted : Text)
  | unexpected (got : Text)
  | expressionExpected (got : Text)
  | nameOrNumberExpected
  | tagNameExpected
  | unknownTag (name : Option Text) (looking : List Text) (nested : Bool) (innermost : Option Text)
  | notAssignable (kind : Text)
  | defaultOrder
  | callExpected
  | malformedCall
  | chainedTest
  | hyphenInBlockName
  | requiredBlockContent
  | underscoreImport
  | chunkAfterExpression
  | unknownFilter (name : Text)
  | unknownTest (name : Text)
  | blockTwice (name : Text)
  | loopAssigned
  | callerWithoutDefault
  | nestedExtends
  | tooDeep
  | unreadable (wording : Text)
  deriving DecidableEq, Repr

/-- What the reader was looking for, in words. -/
def alternatives (names : List Text) : Text := join " or " (names.map quoted)

/-- The wording of a problem. -/
def SyntaxProblem.message : SyntaxProblem → Text
  | .expected wanted got => "expected token " ++ quoted wanted ++ ", got " ++ quoted got
  | .endInstead wanted => "unexpected end of template, expected " ++ quoted wanted ++ "."
  | .unexpected got => "unexpected " ++ quoted got
  | .expressionExpected got => "Expected an expression, got " ++ quoted got
  | .nameOrNumberExpected => "expected name or number"
  | .tagNameExpected => "tag name expected"
  | .unknownTag name looking nested innermost =>
    let start : Text := match name with
      | none => "Unexpected end of template."
      | some n => "Encountered unknown tag " ++ quoted n ++ "."
    let middle : List Text :=
      if looking.isEmpty then []
      else if nested then
        ["You probably made a nesting mistake. Jinja is expecting this tag, but currently " ++
          "looking for " ++ alternatives looking ++ "."]
      else
        ["Jinja was looking for the following tags: " ++ alternatives looking ++ "."]
    let last : List Text := match innermost with
      | none => []
      | some n => ["The innermost block that needs to be closed is " ++ quoted n ++ "."]
    join " " (start :: middle ++ last)
  | .notAssignable kind => "can't assign to " ++ quoted kind
  | .defaultOrder => "non-default argument follows default argument"
  | .callExpected => "expected call"
  | .malformedCall => "invalid syntax for function call expression"
  | .chainedTest => "You cannot chain multiple tests with is"
  | .hyphenInBlockName =>
    "Block names in Jinja have to be valid Python identifiers and may not contain hyphens, " ++
      "use an underscore instead."
  | .requiredBlockContent => "Required blocks can only contain comments or whitespace"
  | .underscoreImport => "names starting with an underline can not be imported"
  | .chunkAfterExpression => "chunk after expression"
  | .unknownFilter name => "No filter named " ++ quoted name ++ "."
  | .unknownTest name => "No test named " ++ quoted name ++ "."
  | .blockTwice name => "block " ++ quoted name ++ " defined twice"
  | .loopAssigned => "Can't assign to special loop variable in for-loop target"
  | .callerWithoutDefault =>
    "When defining macros or call blocks the special \"caller\" argument must be omitted or be " ++
      "given a default."
  | .nestedExtends => "cannot use extend from a non top-level scope"
  | .tooDeep => "maximum recursion depth exceeded"
  | .unreadable wording => wording

/-- A problem of the syntax and the line on which it was found. -/
structure SyntaxFault where
  line : Nat
  problem : SyntaxProblem
  deriving DecidableEq, Repr

end Pagewright.Template
