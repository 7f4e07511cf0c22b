import Pagewright.Lowering.Transform
import Pagewright.Proofs.Directive.Part

/-! # Drafts

Templates as trees: text, output, conditionals, switches and loops, each inside the others to any
depth.  A draft is written out as parts (`Draft.parts`), and has a translation that is read off the
tree (`Draft.translate`): every construct becomes its own engine tags around the translations of what
stands in it.  What a construct must know of the rest of the tree is its `Context`: how many switches
and loops were opened before it, how many loops are around it, and which switch is its own.

A draft is well nested by its type; that its source is legible is said of its parts. -/

namespace Pagewright.Lowering

open Text Directive

/-! ### Trees -/

/-- Text between directives. -/
structure PlainText where
  text : Text
  plain : '@' ∉ text

/-- What stands in the brackets of a directive: a balanced text that is not blank. -/
structure Expression where
  text : Text
  balanced : Balanced text
  plain : '@' ∉ text
  given : isBlank text = false

/-- What stands in the brackets of a loop, with the header that it is read as. -/
structure HeaderText where
  text : Text
  balanced : Balanced text
  plain : '@' ∉ text
  header : LoopHeader
  read : loopHeader? text = some header

/-- The conditionals: `if` and its three relatives. -/
inductive Test where
  | whether
  | negated
  | isset
  | empty
  deriving DecidableEq, Repr

namespace Test

/-- The directive that opens a conditional. -/
def opener : Test → Text
  | .whether => "if"
  | .negated => "unless"
  | .isset => "isset"
  | .empty => "empty"

/-- The directive that closes a conditional. -/
def closer : Test → Text
  | .whether => "endif"
  | .negated => "endunless"
  | .isset => "endisset"
  | .empty => "endempty"

/-- What the engine tests for an expression. -/
def condition (e : Text) : Test → Text
  | .whether => e
  | .negated => "not (" ++ e ++ ")"
  | .isset => "(" ++ e ++ ") is defined and (" ++ e ++ ") is not none"
  | .empty => "not (" ++ e ++ ")"

end Test

/-- The stretches of a template: one that may stand anywhere, the further branches of a conditional,
and the cases of a switch. -/
inductive Stretch where
  | body
  | branches
  | cases

/-- A template as a tree.  The first index tells whether a switch is around it, as only there a
`@break` may stand; every construct of a body goes on with what follows it. -/
inductive Draft : Bool → Stretch → Type
  | done {b : Bool} : Draft b .body
  | text {b : Bool} (t : PlainText) (rest : Draft b .body) : Draft b .body
  | json {b : Bool} (e : Expression) (rest : Draft b .body) : Draft b .body
  | leave (rest : Draft true .body) : Draft true .body
  | choice {b : Bool} (test : Test) (e : Expression) (body : Draft b .body)
      (more : Draft b .branches) (rest : Draft b .body) : Draft b .body
  | switch {b : Bool} (e : Expression) (lead : Draft true .body) (cases : Draft true .cases)
      (rest : Draft b .body) : Draft b .body
  | foreach {b : Bool} (h : HeaderText) (body rest : Draft b .body) : Draft b .body
  | forelse {b : Bool} (h : HeaderText) (body empty rest : Draft b .body) : Draft b .body
  | close {b : Bool} : Draft b .branches
  | elseif {b : Bool} (e : Expression) (body : Draft b .body) (more : Draft b .branches) :
      Draft b .branches
  | otherwise {b : Bool} (body : Draft b .body) : Draft b .branches
  | last : Draft true .cases
  | case (e : Expression) (body : Draft true .body) (more : Draft true .cases) : Draft true .cases
  | default (body : Draft true .body) (more : Draft true .cases) : Draft true .cases

namespace Draft

/-! ### The source -/

/-- A draft as it is written. -/
def parts : {b : Bool} → {k : Stretch} → Draft b k → List Part
  | _, _, .done => []
  | _, _, .text t rest => .text t.text :: rest.parts
  | _, _, .json e rest => .call "json" [] e.text :: rest.parts
  | _, _, .leave rest => .word "break" :: rest.parts
  | _, _, .choice test e body more rest =>
    .call test.opener [] e.text :: (body.parts ++ (more.parts ++ .word test.closer :: rest.parts))
  | _, _, .switch e lead cases rest =>
    .call "switch" [] e.text :: (lead.parts ++ (cases.parts ++ .word "endswitch" :: rest.parts))
  | _, _, .foreach h body rest =>
    .call "foreach" [] h.text :: (body.parts ++ .word "endforeach" :: rest.parts)
  | _, _, .forelse h body empty rest =>
    .call "forelse" [] h.text ::
      (body.parts ++ .word "empty" :: (empty.parts ++ .word "endforelse" :: rest.parts))
  | _, _, .close => []
  | _, _, .elseif e body more => .call "elseif" [] e.text :: (body.parts ++ more.parts)
  | _, _, .otherwise body => .word "else" :: body.parts
  | _, _, .last => []
  | _, _, .case e body more => .call "case" [] e.text :: (body.parts ++ more.parts)
  | _, _, .default body more => .word "default" :: (body.parts ++ more.parts)

/-- A draft as text. -/
def source {b : Bool} {k : Stretch} (f : Draft b k) : Text := shownAll f.parts

/-! ### Counting -/

/-- The number of switches in a draft. -/
def switches : {b : Bool} → {k : Stretch} → Draft b k → Nat
  | _, _, .done => 0
  | _, _, .text _ rest => rest.switches
  | _, _, .json _ rest => rest.switches
  | _, _, .leave rest => rest.switches
  | _, _, .choice _ _ body more rest => body.switches + more.switches + rest.switches
  | _, _, .switch _ lead cases rest => 1 + lead.switches + cases.switches + rest.switches
  | _, _, .foreach _ body rest => body.switches + rest.switches
  | _, _, .forelse _ body empty rest => body.switches + empty.switches + rest.switches
  | _, _, .close => 0
  | _, _, .elseif _ body more => body.switches + more.switches
  | _, _, .otherwise body => body.switches
  | _, _, .last => 0
  | _, _, .case _ body more => body.switches + more.switches
  | _, _, .default body more => body.switches + more.switches

/-- The number of loops in a draft. -/
def loops : {b : Bool} → {k : Stretch} → Draft b k → Nat
  | _, _, .done => 0
  | _, _, .text _ rest => rest.loops
  | _, _, .json _ rest => rest.loops
  | _, _, .leave rest => rest.loops
  | _, _, .choice _ _ body more rest => body.loops + more.loops + rest.loops
  | _, _, .switch _ lead cases rest => lead.loops + cases.loops + rest.loops
  | _, _, .foreach _ body rest => 1 + body.loops + rest.loops
  | _, _, .forelse _ body empty rest => 1 + body.loops + empty.loops + rest.loops
  | _, _, .close => 0
  | _, _, .elseif _ body more => body.loops + more.loops
  | _, _, .otherwise body => body.loops
  | _, _, .last => 0
  | _, _, .case _ body more => body.loops + more.loops
  | _, _, .default body more => body.loops + more.loops

/-! ### The translation -/

/-- Where in a tree a draft stands: the switches and the loops opened before it in document order,
the number of loops around it, and the number of the innermost switch around it. -/
structure Context where
  switches : Nat := 0
  loops : Nat := 0
  depth : Nat := 0
  subject : Nat := 0

namespace Context

/-- The context behind a draft, outside of it. -/
def past (c : Context) {b : Bool} {k : Stretch} (f : Draft b k) : Context :=
  { c with switches := c.switches + f.switches, loops := c.loops + f.loops }

/-- The context behind the opening of a switch, outside of it. -/
def pastSwitch (c : Context) : Context := { c with switches := c.switches + 1 }

/-- The context inside a switch that opens here. -/
def inSwitch (c : Context) : Context := { c.pastSwitch with subject := c.switches + 1 }

/-- The context behind the opening of a loop, outside of it. -/
def pastLoop (c : Context) : Context := { c with loops := c.loops + 1 }

/-- The context inside a loop that opens here. -/
def inLoop (c : Context) : Context := { c.pastLoop with depth := c.depth + 1 }

end Context

/-- The output tag of an expression: its first argument as JSON, laid out as the second one says. -/
def jsonTag (ds : Delimiters) (e : Text) : Text :=
  ds.start ++ " _hk_json((" ++ (arguments e).headD [] ++ "), " ++
    (arguments e).tail.head?.getD "false" ++ ") " ++ ds.stop

/-- A draft in engine syntax. -/
def translate (ds : Delimiters) : Context → {b : Bool} → {k : Stretch} → Draft b k → Text
  | _, _, _, .done => []
  | c, _, _, .text t rest => t.text ++ rest.translate ds c
  | c, _, _, .json e rest => jsonTag ds e.text ++ rest.translate ds c
  | c, _, _, .leave rest => rest.translate ds c
  | c, _, _, .choice test e body more rest =>
    tag ("if " ++ test.condition (strip e.text)) ++
      (body.translate ds c ++ (more.translate ds (c.past body) ++
        (tag "endif" ++ rest.translate ds ((c.past body).past more))))
  | c, _, _, .switch e lead cases rest =>
    tag ("set " ++ switchSubject (c.switches + 1) ++ " = (" ++ strip e.text ++ ")") ++
      tag "if false" ++
      (lead.translate ds c.inSwitch ++ (cases.translate ds (c.inSwitch.past lead) ++
        (tag "endif" ++ rest.translate ds ((c.pastSwitch.past lead).past cases))))
  | c, _, _, .foreach h body rest =>
    loopOpening (c.loops + 1) c.depth h.header ++
      (body.translate ds c.inLoop ++ (tag "endwith" ++ tag "endfor" ++
        rest.translate ds (c.pastLoop.past body)))
  | c, _, _, .forelse h body empty rest =>
    loopOpening (c.loops + 1) c.depth h.header ++
      (body.translate ds c.inLoop ++ (tag "endwith" ++ tag "else" ++
        (empty.translate ds (c.inLoop.past body) ++
          (tag "endfor" ++ rest.translate ds ((c.pastLoop.past body).past empty)))))
  | _, _, _, .close => []
  | c, _, _, .elseif e body more =>
    tag ("elif " ++ strip e.text) ++ (body.translate ds c ++ more.translate ds (c.past body))
  | c, _, _, .otherwise body => tag "else" ++ body.translate ds c
  | _, _, _, .last => []
  | c, _, _, .case e body more =>
    tag ("elif " ++ switchSubject c.subject ++ " == (" ++ strip e.text ++ ")") ++
      (body.translate ds c ++ more.translate ds (c.past body))
  | c, _, _, .default body more =>
    tag "else" ++ (body.translate ds c ++ more.translate ds (c.past body))

end Draft

end Pagewright.Lowering
