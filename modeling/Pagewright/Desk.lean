import Pagewright.Lowering.Transform
import Pagewright.Session
import Pagewright.Template.Press

/-! # The desk

Work on a page goes on at a desk: the session of the render lies there together with what renders
share, a press and a memo.

Main definitions: `Desk`, `Work` (a computation at a desk that may stop), `Work.orElse`,
`Work.within` (the work between entering and leaving a template), `Work.noted`. -/

namespace Pagewright

/-- What work on a page needs at hand, and the time. -/
structure Desk where
  session : Session := {}
  press : Press := {}
  memo : Memo := {}
  now : Rat := 0

/-- A computation at a desk that may stop; the desk outlives the stop. -/
abbrev Work (α : Type) := ExceptT Halt (StateM Desk) α

namespace Work

variable {α : Type}

/-- Stops with a problem. -/
def problem (p : Problem) : Work α := throw (.problem p)

/-- Goes on with a result that may be a problem. -/
def ofProblem : Except Problem α → Work α
  | .ok a => pure a
  | .error p => throw (.problem p)

/-- Goes on with a result that may be a failure. -/
def ofFailure : Except Failure α → Work α
  | .ok a => pure a
  | .error f => throw (.failure f)

/-- Goes on with a result that may be either. -/
def ofExcept : Except Halt α → Work α
  | .ok a => pure a
  | .error h => throw h

/-- Work with what is done instead when it stops with a problem. -/
def orElse (work : Work α) (handle : Problem → Work α) : Work α :=
  tryCatch work fun
    | .problem p => handle p
    | .failure f => throw (.failure f)

/-- The session at the desk. -/
def session : Work Session := do return (← get).session

/-- Changes the session at the desk. -/
def update (f : Session → Session) : Work Unit :=
  modify fun d => { d with session := f d.session }

/-- The work on a template, between entering and leaving it. -/
def within (r : Reference) (path : Text) (work : Int → Work α) : Work α := do
  let (depth, s) ← ofProblem ((← session).enter? r path)
  update fun _ => s
  try work depth finally update fun s => s.leave r

/-- Sets output aside and answers its token. -/
def stash (output : Text) : Work Text := modifyGet fun d =>
  let (token, s) := d.session.stash output
  (token, { d with session := s })

/-- Puts finished output in the place of its tokens. -/
def splice (t : Text) : Work Text := do ofFailure ((← session).splice t)

/-- Reports a problem at the page where it was met, and answers the token of the comment that takes
the place of what failed. -/
def noted (page : Text) (p : Problem) : Work Text := do
  let p := p.metAt page
  update fun s => s.report p
  stash p.placeholder

/-- A text in engine syntax. -/
def lower (ds : Delimiters) (t : Text) : Work Text := do
  ofFailure (← modifyGet fun d =>
    let (r, m) := Lowering.transformKept ds d.now t d.memo
    (r, { d with memo := m }))

/-- The page that a template gives with some data. -/
def print (t : Text) (data : List (Value × Value)) (path : Text) : Work Text := do
  ofProblem (← modifyGet fun d =>
    let (r, p) := d.press.print t data path
    (r, { d with press := p }))

/-- The value of an expression with some data. -/
def evaluate (t : Text) (data : List (Value × Value)) (path : Text)
    (undefinedToNone : Bool := true) : Work Value := do
  ofProblem (Press.evaluate (← get).press.dialect t data (some path) undefinedToNone)

end Work

end Pagewright
