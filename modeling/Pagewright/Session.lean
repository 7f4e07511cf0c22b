import Pagewright.Library
import Pagewright.Text.Scan

/-! # Sessions

A session is the state of one render: the layouts and partials that are being worked on, the once
blocks that were emitted, what was noticed, and finished output that waits to be put in its place.
Finished output is set aside and a token stands for it, so that it is never read as a template.

Main definitions: `Session`, `Session.enter?`, `Session.leave`, `Session.report`, `Session.stash`,
`Session.splice`. -/

namespace Pagewright

open Text

/-- What was noticed during a render. -/
inductive Notice where
  | problem (p : Problem)
  /-- A remark about something that was passed over. -/
  | remark (t : Text)

/-- The two kinds of reference, each with a stack of its own. -/
inductive Reference where
  | layout
  | inclusion
  deriving DecidableEq, Repr

/-- The word for a kind of reference. -/
def Reference.scope : Reference → Text
  | .layout => "layout"
  | .inclusion => "include"

/-- The state of one render.  The entry page is the first on the include stack, and layouts count
from one. -/
structure Session where
  maxDepth : Int := 50
  layoutStack : List Text := []
  includeStack : List Text := []
  onceSeen : List Text := []
  notices : List Notice := []
  entryOutputs : List Text := []
  outputs : List Text := []
  nonce : Text := "0123456789abcdef"

namespace Session

/-- The problems of a render, in order. -/
def problems (s : Session) : List Problem :=
  s.notices.filterMap fun
    | .problem p => some p
    | .remark _ => none

/-- The templates of a kind that are being worked on, the outermost first. -/
def stack (s : Session) : Reference → List Text
  | .layout => s.layoutStack
  | .inclusion => s.includeStack

/-- A session with another stack of a kind. -/
def withStack (s : Session) (paths : List Text) : Reference → Session
  | .layout => { s with layoutStack := paths }
  | .inclusion => { s with includeStack := paths }

/-- The depth at which a template is entered. -/
def entryDepth (s : Session) : Reference → Int
  | .layout => s.layoutStack.length + 1
  | .inclusion => s.includeStack.length

/-- A session in which a template is being worked on, with its depth.  A template on the stack is
not entered again, nor one below the greatest depth. -/
def enter? (s : Session) (r : Reference) (path : Text) : Except Problem (Int × Session) :=
  let paths := s.stack r
  let depth := s.entryDepth r
  if paths.contains path then .error (.cycle (paths ++ [path]) r.scope)
  else if s.maxDepth < depth then .error (.tooDeep path depth s.maxDepth r.scope)
  else .ok (depth, s.withStack (paths ++ [path]) r)

/-- A session after the work on the innermost template of a kind. -/
def leave (s : Session) (r : Reference) : Session := s.withStack (s.stack r).dropLast r

/-- A session in which a problem was reported. -/
def report (s : Session) (p : Problem) : Session := { s with notices := s.notices ++ [.problem p] }

/-- A session in which something was remarked. -/
def remark (s : Session) (t : Text) : Session := { s with notices := s.notices ++ [.remark t] }

/-! ### Finished output -/

/-- The beginning of the tokens of a session. -/
def tokenLead (s : Session) : Text := "\x00hk:out:" ++ s.nonce ++ ":"

/-- The token of the output with a number. -/
def token (s : Session) (n : Nat) : Text := s.tokenLead ++ ofNat n ++ ['\x00']

/-- Sets output aside and answers the token that stands for it; nothing stands for no output. -/
def stash (s : Session) (output : Text) : Text × Session :=
  if output.isEmpty then ([], s)
  else (s.token s.outputs.length, { s with outputs := s.outputs ++ [output] })

/-- A token and its number. -/
def token? (s : Session) : Recogniser Nat := fun t => do
  let rest ← dropLead? s.tokenLead t
  let digits := rest.takeWhile isDecimal
  let n ← natOfDigits? digits
  let rest ← dropLead? ['\x00'] (rest.drop digits.length)
  return (n, t.length - rest.length)

/-- The text of scanned pieces with every token replaced by the output it stands for. -/
def splicePieces (outputs : List Text) : List (Piece Nat) → Except Failure Text
  | [] => .ok []
  | .char c :: ps => (splicePieces outputs ps).map (c :: ·)
  | .hit n _ _ :: ps =>
    match outputs[n]? with
    | some output => (splicePieces outputs ps).map (output ++ ·)
    | none => .error .noSuchPlace

/-- A text with every token replaced by the output it stands for.  Output is not looked through
again. -/
def splice (s : Session) (t : Text) : Except Failure Text :=
  if s.outputs.isEmpty then .ok t else splicePieces s.outputs (pieces s.token? t)

end Session

end Pagewright
