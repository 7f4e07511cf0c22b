import Pagewright.Failure

/-! # Problems of a composition

What can go wrong while a page is put together.  A problem has a code, a severity and a wording; it
is reported, and an HTML comment takes the place of the part that failed.

Main definitions: `Problem`, `Problem.code`, `Problem.message`, `Problem.placeholder`, `Halt`. -/

namespace Pagewright

open Text

/-- How serious a problem is. -/
inductive Severity where
  | warning
  | error
  deriving DecidableEq, Repr

/-- What can go wrong while a page is put together.  The scope of a reference is `layout` or
`include`. -/
inductive Problem where
  /-- A chain of references comes back to a page on it. -/
  | cycle (chain : List Text) (scope : Text)
  /-- References are nested too deeply. -/
  | tooDeep (path : Text) (depth most : Int) (scope : Text)
  /-- A reference leads out of the directory of templates. -/
  | outside (path root scope : Text)
  /-- A template does not exist; `near` are names like the one asked for. -/
  | absent (path scope : Text) (near : List Text)
  /-- An expression or a template cannot be read or run. -/
  | expression (wording : Text) (path : Option Text) (phase : Text)
  /-- A directive cannot be understood. -/
  | malformed (wording : Text) (path : Option Text) (hints : List Text)
  /-- Anything else. -/
  | other (wording : Text) (path : Option Text) (hints : List Text)
  deriving DecidableEq, Repr

namespace Problem

/-- The code of a problem: layouts have odd codes of their own. -/
def code : Problem → Text
  | .cycle _ scope => if scope = "layout" then "E1001" else "E1002"
  | .tooDeep .. => "E1003"
  | .outside _ _ scope => if scope = "layout" then "E2001" else "E2002"
  | .absent _ scope _ => if scope = "layout" then "E3001" else "E3002"
  | .malformed .. => "E4001"
  | .expression _ _ phase => if phase = "compile" then "E5001" else "E5002"
  | .other .. => "E0000"

/-- The name of the kind of a problem. -/
def kind : Problem → Text
  | .cycle .. => "cycle"
  | .tooDeep .. => "depth_exceeded"
  | .outside .. => "path_rejected"
  | .absent .. => "not_found"
  | .expression .. => "expression"
  | .malformed .. => "malformed_directive"
  | .other .. => "malformed_directive"

/-- How serious a problem is: what is missing or cannot be understood is skipped with a warning. -/
def severity : Problem → Severity
  | .absent .. => .warning
  | .malformed .. => .warning
  | _ => .error

/-- The wording of a problem. -/
def message : Problem → Text
  | .cycle chain scope => "Circular " ++ scope ++ " detected: " ++ join " -> " chain
  | .tooDeep path depth most scope =>
    capitalize scope ++ " nesting depth " ++ ofInt depth ++ " exceeds the maximum of " ++
      ofInt most ++ " at " ++ path
  | .outside path root scope =>
    capitalize scope ++ " path '" ++ path ++ "' resolves outside of " ++ root
  | .absent path scope _ => capitalize scope ++ " not found: " ++ path
  | .expression wording _ _ => wording
  | .malformed wording _ _ => wording
  | .other wording _ _ => wording

/-- The page or template at which a problem was met. -/
def path : Problem → Option Text
  | .cycle chain _ => chain.getLast?
  | .tooDeep path _ _ _ => some path
  | .outside path _ _ => some path
  | .absent path _ _ => some path
  | .expression _ path _ => path
  | .malformed _ path _ => path
  | .other _ path _ => path

/-- A problem met at a page, unless it names one itself. -/
def metAt (page : Text) : Problem → Problem
  | .expression wording path phase => .expression wording (some (named path)) phase
  | .malformed wording path hints => .malformed wording (some (named path)) hints
  | .other wording path hints => .other wording (some (named path)) hints
  | p => p
where
  /-- The page that a problem names, or else the one at which it was met. -/
  named : Option Text → Text
    | none | some [] => page
    | some path => path

/-- What could be done about a problem. -/
def hints : Problem → List Text
  | .cycle _ scope => ["Remove one of the " ++ scope ++ " references to break the cycle"]
  | .tooDeep .. => ["Flatten the nesting or raise max_depth in the configuration"]
  | .outside .. => ["Reference templates relative to the partials directory"]
  | .absent _ _ near => near.map fun n => "Did you mean '" ++ n ++ "'?"
  | .expression .. => []
  | .malformed _ _ hints => hints
  | .other _ _ hints => hints

/-- The line under which a problem is reported. -/
def line (p : Problem) : Text := p.code ++ " " ++ p.message

/-- The comment that takes the place of what failed.  Two hyphens would end it early, so they are
drawn apart. -/
def placeholder (p : Problem) : Text :=
  let hints : Text := if p.hints.isEmpty then [] else " (" ++ join "; " p.hints ++ ")"
  "<!-- [htmlkit] " ++ replaceAll "--" "- -" (p.line ++ hints) ++ " -->"

end Problem

/-- Why work on a page stopped: a problem of the page, which is reported in it, or a failure that
ends the whole operation. -/
inductive Halt where
  | problem (p : Problem)
  | failure (f : Failure)

end Pagewright
