import Pagewright.Template.Tree

/-! # Names and scopes

Which names the parts of a template read and set, in the order in which they are met.  A body
opens a scope of its own; what it sets stays inside.  A name that a scope sets on every path
before it is read anywhere around belongs to the scope from the beginning, even where it has no
value yet.

Main definitions: `Mention`, `Node.mentionsAll` (every mention in some nodes), `readsFirst`
(the special names that a body reads before it sets them), `Scope` and its `hidden` names,
`Scope.ofBody`. -/

namespace Pagewright.Template

/-- A name that is read, or set. -/
inductive Mention where
  | reads (n : Text)
  | sets (n : Text)

mutual

/-- The names of an expression. -/
def Expr.mentions : Expr → List Mention
  | .const .. => []
  | .name n _ => [.reads n]
  | .field .. => []
  | .tuple xs _ => mentionsOf xs
  | .list xs _ => mentionsOf xs
  | .dict ps _ => mentionsOfPairs ps
  | .cond v t o _ => t.mentions ++ v.mentions ++ mentionsOfOption o
  | .or l r _ => l.mentions ++ r.mentions
  | .and l r _ => l.mentions ++ r.mentions
  | .not e _ => e.mentions
  | .compare e ops _ => e.mentions ++ mentionsOfOperands ops
  | .binary _ l r _ => l.mentions ++ r.mentions
  | .neg e _ => e.mentions
  | .pos e _ => e.mentions
  | .concat xs _ => mentionsOf xs
  | .attr e _ _ => e.mentions
  | .item e k _ => e.mentions ++ k.mentions
  | .slice a b c _ => mentionsOfOption a ++ mentionsOfOption b ++ mentionsOfOption c
  | .call f args _ => f.mentions ++ mentionsOfArguments args
  | .filter e _ args _ => mentionsOfOption e ++ mentionsOfArguments args
  | .test e _ args _ => e.mentions ++ mentionsOfArguments args

/-- The names of some expressions. -/
def mentionsOf : List Expr → List Mention
  | [] => []
  | e :: es => e.mentions ++ mentionsOf es

/-- The names of an expression that may be absent. -/
def mentionsOfOption : Option Expr → List Mention
  | none => []
  | some e => e.mentions

/-- The names of pairs of expressions. -/
def mentionsOfPairs : List (Expr × Expr) → List Mention
  | [] => []
  | (k, v) :: ps => k.mentions ++ v.mentions ++ mentionsOfPairs ps

/-- The names of the operands of comparisons. -/
def mentionsOfOperands : List (CompareOp × Expr) → List Mention
  | [] => []
  | (_, e) :: ops => e.mentions ++ mentionsOfOperands ops

/-- The names of arguments given by name. -/
def mentionsOfNamed : List (Text × Expr) → List Mention
  | [] => []
  | (_, e) :: es => e.mentions ++ mentionsOfNamed es

/-- The names of arguments. -/
def mentionsOfArguments : Arguments Expr → List Mention
  | ⟨positional, named, rest, restNamed⟩ =>
    mentionsOf positional ++ mentionsOfNamed named ++ mentionsOfOption rest ++
      mentionsOfOption restNamed

end

mutual

/-- The names that the target of an assignment sets. -/
def Expr.targets : Expr → List Mention
  | .name n _ => [.sets n]
  | .tuple xs _ => targetsOf xs
  | .list xs _ => targetsOf xs
  | _ => []

/-- The names that targets set. -/
def targetsOf : List Expr → List Mention
  | [] => []
  | e :: es => e.targets ++ targetsOf es

end

/-- The namespace that the target of an assignment refers to. -/
def Expr.fieldOwner : Expr → List Mention
  | .field object _ _ => [.reads object]
  | _ => []

/-- The parameters of a definition. -/
def Signature.mentions (s : Signature) : List Mention :=
  s.params.map (fun (n, _) => .sets n) ++ mentionsOf s.defaults

mutual

/-- Every mention inside a node, other than in blocks. -/
def Node.mentionsAll : Node → List Mention
  | .data _ => []
  | .output e => e.mentions
  | .ifElse branches otherwise => mentionsAllBranches branches ++ mentionsAllOf otherwise
  | .loop target iter body otherwise test _ _ =>
    target.targets ++ iter.mentions ++ mentionsAllOf body ++ mentionsAllOf otherwise ++
      mentionsOfOption test
  | .set target e => target.targets ++ e.mentions
  | .setBlock target filter body =>
    target.targets ++ mentionsOfOption filter ++ mentionsAllOf body
  | .bind targets values body => targetsOf targets ++ mentionsOf values ++ mentionsAllOf body
  | .block .. => []
  | .define _ signature body _ => signature.mentions ++ mentionsAllOf body
  | .callBlock signature call body _ => call.mentions ++ signature.mentions ++ mentionsAllOf body
  | .filterBlock filter body => mentionsAllOf body ++ filter.mentions
  | .autoescape e body => e.mentions ++ mentionsAllOf body
  | .reference _ e _ => e.mentions

/-- Every mention inside some nodes, other than in blocks. -/
def mentionsAllOf : List Node → List Mention
  | [] => []
  | n :: ns => n.mentionsAll ++ mentionsAllOf ns

/-- Every mention inside branches, other than in blocks. -/
def mentionsAllBranches : List (Expr × List Node) → List Mention
  | [] => []
  | (e, ns) :: bs => e.mentions ++ mentionsAllOf ns ++ mentionsAllBranches bs

end

/-- The names among `wanted` that are read before they are set. -/
def readsFirst : List Text → List Mention → List Text
  | _, [] => []
  | wanted, .reads n :: ms =>
    if wanted.contains n then n :: readsFirst wanted ms else readsFirst wanted ms
  | wanted, .sets n :: ms => readsFirst (wanted.filter (· != n)) ms

/-! ### Scopes -/

/-- What is known of a scope while its nodes are gone through: the names around it, those that it
mentions, those that it sets, and those that it sets before they are mentioned. -/
structure Scope where
  around : List Text := []
  mentioned : List Text := []
  setNames : List Text := []
  hidden : List Text := []

namespace Scope

/-- A scope after a mention. -/
def note (s : Scope) : Mention → Scope
  | .reads n => if s.mentioned.contains n then s else { s with mentioned := n :: s.mentioned }
  | .sets n =>
    let s := if s.setNames.contains n then s else { s with setNames := n :: s.setNames }
    if s.mentioned.contains n then s
    else
      { s with
        mentioned := n :: s.mentioned
        hidden := if s.around.contains n then s.hidden else n :: s.hidden }

/-- A scope after some mentions. -/
def noteAll (s : Scope) (ms : List Mention) : Scope := ms.foldl note s

/-- A scope with a parameter, which has its value from the beginning. -/
def parameter (s : Scope) (n : Text) : Scope :=
  { s with mentioned := n :: s.mentioned, setNames := n :: s.setNames }

/-- A scope with the names of targets as parameters. -/
def parameters (s : Scope) (ms : List Mention) : Scope :=
  ms.foldl (fun s m => match m with
    | .sets n => s.parameter n
    | .reads n => s.note (.reads n)) s

/-- A scope behind three branches that each start in `s`: a name that only some of them set is not
hidden. -/
def merge (s first second third : Scope) : Scope :=
  let partly := fun n => !s.setNames.contains n &&
    !(first.setNames.contains n && second.setNames.contains n && third.setNames.contains n)
  { around := s.around
    mentioned := (first.mentioned ++ second.mentioned ++ third.mentioned).eraseDups
    setNames := (first.setNames ++ second.setNames ++ third.setNames).eraseDups
    hidden := third.hidden.filter fun n => !partly n }

end Scope

mutual

/-- A scope after a node. -/
def Node.noteIn (s : Scope) : Node → Scope
  | .data _ => s
  | .output e => s.noteAll e.mentions
  | .ifElse [] otherwise => noteNodes s otherwise
  | .ifElse ((test, body) :: more) otherwise =>
    let s := s.noteAll test.mentions
    s.merge (noteNodes s body) (noteBranches s more) (noteNodes s otherwise)
  | .loop _ iter _ _ _ _ _ => s.noteAll iter.mentions
  | .set target e => s.noteAll (e.mentions ++ target.fieldOwner ++ target.targets)
  | .setBlock target _ _ => s.noteAll (target.fieldOwner ++ target.targets)
  | .bind _ values _ => s.noteAll (mentionsOf values)
  | .block .. => s
  | .define name _ _ _ => s.note (.sets name)
  | .callBlock _ call _ _ => s.noteAll call.mentions
  | .filterBlock filter _ => s.noteAll filter.mentions
  | .autoescape .. => s
  | .reference kind e _ =>
    let s := s.noteAll e.mentions
    match kind with
    | .importAs target => s.note (.sets target)
    | .importFrom targets => s.noteAll (targets.map .sets)
    | _ => s

/-- A scope after some nodes. -/
def noteNodes (s : Scope) : List Node → Scope
  | [] => s
  | n :: ns => noteNodes (n.noteIn s) ns

/-- A scope after the branches that stand between the first and the last; each of them may be
passed over. -/
def noteBranches (s : Scope) : List (Expr × List Node) → Scope
  | [] => s
  | (test, body) :: more =>
    let s := s.noteAll test.mentions
    noteBranches (s.merge (noteNodes s body) s s) more

end

/-- The scope of a body inside the names of `around`, after some parameters. -/
def Scope.ofBody (around : List Text) (params : List Mention) (body : List Node) : Scope :=
  noteNodes (({ around } : Scope).parameters params) body

/-- The names that a scope and those around it mention. -/
def Scope.visible (s : Scope) : List Text := (s.mentioned ++ s.around).eraseDups

end Pagewright.Template
