import Pagewright.Value.Arithmetic

/-! # Arguments of calls

Arguments are given in order and by name.  Two families of signatures are told apart by how they
refuse arguments: operations that count them, and functions with named parameters.

Main definitions: `Passed` (what a call passes), `Arity` (operations that count), `Parameters`
(functions with named parameters), `Parameters.fill`. -/

namespace Pagewright.Value

open Text

/-- What a call passes. -/
structure Passed where
  positional : List Value := []
  named : List (Text × Value) := []

/-- How many arguments an operation counts. -/
inductive Arity where
  | nothing
  | one
  | between (least most : Nat)
  /-- From one to three, as searches take them. -/
  | search

/-- A noun with its plural ending unless there is one of it. -/
def plural (n : Nat) (noun : Text) : Text := if n = 1 then noun else noun ++ "s"

/-- Refuses arguments of an operation of a kind of value that do not fit its arity. -/
def Arity.accept (a : Arity) (kind name : Text) (p : Passed) : Except Fault (List Value) := do
  let full : Text := kind ++ "." ++ name ++ "()"
  if !p.named.isEmpty then throw (.misuse (full ++ " takes no keyword arguments"))
  let n := p.positional.length
  match a with
  | .nothing =>
    if n = 0 then return []
    else throw (.misuse (full ++ " takes no arguments (" ++ ofNat n ++ " given)"))
  | .one =>
    if n = 1 then return p.positional
    else throw (.misuse (full ++ " takes exactly one argument (" ++ ofNat n ++ " given)"))
  | .search =>
    let counted := fun (words : Text) (k : Nat) =>
      Fault.misuse (name ++ "() takes " ++ words ++ ofNat k ++ " " ++ plural k "argument" ++ " (" ++
        ofNat n ++ " given)")
    if n = 0 then throw (counted "at least " 1)
    else if 3 < n then throw (counted "at most " 3)
    else return p.positional
  | .between least most =>
    let expected := fun (words : Text) (k : Nat) =>
      Fault.misuse (name ++ " expected " ++ words ++ ofNat k ++ " " ++ plural k "argument" ++
        ", got " ++ ofNat n)
    if least = most ∧ n ≠ least then throw (expected [] least)
    else if n < least then throw (expected "at least " least)
    else if most < n then throw (expected "at most " most)
    else return p.positional

/-- The parameters of a function: their names, with the values of those that may be left out, and
whether further arguments are taken. -/
structure Parameters where
  function : Text
  /-- How many arguments are passed by the system in front of the others. -/
  implicit : Nat := 0
  params : List (Text × Option Value)
  more : Bool := false
  moreNamed : Bool := false

/-- What the parameters of a function stand for in a call. -/
structure Filled where
  values : List Value
  more : List Value := []
  moreNamed : List (Text × Value) := []

/-- Names in a sentence. -/
def enumerated : List Text → Text
  | [] => []
  | [a] => quoted a
  | [a, b] => quoted a ++ " and " ++ quoted b
  | names =>
    join ", " ((names.dropLast).map quoted) ++ ", and " ++ quoted (names.getLast?.getD [])

/-- The refusal of too many arguments. -/
def Parameters.tooMany (s : Parameters) (given : Nat) : Fault :=
  let most := s.params.length + s.implicit
  let least := (s.params.filter fun (_, d) => d.isNone).length + s.implicit
  let takes : Text :=
    if least = most then ofNat most ++ " positional " ++ plural most "argument"
    else "from " ++ ofNat least ++ " to " ++ ofNat most ++ " positional arguments"
  .misuse (s.function ++ "() takes " ++ takes ++ " but " ++ ofNat (given + s.implicit) ++
    (if given + s.implicit = 1 then (" was given" : Text) else " were given"))

/-- The values of the parameters of a function in a call. -/
def Parameters.fill (s : Parameters) (p : Passed) : Except Fault Filled := do
  let names := s.params.map Prod.fst
  let direct := p.positional.take names.length
  let extra := p.positional.drop names.length
  let mut moreNamed : List (Text × Value) := []
  for (n, v) in p.named do
    if names.contains n then
      if (names.take direct.length).contains n then
        throw (.misuse (s.function ++ "() got multiple values for argument " ++ quoted n))
    else if s.moreNamed then moreNamed := moreNamed ++ [(n, v)]
    else throw (.misuse (s.function ++ "() got an unexpected keyword argument " ++ quoted n))
  if !extra.isEmpty && !s.more then throw (s.tooMany p.positional.length)
  let given := fun (n : Text) => (p.named.find? fun (m, _) => m == n).map Prod.snd
  let rest := (s.params.drop direct.length).map fun (n, d) => (n, given n <|> d)
  let absent := rest.filterMap fun (n, v) => if v.isNone then some n else Option.none
  if !absent.isEmpty then
    throw (.misuse (s.function ++ "() missing " ++ ofNat absent.length ++ " required positional " ++
      plural absent.length "argument" ++ ": " ++ enumerated absent))
  return { values := direct ++ rest.map (fun (_, v) => v.getD .none), more := extra, moreNamed }

end Pagewright.Value
