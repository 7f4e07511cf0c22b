import Pagewright.Text.Basic

/-! # Named values

Values under names, in the order in which the names were first given.

Main definitions: `put`, `putAll`. -/

namespace Pagewright.Named

variable {α : Type}

/-- Named values with one more value; a name that is there already keeps its place and loses its
value. -/
def put (name : Text) (a : α) : List (Text × α) → List (Text × α)
  | [] => [(name, a)]
  | (k, b) :: rest => if k = name then (k, a) :: rest else (k, b) :: put name a rest

/-- Named values with further ones, which win over values of the same names. -/
def putAll (base new : List (Text × α)) : List (Text × α) :=
  new.foldl (fun all (name, a) => put name a all) base

end Pagewright.Named
