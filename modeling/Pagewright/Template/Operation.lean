import Pagewright.Template.Member
import Pagewright.Value.Compare

/-! # Operations of containers

The operations that can be called on lists, mappings, sets, loops and other values of a running
template.  An operation on a container in the store changes what stands at its address; on a
container outside the store its effect is lost with the container.

Main definitions: `listOperation`, `dictOperation`, `setOperation` (what they leave and answer),
`callMethod`. -/

namespace Pagewright.Template

open Text
open Value (Passed Arity Parameters)

/-- The first of some arguments. -/
def firstOf (args : List Value) : Value := args.head?.getD .none

/-- Accepts the arguments of a counted operation. -/
def accept (a : Arity) (kind name : Text) (p : Passed) : Run (List Value) :=
  pureRun (a.accept kind name p)

/-- The place of a value among others. -/
def placeOf? (x : Value) (xs : List Value) : Run (Option Nat) := do
  let x ← whole x
  let ys ← xs.mapM whole
  return ys.findIdx? (Value.eqv x)

/-- The place of a value between two bounds, as the arguments of a call give them. -/
def placeBetween? (xs : List Value) (args : List Value) : Run (Option Nat) := do
  if (args.drop 1).any fun v => v.int?.isNone then
    throw (.misuse "slice indices must be integers or have an __index__ method")
  let (start, stop) ← pureRun (Value.boundsIn xs.length (args.drop 1))
  return (← placeOf? (firstOf args) ((xs.take stop).drop start)).map (start + ·)

/-- The items left by an operation of a list, and its answer. -/
def listOperation (xs : List Value) (name : Text) (p : Passed) : Run (List Value × Value) := do
  match String.ofList name with
  | "append" =>
    let args ← accept .one "list" name p
    return (xs ++ [← keep (firstOf args)], .none)
  | "extend" =>
    let args ← accept .one "list" name p
    let more ← itemsOf (firstOf args)
    return (xs ++ (← more.mapM keep), .none)
  | "insert" =>
    let args ← accept (.between 2 2) "list" name p
    let i ← pureRun (Value.sizeArgument (firstOf args))
    let i := Value.placeIn xs.length i
    return (xs.take i ++ [← keep (firstOf (args.drop 1))] ++ xs.drop i, .none)
  | "pop" =>
    let args ← accept (.between 0 1) "list" name p
    let i ← pureRun (Value.sizeArgument (args.head?.getD (.int (-1))))
    if xs.isEmpty then throw (.misuse "pop from empty list")
    let i := if i < 0 then i + xs.length else i
    match if i < 0 then none else xs[i.toNat]? with
    | some x => return (xs.eraseIdx i.toNat, x)
    | none => throw (.misuse "pop index out of range")
  | "remove" =>
    let args ← accept .one "list" name p
    match ← placeOf? (firstOf args) xs with
    | some i => return (xs.eraseIdx i, .none)
    | none => throw (.misuse "list.remove(x): x not in list")
  | "clear" =>
    let _ ← accept .nothing "list" name p
    return ([], .none)
  | "copy" =>
    let _ ← accept .nothing "list" name p
    return (xs, .list xs)
  | "reverse" =>
    let _ ← accept .nothing "list" name p
    return (xs.reverse, .none)
  | "count" =>
    let args ← accept .one "list" name p
    let x ← whole (firstOf args)
    let ys ← xs.mapM whole
    return (xs, .int (ys.countP (Value.eqv x)))
  | "index" =>
    let args ← accept (.between 1 3) "list" name p
    match ← placeBetween? xs args with
    | some i => return (xs, .int i)
    | none => throw (.misuse ((← whole (firstOf args)).shown ++ " is not in list"))
  | "sort" =>
    if !p.positional.isEmpty then
      throw (.misuse "sort() takes no positional arguments")
    let descending ← match named? "reverse" p.named with
      | some v => truthOf v
      | none => pure false
    let keyed ← xs.mapM fun x => do return (x, ← whole x)
    let sorted ← pureRun (Value.sortDirected descending Prod.snd keyed)
    return (sorted.map Prod.fst, .none)
  | _ => throw (.notCallable name)

/-- The entries that a call of `update` adds. -/
def updates (p : Passed) : Run (List (Value × Value)) := do
  let args ← accept (.between 0 1) "dict" "update" { p with named := [] }
  let named := p.named.map fun (n, v) => (Value.str n, v)
  match args with
  | [] => return named
  | v :: _ => match ← seen v with
    | .dict es => return es ++ named
    | _ =>
      let pairs ← (← itemsOf v).zipIdx.mapM fun (x, i) => do
        match ← itemsOf x with
        | [k, w] => return (k, w)
        | xs =>
          throw (.misuse ("dictionary update sequence element #" ++ ofNat i ++ " has length " ++
            ofNat xs.length ++ "; 2 is required"))
      return pairs ++ named

/-- A value that can be a key. -/
def keyOf (v : Value) : Run Value := do
  let k ← whole v
  match Value.unhashable? k with
  | some kind => throw (.unhashable kind)
  | none => return k

/-- Adds entries to a mapping. -/
def addEntries (es : List (Value × Value)) : List (Value × Value) → Run (List (Value × Value))
  | [] => return es
  | (k, v) :: more => do addEntries (Value.insert (← keyOf k) (← keep v) es) more

/-- The entries left by an operation of a mapping, and its answer. -/
def dictOperation (es : List (Value × Value)) (name : Text) (p : Passed) :
    Run (List (Value × Value) × Value) := do
  match String.ofList name with
  | "get" =>
    let args ← accept (.between 1 2) "dict" name p
    return (es, (Value.lookup? (← keyOf (firstOf args)) es).getD (firstOf (args.drop 1)))
  | "setdefault" =>
    let args ← accept (.between 1 2) "dict" name p
    let k ← keyOf (firstOf args)
    match Value.lookup? k es with
    | some v => return (es, v)
    | none =>
      let v ← keep (firstOf (args.drop 1))
      return (Value.insert k v es, v)
  | "pop" =>
    let args ← accept (.between 1 2) "dict" name p
    let k ← keyOf (firstOf args)
    match Value.lookup? k es, args.drop 1 with
    | some v, _ => return (Value.erase k es, v)
    | none, d :: _ => return (es, d)
    | none, [] => throw (.misuse k.shown)
  | "popitem" =>
    let _ ← accept .nothing "dict" name p
    match es.getLast? with
    | some (k, v) => return (es.dropLast, .tuple [k, v])
    | none => throw (.misuse "'popitem(): dictionary is empty'")
  | "update" => return (← addEntries es (← updates p), .none)
  | "clear" =>
    let _ ← accept .nothing "dict" name p
    return ([], .none)
  | "copy" =>
    let _ ← accept .nothing "dict" name p
    return (es, .dict es)
  | _ => throw (.notCallable name)

/-- The items left by an operation of a set, and its answer. -/
def setOperation (xs : List Value) (name : Text) (p : Passed) : Run (List Value × Value) := do
  let others := do
    let args ← accept (.between 0 9) "set" name p
    return Value.distinct (← (← args.mapM itemsOf).flatten.mapM keyOf)
  let isIn := fun (ys : List Value) (x : Value) => ys.any (Value.eqv x)
  match String.ofList name with
  | "add" =>
    let x ← keyOf (firstOf (← accept .one "set" name p))
    return (Value.distinct (xs ++ [x]), .none)
  | "discard" =>
    let x ← keyOf (firstOf (← accept .one "set" name p))
    return (xs.filter fun y => !Value.eqv x y, .none)
  | "remove" =>
    let x ← keyOf (firstOf (← accept .one "set" name p))
    if isIn xs x then return (xs.filter fun y => !Value.eqv x y, .none)
    else throw (.misuse x.shown)
  | "clear" =>
    let _ ← accept .nothing "set" name p
    return ([], .none)
  | "copy" =>
    let _ ← accept .nothing "set" name p
    return (xs, .set xs)
  | "update" => return (Value.distinct (xs ++ (← others)), .none)
  | "union" => return (xs, .set (Value.distinct (xs ++ (← others))))
  | "intersection" =>
    let ys ← others
    return (xs, .set (xs.filter (isIn ys)))
  | "difference" =>
    let ys ← others
    return (xs, .set (xs.filter fun x => !isIn ys x))
  | "issubset" =>
    let ys ← others
    return (xs, .bool (xs.all (isIn ys)))
  | "issuperset" =>
    let ys ← others
    return (xs, .bool (ys.all (isIn xs)))
  | "isdisjoint" =>
    let ys ← others
    return (xs, .bool (!xs.any (isIn ys)))
  | "pop" =>
    match xs with
    | x :: rest => return (rest, x)
    | [] => throw (.misuse "'pop from an empty set'")
  | _ => throw (.notCallable name)

/-- An operation of the state of a loop. -/
def loopOperation (a : Nat) (l : LoopState) (name : Text) (p : Passed) : Run Value := do
  match String.ofList name with
  | "cycle" =>
    match p.positional[l.index % p.positional.length]? with
    | some v => return v
    | none => throw (.misuse "no items for cycling given")
  | _ =>
    let now := Value.tuple (← p.positional.mapM whole)
    if (l.last.map fun v => Value.eqv v now) == some true then return .bool false
    setCell a (.loop { l with last := some now })
    return .bool true

/-- An operation of a number. -/
def numberOperation (v : Value) (name : Text) : Run Value := do
  match v, String.ofList name with
  | .float x, "is_integer" => return .bool (Number.isIntegral x)
  | v, "conjugate" => return v
  | v, "bit_length" =>
    let n := (v.int?.getD 0).natAbs
    return .int (if n = 0 then 0 else n.log2 + 1)
  | v, "bit_count" =>
    return .int ((Nat.toDigits 2 (v.int?.getD 0).natAbs).count '1')
  | _, _ => throw (.notCallable name)

/-- The arguments of a call with the items of iterators and containers taken out of the store. -/
def wholeArguments (p : Passed) : Run Passed := do
  let settle := fun v => do
    match ← drain v with
    | some (items, none) => return .list (← items.mapM whole)
    | some (_, some fault) => throw fault
    | none => whole v
  return {
    positional := ← p.positional.mapM settle
    named := ← p.named.mapM fun (n, v) => do return (n, ← settle v) }

/-- Calls an operation of a value. -/
def callMethod (v : Value) (name : Text) (p : Passed) : Run Value := do
  match ← cell? v with
  | some (a, .list xs) =>
    let (left, answer) ← listOperation xs name p
    setCell a (.list left)
    return answer
  | some (a, .dict es) =>
    match String.ofList name with
    | "items" => let _ ← accept .nothing "dict" name p; return .view .items v
    | "keys" => let _ ← accept .nothing "dict" name p; return .view .keys v
    | "values" => let _ ← accept .nothing "dict" name p; return .view .values v
    | _ =>
      let (left, answer) ← dictOperation es name p
      setCell a (.dict left)
      return answer
  | some (a, .set xs) =>
    let (left, answer) ← setOperation xs name p
    setCell a (.set left)
    return answer
  | some (a, .loop l) => loopOperation a l name p
  | some (a, .cycler items next) =>
    let current := items[next]?.getD .none
    setCell a (.cycler items
      (if name == "reset".toList then 0 else (next + 1) % items.length))
    return if name == "reset".toList then .none else current
  | some _ => throw (.notCallable "builtin_function_or_method")
  | none =>
    match v with
    | .str t => pureRun (Value.textMethod false t name (← wholeArguments p))
    | .markup t => pureRun (Value.textMethod true t name (← wholeArguments p))
    | .list xs => return (← listOperation xs name p).2
    | .tuple xs =>
      if name == "index".toList then
        match ← placeBetween? xs (← accept (.between 1 3) "tuple" name p) with
        | some i => return .int i
        | none => throw (.misuse "tuple.index(x): x not in tuple")
      else
        let _ ← accept .one "tuple" name p
        return (← listOperation xs name p).2
    | .range a b s =>
      let xs := Value.rangeItems a b s
      match ← placeOf? (firstOf (← accept .one "range" name p)) xs with
      | some i => return .int (if name == "index".toList then i else 1)
      | none =>
        if name == "index".toList then
          throw (.misuse ((← whole (firstOf p.positional)).shown ++ " is not in range"))
        else return .int 0
    | .dict es =>
      match String.ofList name with
      | "items" => let _ ← accept .nothing "dict" name p; return .view .items v
      | "keys" => let _ ← accept .nothing "dict" name p; return .view .keys v
      | "values" => let _ ← accept .nothing "dict" name p; return .view .values v
      | _ => return (← dictOperation es name p).2
    | .set xs => return (← setOperation xs name p).2
    | .position .. =>
      let filled ← pureRun (Parameters.fill
        { function := "LoopMetadata.at", implicit := 1
          params := [("index", none), ("count", none), ("depth", some (.int 1)),
            ("parent", some .none)] } p)
      match filled.values with
      | [.int i, .int n, d, q] => return .position i n d q
      | _ => throw (.misuse "unsupported operand type(s)")
    | v => numberOperation v name

end Pagewright.Template
