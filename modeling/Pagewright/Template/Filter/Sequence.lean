import Pagewright.Template.Filter.Basic

/-! # Filters on sequences and mappings

Main definitions: `itemFilter?` (filters that choose or count items), `shapeFilter?` (filters that
order or group them), `eachFilter?` (filters that apply a filter or test to every item). -/

namespace Pagewright.Template

open Text
open Value (Passed)

/-- A missing name with a note of its own. -/
def nothingBecause (note : Text) : Value := .undefined .none none (some note)

/-- The items of a value that can be run through backwards. -/
def backwards (v : Value) : Run (List Value) := do
  match ← seen v with
  | .list xs | .tuple xs => return xs.reverse
  | .str t | .markup t => return (t.map fun c => .str [c]).reverse
  | .dict es => return (es.map Prod.fst).reverse
  | .range a b s => return (Value.rangeItems a b s).reverse
  | .undefined .. => return []
  | _ => throw (.misuse ("'" ++ (← kindOf v) ++ "' object is not reversible"))

/-- The first item of a value, which is all that is taken of an iterator. -/
def firstItem (v : Value) : Run (Option Value) := do
  match ← cell? v with
  | some (a, .iterator (x :: xs) fault) =>
    setCell a (.iterator xs fault)
    return some x
  | _ => return (← itemsOf v).head?

/-- The largest of some items under their keys: the first one that no later one exceeds. -/
def extreme (op : Text) (wanted : Ordering) (best : Value × Value) :
    List (Value × Value) → Except Fault Value
  | [] => .ok best.2
  | x :: xs => do
    if (← Value.compare op x.1 best.1) == some wanted then extreme op wanted x xs
    else extreme op wanted best xs

/-- Filters that choose or count items. -/
def itemFilter? (s : Services) (name : Text) (v : Value) (p : Passed) : Option (Run Value) :=
  match String.ofList name with
  | "count" | "length" => some do
    if !p.positional.isEmpty || !p.named.isEmpty then
      throw (.misuse ("len() takes exactly one argument (" ++
        ofNat (p.positional.length + 1) ++ " given)"))
    return .int (← lengthOf v)
  | "d" | "default" => some do
    let args ← bind "do_default" 0 [optional "default_value" (.str []),
      optional "boolean" (.bool false)] v p
    if v.isUndefined || ((← truthOf (nthOf args 2)) && !(← truthOf v)) then
      return nthOf args 1
    else return v
  | "first" => some do
    let _ ← bind "sync_do_first" 1 [] v p "seq"
    return (← firstItem v).getD (nothingBecause "No first item, sequence was empty.")
  | "last" => some do
    let _ ← bind "do_last" 1 [] v p "seq"
    return (← backwards v).head?.getD (nothingBecause "No last item, sequence was empty.")
  | "random" => some do
    let _ ← bind "do_random" 1 [] v p "seq"
    return (← itemsOf v).head?.getD (nothingBecause "No random item, sequence was empty.")
  | "max" | "min" => some do
    let isMax := name == "max".toList
    let args ← bind (if isMax then "do_max" else "do_min") 1
      [optional "case_sensitive" (.bool false), optional "attribute" .none] v p
    let caseMatters ← truthOf (nthOf args 1)
    let keyed ← (← itemsOf v).mapM fun x => do
      return (← keyAlong s caseMatters (pathSteps (nthOf args 2)) x, x)
    match keyed with
    | [] => return nothingBecause "No aggregated item, sequence was empty."
    | x :: xs => pureRun (extreme (if isMax then ">" else "<") (if isMax then .gt else .lt) x xs)
  | "sum" => some do
    let args ← bind "sync_do_sum" 1 [optional "attribute" .none, optional "start" (.int 0)] v p
      "iterable"
    let items ← itemsOf v
    if (nthOf args 2).text?.isSome then
      throw (.misuse "sum() can't sum strings [use ''.join(seq) instead]")
    items.foldlM (fun total x => do
      let part ← partOf s none (pathSteps (nthOf args 1)) x
      pureRun (Value.add (← seen total) (← seen part))) (nthOf args 2)
  | "join" => some do
    let args ← bind "sync_do_join" 1 [optional "d" (.str []), optional "attribute" .none] v p
    let items ← (← itemsOf v).mapM (partOf s none (pathSteps (nthOf args 2)))
    let sep := nthOf args 1
    let isMarkup := fun x : Value => match x with
      | .markup _ => true
      | _ => false
    if s.autoescape && (isMarkup sep || items.any isMarkup) then
      let shown ← items.mapM fun x => do
        let (markup, t) ← soft x
        return if markup then t else Html.escapeNumeric t
      let (markup, t) ← soft sep
      return .markup (join (if markup then t else Html.escapeNumeric t) shown)
    else return .str (join (← printed sep) (← items.mapM printed))
  | "list" => some do
    let _ ← bind "do_list" 0 [] v p
    return .list (← itemsOf v)
  | "items" => some do
    let _ ← bind "do_items" 0 [] v p
    match ← seen v with
    | .undefined .. => iterator []
    | .dict es => iterator (es.map fun (k, x) => .tuple [k, x])
    | _ => iterator [] (some (.misuse "Can only get item pairs from a mapping."))
  | "attr" => some do
    let args ← bind "do_attr" 1 [needed "name"] v p "obj"
    let name ← printed (nthOf args 1)
    match ← field? s.blocks v name with
    | some found => reach s.guarded v name found
    | none => missingPart v (nthOf args 1)
  | "pprint" => some do
    let _ ← bind "do_pprint" 0 [] v p
    return .str (← whole v).shown
  | _ => none

/-! ### Order and groups -/

/-- Runs of neighbours with equal keys. -/
def neighbours : List (Value × Value) → List (Value × List Value)
  | [] => []
  | (k, x) :: rest =>
    match neighbours rest with
    | (k', xs) :: more => if Value.eqv k k' then (k, x :: xs) :: more else (k, [x]) :: (k', xs) :: more
    | [] => [(k, [x])]

/-- Stretches of `n` items; the last one is filled up if there is something to fill it with. -/
def batches (n : Nat) (fill : Value) (xs : List Value) : List Value :=
  (List.range ((xs.length + n - 1) / n)).map fun i =>
    let part := (xs.drop (i * n)).take n
    .list (match fill with
      | .none => part
      | v => part ++ List.replicate (n - part.length) v)

/-- The items in `n` columns, the first ones longer by one where they do not divide evenly. -/
def columns (n : Nat) (fill : Value) (xs : List Value) : List Value :=
  let size := xs.length / n
  let longer := xs.length % n
  (List.range n).map fun i =>
    let start := i * size + min i longer
    let part := (xs.drop start).take (if i < longer then size + 1 else size)
    .list (match fill with
      | .none => part
      | v => if longer ≤ i then part ++ [v] else part)

/-- The items that differ from all before them in their keys. -/
def firstOfEach (seenKeys : List Value) : List (Value × Value) → List Value
  | [] => []
  | (k, x) :: rest =>
    if seenKeys.any (Value.eqv k) then firstOfEach seenKeys rest
    else x :: firstOfEach (k :: seenKeys) rest

/-- The paths that a sorting key consists of. -/
def sortPaths : Value → List (List Value)
  | .str t | .markup t => (splitOn "," t).map fun part => pathSteps (.str part)
  | .none => [[]]
  | v => [pathSteps v]

/-- Filters that order or group items. -/
def shapeFilter? (s : Services) (name : Text) (v : Value) (p : Passed) : Option (Run Value) :=
  match String.ofList name with
  | "sort" => some do
    let args ← bind "do_sort" 1 [optional "reverse" (.bool false),
      optional "case_sensitive" (.bool false), optional "attribute" .none] v p
    let caseMatters ← truthOf (nthOf args 2)
    let paths := sortPaths (nthOf args 3)
    let keyed ← (← itemsOf v).mapM fun x => do
      let keys ← paths.mapM fun path => keyAlong s caseMatters path x
      return (Value.list keys, x)
    let sorted ← pureRun (Value.sortDirected (← truthOf (nthOf args 1)) Prod.fst keyed)
    return .list (sorted.map Prod.snd)
  | "dictsort" => some do
    let args ← bind "do_dictsort" 0 [optional "case_sensitive" (.bool false),
      optional "by" (.str "key"), optional "reverse" (.bool false)] v p
    let place ← match String.ofList (← printed (nthOf args 2)) with
      | "key" => pure true
      | "value" => pure false
      | _ => throw (.misuse "You can only sort by either \"key\" or \"value\"")
    let caseMatters ← truthOf (nthOf args 1)
    match ← seen v with
    | .dict es =>
      let keyed ← es.mapM fun (k, x) => do
        return (caseKey caseMatters (← whole (if place then k else x)), Value.tuple [k, x])
      let sorted ← pureRun (Value.sortDirected (← truthOf (nthOf args 3)) Prod.fst keyed)
      return .list (sorted.map Prod.snd)
    | w =>
      present w
      throw (.misuse ("'" ++ (← kindOf v) ++ "' object has no attribute 'items'"))
  | "reverse" => some do
    let _ ← bind "do_reverse" 0 [] v p
    match ← seen v with
    | .str t => return .str t.reverse
    | .markup t => return .markup t.reverse
    | .undefined .. | .list _ | .tuple _ | .dict _ | .range .. => iterator (← backwards v)
    | _ => match ← attempt (itemsOf v) with
      | .ok xs => return .list xs.reverse
      | .error _ => throw (.misuse "argument must be iterable")
  | "unique" => some do
    let args ← bind "do_unique" 1 [optional "case_sensitive" (.bool false),
      optional "attribute" .none] v p
    let caseMatters ← truthOf (nthOf args 1)
    let keyed ← (← itemsOf v).mapM fun x => do
      return (← keyOf (← keyAlong s caseMatters (pathSteps (nthOf args 2)) x), x)
    iterator (firstOfEach [] keyed)
  | "groupby" => some do
    let args ← bind "sync_do_groupby" 1 [needed "attribute", optional "default" .none,
      optional "case_sensitive" (.bool false)] v p
    let caseMatters ← truthOf (nthOf args 3)
    let default := match nthOf args 2 with
      | .none => none
      | d => some d
    let keyed ← (← itemsOf v).mapM fun x => do
      return (← whole (← partOf s default (pathSteps (nthOf args 1)) x), x)
    let sorted ← pureRun (Value.sortBy (fun (k, _) => caseKey caseMatters k) keyed)
    let groups := neighbours (sorted.map fun (k, x) => (caseKey caseMatters k, .tuple [k, x]))
    let cells ← groups.mapM fun (k, xs) => do
      let items := xs.map fun
        | .tuple [_, x] => x
        | x => x
      let shown := match xs with
        | .tuple [k, _] :: _ => k
        | _ => k
      allocate (.group shown (.list items))
    return .list cells
  | "batch" => some do
    let args ← bind "do_batch" 0 [needed "linecount", optional "fill_with" .none] v p
    let n ← pureRun (Value.intArgument (nthOf args 1))
    iterator (batches n.toNat (nthOf args 2) (← itemsOf v))
  | "slice" => some do
    let args ← bind "sync_do_slice" 0 [needed "slices", optional "fill_with" .none] v p
    present (nthOf args 1)
    let n ← pureRun (Value.intArgument (nthOf args 1))
    if n = 0 then throw (.zeroDivision "integer division or modulo by zero")
    iterator (columns n.toNat (nthOf args 2) (← itemsOf v))
  | _ => none

/-! ### Every item -/

/-- What a choice asks of an item: a test by name, or whether it counts as true. -/
def choice (s : Services) (args : List Value) (named : List (Text × Value)) :
    Run (Value → Run Bool) := do
  match args with
  | [] => return truthOf
  | test :: rest =>
    let name ← printed test
    return fun x => s.test name x { positional := rest, named }

/-- What a mapping does with an item. -/
def mapping (s : Services) (p : Passed) : Run (Value → Run Value) := do
  match p.positional, named? "attribute" p.named with
  | [], some path =>
    let default := match named? "default" p.named with
      | some .none | none => none
      | d => d
    match p.named.find? fun (n, _) => n != "attribute".toList && n != "default".toList with
    | some (n, _) => throw (.misuse ("Unexpected keyword argument " ++ quoted n))
    | none => return partOf s default (pathSteps path)
  | [], none => throw (.misuse "map requires a filter argument")
  | name :: rest, _ =>
    let name ← printed name
    return fun x => s.filter name x { positional := rest, named := p.named }

/-- The items of a value for which a choice has a given answer. -/
def chosen (wanted : Bool) (v : Value) (ask : Value → Run Bool) : Run Value :=
  lazily v fun x => do return if (← ask x) == wanted then some x else none

/-- Filters that apply a filter or test to every item. -/
def eachFilter? (s : Services) (name : Text) (v : Value) (p : Passed) : Option (Run Value) :=
  let unlessEmpty := fun (run : Run Value) => do
    if ← truthOf v then
      match ← attempt run with
      | .ok r => return r
      | .error e => iterator [] (some e)
    else iterator []
  let byAttribute := fun (wanted : Bool) => unlessEmpty do
    match p.positional with
    | [] => throw (.misuse "Missing parameter for attribute name")
    | path :: rest =>
      let ask ← choice s rest p.named
      chosen wanted v fun x => do ask (← partOf s none (pathSteps path) x)
  match String.ofList name with
  | "map" => some (unlessEmpty do
      let f ← mapping s p
      lazily v fun x => do return some (← f x))
  | "select" => some (unlessEmpty do chosen true v (← choice s p.positional p.named))
  | "reject" => some (unlessEmpty do chosen false v (← choice s p.positional p.named))
  | "selectattr" => some (byAttribute true)
  | "rejectattr" => some (byAttribute false)
  | _ => none

end Pagewright.Template
