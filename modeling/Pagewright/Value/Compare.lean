import Pagewright.Value.Basic

/-! # Equality and order of values

Numbers of all kinds are equal when their exact values are, texts when their characters are,
sequences item by item and mappings and sets without regard to order.  Numbers, texts and
sequences of one kind are ordered; sets are ordered by inclusion.

Main definitions: `Value.eqv`, `Value.compare`, and `lookup?`, `insert`, `erase` on entries of a
mapping. -/

namespace Pagewright.Value

/-- Whether two numbers are equal in exact value; none if one of the values is not a number. -/
def numbersEqual? : Value → Value → Option Bool
  | .float x, .float y => some (x == y)
  | .float x, w => w.int?.map fun n => Number.compareInt x n == some .eq
  | v, .float y => v.int?.map fun n => Number.compareInt y n == some .eq
  | v, w => match v.int?, w.int? with
    | some m, some n => some (m == n)
    | _, _ => Option.none

mutual

/-- Whether two values are equal. -/
def eqv : Value → Value → Bool
  | .none, w => match w with
    | .none => true
    | _ => false
  | .str t, w => w.text? == some t
  | .markup t, w => w.text? == some t
  | .list xs, w => match w with
    | .list ys => eqvAll xs ys
    | _ => false
  | .tuple xs, w => match w with
    | .tuple ys => eqvAll xs ys
    | _ => false
  | .set xs, w => match w with
    | .set ys => xs.length == ys.length && eqvSubset xs ys
    | _ => false
  | .dict es, w => match w with
    | .dict fs => es.length == fs.length && eqvEntries es fs
    | _ => false
  | .undefined .., w => w.isUndefined
  | .position i c d p, w => match w with
    | .position i' c' d' p' => i == i' && c == c' && eqv d d' && eqv p p'
    | _ => false
  | .row x p, w => match w with
    | .row y q => eqv x y && eqv p q
    | _ => false
  | .range a b s, w => match w with
    | .range a' b' s' =>
      let n := rangeLength a b s
      n == rangeLength a' b' s' && (n == 0 || (a == a' && (n == 1 || s == s')))
    | _ => false
  | .cell a, w => match w with
    | .cell b => a == b
    | _ => false
  | .view k v, w => match w with
    | .view k' v' => k == k' && eqv v v'
    | _ => false
  | .function n, w => match w with
    | .function m => n == m
    | _ => false
  | .method v n, w => match w with
    | .method v' m => n == m && eqv v v'
    | _ => false
  | .type n, w => match w with
    | .type m => n == m
    | _ => false
  | .block n l, w => match w with
    | .block m k => n == m && l == k
    | _ => false
  | .self, w => match w with
    | .self => true
    | _ => false
  | .bool b, w => (numbersEqual? (.bool b) w).getD false
  | .int n, w => (numbersEqual? (.int n) w).getD false
  | .float x, w => (numbersEqual? (.float x) w).getD false

/-- Whether two lists are equal item by item. -/
def eqvAll : List Value → List Value → Bool
  | [], ys => ys.isEmpty
  | x :: xs, ys => match ys with
    | y :: ys => eqv x y && eqvAll xs ys
    | [] => false

/-- Whether every item of the first list is in the second. -/
def eqvSubset : List Value → List Value → Bool
  | [], _ => true
  | x :: xs, ys => ys.any (fun y => eqv x y) && eqvSubset xs ys

/-- Whether every entry of the first mapping is in the second. -/
def eqvEntries : List (Value × Value) → List (Value × Value) → Bool
  | [], _ => true
  | (k, v) :: es, fs => fs.any (fun (k', v') => eqv k k' && eqv v v') && eqvEntries es fs

end

instance : BEq Value := ⟨eqv⟩

/-! ### Order -/

/-- The order of two numbers; nothing if a value is not a number, and no order if one of them is
the double that is not a number. -/
def compareNumbers? : Value → Value → Option (Option Ordering)
  | .float x, .float y =>
    some (if x < y then some .lt else if y < x then some .gt else if x == y then some .eq
      else Option.none)
  | .float x, w => w.int?.map fun n => Number.compareInt x n
  | v, .float y => v.int?.map fun n => (Number.compareInt y n).map Ordering.swap
  | v, w => match v.int?, w.int? with
    | some m, some n => some (some (Ord.compare m n))
    | _, _ => Option.none

mutual

/-- The order of two values under the comparison written `op`; none when neither is smaller,
larger or equal. -/
def compare (op : Text) : Value → Value → Except Fault (Option Ordering)
  | .list xs, w => match w with
    | .list ys => compareAll op xs ys
    | _ => .error (.unordered op "list" w.typeName)
  | .tuple xs, w => match w with
    | .tuple ys => compareAll op xs ys
    | _ => .error (.unordered op "tuple" w.typeName)
  | .set xs, w => match w with
    | .set ys =>
      let below := eqvSubset xs ys
      let above := eqvSubset ys xs
      .ok (if below && above then some .eq else if below then some .lt
        else if above then some .gt else Option.none)
    | _ => .error (.unordered op "set" w.typeName)
  | v, w => match v.text?, w.text? with
    | some s, some t => .ok (some (s.order t))
    | _, _ => match compareNumbers? v w with
      | some o => .ok o
      | Option.none => .error (.unordered op v.typeName w.typeName)

/-- The order of two lists: the order of the first items that differ, else of the lengths. -/
def compareAll (op : Text) : List Value → List Value → Except Fault (Option Ordering)
  | [], ys => .ok (some (if ys.isEmpty then .eq else .lt))
  | x :: xs, ys => match ys with
    | [] => .ok (some .gt)
    | y :: ys => if eqv x y then compareAll op xs ys else compare op x y

end

/-! ### Entries of a mapping -/

/-- The value under a key. -/
def lookup? (key : Value) : List (Value × Value) → Option Value
  | [] => Option.none
  | (k, v) :: es => if eqv key k then some v else lookup? key es

/-- Entries with a value set under a key; a key that is there already keeps its place. -/
def insert (key value : Value) : List (Value × Value) → List (Value × Value)
  | [] => [(key, value)]
  | (k, v) :: es => if eqv key k then (k, value) :: es else (k, v) :: insert key value es

/-- Entries without the one under a key. -/
def erase (key : Value) (es : List (Value × Value)) : List (Value × Value) :=
  es.filter fun (k, _) => !eqv key k

/-- Entries in the order in which their keys first come, each with the value given last. -/
def entriesOf (es : List (Value × Value)) : List (Value × Value) :=
  es.foldl (fun acc (k, v) => insert k v acc) []

/-- Items without repetitions, in the order in which they first come. -/
def distinct (xs : List Value) : List Value :=
  xs.foldl (fun acc x => if acc.any (eqv x) then acc else acc ++ [x]) []

mutual

/-- The kind that keeps a value from being a key, if any. -/
def unhashable? : Value → Option Text
  | .list _ => some "list"
  | .dict _ => some "dict"
  | .set _ => some "set"
  | .tuple xs => unhashableIn? xs
  | .position _ _ d p => unhashable? d <|> unhashable? p
  | .row x p => unhashable? x <|> unhashable? p
  | _ => Option.none

/-- The kind that keeps one of some values from being a key, if any. -/
def unhashableIn? : List Value → Option Text
  | [] => Option.none
  | x :: xs => unhashable? x <|> unhashableIn? xs

end

end Pagewright.Value

/-! ## Sorting values

A list is sorted by keys.  Keys are compared with the smaller-than order alone: first along the
longest run at the beginning that is sorted already, upwards or strictly downwards, and then each
further key by halving the sorted part.  Equal keys keep their order.

Main definitions: `less`, `sortBy`, `sortByDescending`. -/

namespace Pagewright.Value

/-- Whether a value is smaller than another one. -/
def less (v w : Value) : Except Fault Bool := do
  return (← compare "<" v w) == some .lt

variable {α : Type}

/-- The length of the run at the beginning of a list behind the item `x` in which every item is
smaller than the one before it (`down`), or none is. -/
def runLength (key : α → Value) (down : Bool) (x : α) : List α → Except Fault Nat
  | [] => .ok 0
  | y :: ys => do
    if (← less (key y) (key x)) == down then return 1 + (← runLength key down y ys)
    else return 0

/-- The sorted run at the beginning of a list, and the rest. -/
def firstRun (key : α → Value) : List α → Except Fault (List α × List α)
  | [] => .ok ([], [])
  | [x] => .ok ([x], [])
  | x :: y :: ys => do
    let down ← less (key y) (key x)
    let n := 2 + (← runLength key down y ys)
    let all := x :: y :: ys
    return (if down then (all.take n).reverse else all.take n, all.drop n)

/-- The place in a sorted array behind all keys that are not larger than a key, between two
bounds. -/
def placeBetween (key : α → Value) (k : Value) (sorted : Array α) :
    Nat → Nat → Nat → Except Fault Nat
  | 0, low, _ => .ok low
  | fuel + 1, low, high => do
    if high ≤ low then return low
    let middle := low + (high - low) / 2
    match sorted[middle]? with
    | Option.none => return low
    | some x =>
      if ← less k (key x) then placeBetween key k sorted fuel low middle
      else placeBetween key k sorted fuel (middle + 1) high

/-- A sorted array with further items put in. -/
def insertSorted (key : α → Value) (sorted : Array α) : List α → Except Fault (Array α)
  | [] => .ok sorted
  | x :: xs => do
    let i ← placeBetween key (key x) sorted (sorted.size + 1) 0 sorted.size
    insertSorted key (sorted.extract 0 i ++ #[x] ++ sorted.extract i sorted.size) xs

/-- A list sorted by keys, upwards. -/
def sortBy (key : α → Value) (xs : List α) : Except Fault (List α) := do
  let (run, rest) ← firstRun key xs
  return (← insertSorted key run.toArray rest).toList

/-- A list sorted by keys, downwards; equal keys keep their order. -/
def sortByDescending (key : α → Value) (xs : List α) : Except Fault (List α) := do
  return (← sortBy key xs.reverse).reverse

/-- A list sorted by keys, in one of the two directions. -/
def sortDirected (descending : Bool) (key : α → Value) (xs : List α) : Except Fault (List α) :=
  if descending then sortByDescending key xs else sortBy key xs

end Pagewright.Value
