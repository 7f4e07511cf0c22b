import Pagewright.Number.Binary

/-! # Memos

A memo keeps values under keys for a while.  It holds a limited number of entries, the least
recently used first, and the first ones make room for new ones.  An entry lives for a fixed time
after it was set; the time of every call is given by the caller.

Main definitions: `Lifetime`, `Memo`, `Memo.get`, `Memo.set`, `Memo.remove`, `Memo.sweep`,
`Memo.clear`, `Memo.stats`. -/

namespace Pagewright

/-- How long an entry lives, in seconds. -/
inductive Lifetime where
  | whole (n : Int)
  | decimal (x : Float)

/-- Whether a time is longer than a lifetime.  An infinite lifetime never ends, and one that is not
a number does not end either. -/
def Lifetime.isOver (elapsed : Rat) : Lifetime → Bool
  | .whole n => decide ((n : Rat) < elapsed)
  | .decimal x =>
    match Number.decode x with
    | .finite negative mantissa exponent =>
      let (num, den) := Number.dyadic mantissa exponent
      decide (mkRat (if negative then -(num : Int) else num) den < elapsed)
    | .infinite negative => negative
    | .notANumber => false

namespace Memo

/-- A value under a key, with the time at which it was set. -/
structure Entry where
  key : Text
  value : Text
  stamp : Rat
  deriving DecidableEq, Repr

end Memo

/-- Values under keys, the least recently used first, with counts of what was asked and dropped. -/
structure Memo where
  capacity : Int := 100
  lifetime : Lifetime := .whole 300
  entries : List Memo.Entry := []
  hits : Nat := 0
  misses : Nat := 0
  evictions : Nat := 0

namespace Memo

/-- Whether a memo keeps anything at all. -/
def isEnabled (m : Memo) : Bool := decide (0 < m.capacity)

/-- Whether an entry has outlived its time. -/
def isStale (m : Memo) (now : Rat) (e : Entry) : Bool := m.lifetime.isOver (now - e.stamp)

/-- The entry under a key. -/
def find? (m : Memo) (key : Text) : Option Entry := m.entries.find? fun e => e.key == key

/-- The entries under all keys but one. -/
def others (m : Memo) (key : Text) : List Entry := m.entries.filter fun e => e.key != key

/-- The value under a key, unless it is stale.  A hit makes the entry the most recently used one; a
stale entry is dropped. -/
def get (m : Memo) (now : Rat) (key : Text) : Option Text × Memo :=
  if m.isEnabled then
    match m.find? key with
    | none => (none, { m with misses := m.misses + 1 })
    | some e =>
      if m.isStale now e then
        (none, { m with entries := m.others key, misses := m.misses + 1 })
      else (some e.value, { m with entries := m.others key ++ [e], hits := m.hits + 1 })
  else (none, m)

/-- A memo with a value set under a key; the least recently used entries make room for it. -/
def set (m : Memo) (now : Rat) (key value : Text) : Memo :=
  if m.isEnabled then
    let all := m.others key ++ [⟨key, value, now⟩]
    let excess := all.length - m.capacity.toNat
    { m with entries := all.drop excess, evictions := m.evictions + excess }
  else m

/-- A memo without the entry under a key, and whether there was one. -/
def remove (m : Memo) (key : Text) : Bool × Memo :=
  ((m.find? key).isSome, { m with entries := m.others key })

/-- A memo without entries and with all counts at zero. -/
def clear (m : Memo) : Memo := { m with entries := [], hits := 0, misses := 0, evictions := 0 }

/-- The number of stale entries. -/
def staleCount (m : Memo) (now : Rat) : Nat := (m.entries.filter (m.isStale now)).length

/-- A memo without its stale entries, and how many there were. -/
def sweep (m : Memo) (now : Rat) : Nat × Memo :=
  (m.staleCount now, { m with entries := m.entries.filter fun e => !m.isStale now e })

/-- The state of a memo in numbers. -/
structure Stats where
  total : Nat
  active : Nat
  stale : Nat
  capacity : Int
  lifetime : Lifetime
  hits : Nat
  misses : Nat
  evictions : Nat
  hitRate : Float

/-- The state of a memo at a time. -/
def stats (m : Memo) (now : Rat) : Stats where
  total := m.entries.length
  active := m.entries.length - m.staleCount now
  stale := m.staleCount now
  capacity := m.capacity
  lifetime := m.lifetime
  hits := m.hits
  misses := m.misses
  evictions := m.evictions
  hitRate := Number.ofRatio m.hits (m.hits + m.misses)

end Memo

end Pagewright
