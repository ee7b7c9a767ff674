/-!
# Call-site caches

A cache remembers which target each receiver class selected.  The first target
recorded for a class stays; one class more than the cache can hold empties it
for good.
-/

namespace ClassEngine.Machine

structure InlineCache (κ τ : Type) where
  entries : List (κ × τ) := []
  overflowed : Bool := false
  hits : UInt64 := 0
  misses : UInt64 := 0
  deriving DecidableEq, Repr

namespace InlineCache

variable {κ τ : Type}

def capacity : Nat := 6

def stateName (c : InlineCache κ τ) : String :=
  if c.overflowed then "megamorphic"
  else match c.entries with
    | [] => "empty"
    | [_] => "monomorphic"
    | _ => "polymorphic"

variable [DecidableEq κ]

def entry? (c : InlineCache κ τ) (receiver : κ) : Option τ :=
  (c.entries.find? (·.1 = receiver)).map (·.2)

/-- Counts a hit or a miss. -/
def lookup (c : InlineCache κ τ) (receiver : κ) : Option τ × InlineCache κ τ :=
  match c.entry? receiver with
  | some target => (some target, { c with hits := c.hits + 1 })
  | none => (none, { c with misses := c.misses + 1 })

def update (c : InlineCache κ τ) (receiver : κ) (target : τ) : InlineCache κ τ :=
  if c.overflowed || (c.entry? receiver).isSome then c
  else if c.entries.length = capacity then { c with entries := [], overflowed := true }
  else { c with entries := c.entries ++ [(receiver, target)] }

/-- Updates the cache with the outcome of a search, if the search has found a target. -/
def record (c : InlineCache κ τ) (receiver : κ) : Option τ → InlineCache κ τ
  | some target => c.update receiver target
  | none => c

end InlineCache

end ClassEngine.Machine
