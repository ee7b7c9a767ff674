/-!
# Profiling

A profiler counts how often each method is entered and how many of its
instructions are started.  A method becomes hot, once, when its entries reach
the threshold.
-/

namespace ClassEngine.Machine

structure MethodProfile (κ : Type) where
  key : κ
  method : String
  invocations : UInt64 := 0
  instructions : UInt64 := 0
  isHot : Bool := false
  deriving DecidableEq, Repr

structure HotEvent where
  method : String
  invocations : UInt64
  deriving DecidableEq, Repr

def HotEvent.render (e : HotEvent) : String := s!"{e.method}@{e.invocations}"

structure Profiler (κ : Type) where
  threshold : UInt64 := 100
  profiles : List (MethodProfile κ) := []
  /-- Oldest first. -/
  events : List HotEvent := []
  deriving DecidableEq, Repr

namespace Profiler

variable {κ : Type} [DecidableEq κ]

def profile? (p : Profiler κ) (key : κ) : Option (MethodProfile κ) :=
  p.profiles.find? (·.key = key)

/-- Changes the counters of a method, which start at zero. -/
def modify (p : Profiler κ) (key : κ) (method : String)
    (f : MethodProfile κ → MethodProfile κ) : Profiler κ :=
  let rec go : List (MethodProfile κ) → List (MethodProfile κ)
    | [] => [f { key, method }]
    | row :: rest => if row.key = key then f row :: rest else row :: go rest
  { p with profiles := go p.profiles }

def recordInvocation (p : Profiler κ) (key : κ) (method : String) : Profiler κ :=
  let p := p.modify key method fun row => { row with invocations := row.invocations + 1 }
  match p.profile? key with
  | none => p
  | some row =>
    if !row.isHot && p.threshold ≤ row.invocations then
      { p.modify key method fun row => { row with isHot := true } with
        events := p.events ++ [⟨method, row.invocations⟩] }
    else p

def recordInstruction (p : Profiler κ) (key : κ) (method : String) : Profiler κ :=
  p.modify key method fun row => { row with instructions := row.instructions + 1 }

/-- More instructions first, then more invocations, then by method. -/
def before (a b : MethodProfile κ) : Bool :=
  if a.instructions ≠ b.instructions then b.instructions < a.instructions
  else if a.invocations ≠ b.invocations then b.invocations < a.invocations
  else a.method ≤ b.method

/-- The first `count` methods, or all when it is not positive. -/
def top (p : Profiler κ) (count : Int) : List (MethodProfile κ) :=
  let sorted := p.profiles.mergeSort before
  if 0 < count then sorted.take count.toNat else sorted

def hotMethods (p : Profiler κ) : List String :=
  ((p.top 0).filter (·.isHot)).map (·.method)

def reset (p : Profiler κ) : Profiler κ := { p with profiles := [] }

def clearEvents (p : Profiler κ) : Profiler κ := { p with events := [] }

end Profiler

end ClassEngine.Machine
