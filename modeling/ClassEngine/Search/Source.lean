/-!
# Class sources

A source turns a class name into the bytes of a class file.  Only finitely many
names can succeed, and a source lists them; it may refuse any other name for any
reason.
-/

namespace ClassEngine.Search

inductive SearchError where
  | notFound (name : String)
  | failed (reason : String)
  deriving DecidableEq, Repr

def SearchError.message : SearchError → String
  | .notFound name => s!"class not found: {name}"
  | .failed reason => reason

structure Source where
  find : String → Except SearchError (List UInt8)
  names : List String
  listed : ∀ {name : String} {bytes : List UInt8}, find name = .ok bytes → name ∈ names

def Source.among (names : List String) (find : String → Except SearchError (List UInt8)) :
    Source where
  find name :=
    match find name with
    | .ok bytes => if name ∈ names then .ok bytes else .error (.notFound name)
    | .error e => .error e
  names := names
  listed := by
    intro name bytes h
    split at h
    · split at h
      · assumption
      · simp at h
    · simp at h

/-! ## Classes in memory -/

structure Memory where
  entries : List (String × Except String (List UInt8))

namespace Memory

def empty : Memory := ⟨[]⟩

def add (m : Memory) (name : String) (entry : Except String (List UInt8)) : Memory :=
  ⟨(name, entry) :: m.entries.filter (·.1 ≠ name)⟩

def names (m : Memory) : List String :=
  (m.entries.map (·.1)).mergeSort fun a b => a ≤ b

def find (m : Memory) (name : String) : Except SearchError (List UInt8) :=
  match m.entries.find? (·.1 = name) with
  | some (_, .ok bytes) => .ok bytes
  | some (_, .error reason) => .error (.failed reason)
  | none => .error (.notFound name)

def source (m : Memory) : Source where
  find := m.find
  names := m.entries.map (·.1)
  listed := by
    intro name bytes h
    unfold Memory.find at h
    split at h
    · rename_i stored _ hfind
      have hname := List.find?_some hfind
      simp only [decide_eq_true_eq] at hname
      exact List.mem_map.2 ⟨_, List.mem_of_find?_eq_some hfind, hname⟩
    · simp at h
    · simp at h

end Memory

/-! ## Search paths -/

/-- Asks each source in turn; a refusal other than "not found" ends the search. -/
def findFirst (name : String) : List Source → Except SearchError (List UInt8)
  | [] => .error (.notFound name)
  | s :: rest =>
    match s.find name with
    | .ok bytes => .ok bytes
    | .error (.notFound _) => findFirst name rest
    | .error (.failed reason) => .error (.failed reason)

theorem mem_names_of_findFirst {name : String} {bytes : List UInt8} {sources : List Source}
    (h : findFirst name sources = .ok bytes) : name ∈ sources.flatMap (·.names) := by
  induction sources with
  | nil => simp [findFirst] at h
  | cons s rest ih =>
    unfold findFirst at h
    rw [List.flatMap_cons, List.mem_append]
    split at h
    · rename_i hfind
      exact .inl (s.listed hfind)
    · exact .inr (ih h)
    · simp at h

def path (sources : List Source) : Source where
  find name := findFirst name sources
  names := sources.flatMap (·.names)
  listed := mem_names_of_findFirst

end ClassEngine.Search
