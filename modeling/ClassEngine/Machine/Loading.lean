import ClassEngine.ClassFile.Parse
import ClassEngine.Machine.Registry
import ClassEngine.Search.Source

/-!
# Loading classes

Loading a class first loads its superclass and superinterfaces, and loading an
array class its component.  The names whose loading is under way are passed
along; meeting one of them again is a circularity.

Loading ends because a source delivers only finitely many classes: each class
that starts to load takes one of them out of the remaining ones, and array
classes lead to shorter names.
-/

namespace ClassEngine.Machine

open ClassFile (FieldType MethodDescriptor)
open Search (Source)

/-- An operation that may fail, on a registry that keeps what was loaded meanwhile. -/
abbrev Loading (α : Type) := Registry → Except Fault α × Registry

def readClass (src : Source) (name : String) : Except Fault ClassFile :=
  match src.find name with
  | .error (.notFound _) => .error (.classNotFound name)
  | .error (.failed reason) => .error (.unreadable name reason)
  | .ok bytes =>
    match ClassFile.parse bytes with
    | .error e => .error (.malformed name e)
    | .ok file => if file.name = name then .ok file else .error (.misnamed name file.name)

theorem mem_names_of_readClass {src : Source} {name : String} {file : ClassFile}
    (h : readClass src name = .ok file) : name ∈ src.names := by
  unfold readClass at h
  split at h
  · simp at h
  · simp at h
  · rename_i hfind
    exact src.listed hfind

/-! ## Defining one class -/

def loadSuper (load : String → Loading ClassId) (file : ClassFile) :
    Loading (Option ClassId) := fun reg =>
  if file.superName = "" then (.ok none, reg)
  else
    match load file.superName reg with
    | (.error e, reg) => (.error (.superclass file.name e), reg)
    | (.ok id, reg) =>
      match reg.classes[id]? with
      | some c =>
        if c.isInterface || c.isFinal || c.isArray then
          (.error (.cannotExtend file.name c.name), reg)
        else (.ok (some id), reg)
      | none => (.ok (some id), reg)

def loadInterfaces (load : String → Loading ClassId) (className : String) :
    List String → Loading (List ClassId)
  | [], reg => (.ok [], reg)
  | name :: rest, reg =>
    match load name reg with
    | (.error e, reg) => (.error (.superinterface className e), reg)
    | (.ok id, reg) =>
      if (reg.classes[id]?).any (·.isInterface) then
        let (ids, reg) := loadInterfaces load className rest reg
        (ids.map (id :: ·), reg)
      else (.error (.notAnInterface className name), reg)

def fieldTypes (file : ClassFile) :
    Except Fault (List (ClassFile.Field × FieldType)) :=
  file.fields.mapM fun f =>
    match FieldType.parse f.descriptor with
    | .ok t => .ok (f, t)
    | .error e => .error (.badMember file.name f.name e)

def methodTypes (file : ClassFile) :
    Except Fault (List (ClassFile.Method × MethodDescriptor)) :=
  file.methods.mapM fun m =>
    match MethodDescriptor.parse m.descriptor with
    | .ok d => .ok (m, d)
    | .error e => .error (.badMember file.name m.name e)

/-- Loads the supertypes of a class file and links it. -/
def define (load : String → Loading ClassId) (file : ClassFile) : Loading ClassId :=
  fun reg =>
    match loadSuper load file reg with
    | (.error e, reg) => (.error e, reg)
    | (.ok super?, reg) =>
      match loadInterfaces load file.name file.interfaces reg with
      | (.error e, reg) => (.error e, reg)
      | (.ok interfaces, reg) =>
        match fieldTypes file, methodTypes file with
        | .error e, _ | _, .error e => (.error e, reg)
        | .ok fields, .ok methods =>
          let d : Declaration :=
            ⟨file.name, file.flags, file.sourceFile, super?, interfaces, fields, methods,
              file.pool⟩
          let (c, statics) := d.link reg.classes reg.classes.size
          let (id, reg) := reg.add c .linked statics
          (.ok id, reg)

/-! ## Arrays -/

def isArrayName (name : String) : Bool := name.toList.head? = some '['

def elementType? (name : String) : Option FieldType :=
  match FieldType.parse name with
  | .ok (.array element _) => some element
  | _ => none

/-- The class of the elements of an array class, if they are of one. -/
def componentName? (name : String) : Option String :=
  match name.toList with
  | '[' :: '[' :: rest => some (String.ofList ('[' :: rest))
  | '[' :: 'L' :: rest => some (String.ofList rest.dropLast)
  | _ => none

def arrayNameOf (c : Class) : String :=
  if c.isArray then "[" ++ c.name else "[L" ++ c.name ++ ";"

/-- How far an array name is from the name of a class; other names weigh nothing. -/
def arrayWeight (name : String) : Nat :=
  if isArrayName name then name.toList.length else 0

theorem arrayWeight_pos {name : String} (h : isArrayName name = true) : 0 < arrayWeight name := by
  unfold arrayWeight
  rw [if_pos h]
  cases hl : name.toList with
  | nil => simp [isArrayName, hl] at h
  | cons c rest => simp

theorem arrayWeight_le (name : String) : arrayWeight name ≤ name.toList.length := by
  unfold arrayWeight
  split <;> omega

theorem arrayWeight_rootClassName : arrayWeight ClassFile.rootClassName = 0 := by
  decide

theorem arrayWeight_component_lt {name component : String}
    (h : componentName? name = some component) : arrayWeight component < arrayWeight name := by
  unfold componentName? at h
  split at h
  · rename_i rest hl
    have hname : arrayWeight name = rest.length + 2 := by simp [arrayWeight, isArrayName, hl]
    have hle := arrayWeight_le component
    cases h
    simp only [String.toList_ofList, List.length_cons] at hle
    omega
  · rename_i rest hl
    have hname : arrayWeight name = rest.length + 2 := by simp [arrayWeight, isArrayName, hl]
    have hle := arrayWeight_le component
    cases h
    simp only [String.toList_ofList, List.length_dropLast] at hle
    omega
  · simp at h

/-! ## Loading -/

def remaining (src : Source) (underWay : List String) : Nat :=
  (src.names.filter (· ∉ underWay)).length

theorem filter_not_mem_cons (names underWay : List String) (name : String) :
    names.filter (· ∉ name :: underWay) = (names.filter (· ∉ underWay)).filter (· ≠ name) := by
  rw [List.filter_filter]
  apply List.filter_congr
  intro x _
  simp [not_or]

theorem remaining_cons_le (src : Source) (underWay : List String) (name : String) :
    remaining src (name :: underWay) ≤ remaining src underWay := by
  unfold remaining
  rw [filter_not_mem_cons]
  exact List.length_filter_le _ _

theorem remaining_cons_lt {src : Source} {underWay : List String} {name : String}
    (listed : name ∈ src.names) (fresh : name ∉ underWay) :
    remaining src (name :: underWay) < remaining src underWay := by
  unfold remaining
  rw [filter_not_mem_cons, List.length_filter_lt_length_iff_exists]
  exact ⟨name, by simp [listed, fresh], by simp⟩

def addArray (name : String) (element : FieldType) (root : ClassId)
    (component? : Option ClassId) (reg : Registry) : ClassId × Registry :=
  reg.add (linkArray reg.classes name root ⟨element.kind, component?⟩) .initialized #[]

def remember (name : String) : Except Fault ClassId × Registry → Except Fault ClassId × Registry
  | (.ok id, reg) => (.ok id, reg)
  | (.error e, reg) => (.error e, reg.addFailure name e)

set_option linter.unusedVariables false in
/-- Loads and links a class and its supertypes, each at most once. -/
def load (src : Source) (underWay : List String) (name : String) : Loading ClassId := fun reg =>
  match reg.find? name, reg.failure? name with
  | some id, _ => (.ok id, reg)
  | none, some e => (.error e, reg)
  | none, none =>
    if fresh : name ∈ underWay then (.error (.circular name), reg)
    else if isArray : isArrayName name then
      remember name <|
        match elementType? name with
        | none => (.error (.classNotFound name), reg)
        | some element =>
          match load src (name :: underWay) ClassFile.rootClassName reg with
          | (.error e, reg) => (.error e, reg)
          | (.ok root, reg) =>
            match component : componentName? name with
            | none =>
              let (id, reg) := addArray name element root none reg
              (.ok id, reg)
            | some componentName =>
              match load src (name :: underWay) componentName reg with
              | (.error e, reg) => (.error e, reg)
              | (.ok c, reg) =>
                let (id, reg) := addArray name element root (some c) reg
                (.ok id, reg)
    else
      remember name <|
        match found : readClass src name with
        | .error e => (.error e, reg)
        | .ok file => define (fun n reg => load src (name :: underWay) n reg) file reg
termination_by (remaining src underWay, arrayWeight name)
decreasing_by
  · have hle := remaining_cons_le src underWay name
    have hpos := arrayWeight_pos isArray
    have hroot := arrayWeight_rootClassName
    simp only [Prod.lex_def]
    omega
  · have hle := remaining_cons_le src underWay name
    have hlt := arrayWeight_component_lt component
    simp only [Prod.lex_def]
    omega
  · have hlt := remaining_cons_lt (mem_names_of_readClass found) fresh
    simp only [Prod.lex_def]
    omega

end ClassEngine.Machine
