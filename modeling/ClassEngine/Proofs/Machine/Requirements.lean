import ClassEngine.Proofs.Machine.Loading

/-!
# Loading by requirements

A class requires others: a file its superclass and then its superinterfaces, an array
class the root class and then its component.  Loading a class is loading what it
requires, in this order and up to the first refusal, and then putting it together.
`construct` says so for files and arrays alike, `load_of_fresh` that loading is no more,
and `load_induction` follows the recursion from a class to what it requires.
-/

namespace ClassEngine.Machine

open Search (Source)

inductive Role where
  | superclass
  | superinterface
  /-- The root class or the component of an array class. -/
  | part
  deriving DecidableEq, Repr

structure Need where
  role : Role
  name : String
  deriving DecidableEq, Repr

namespace Role

def objection? (className : String) (c : Class) : Role → Option Fault
  | .superclass =>
    if c.isInterface || c.isFinal || c.isArray then some (.cannotExtend className c.name) else none
  | .superinterface => if c.isInterface then none else some (.notAnInterface className c.name)
  | .part => none

/-- The fault of a class when what it requires could not be loaded. -/
def pass (className : String) (e : Fault) : Role → Fault
  | .superclass => .superclass className e
  | .superinterface => .superinterface className e
  | .part => e

end Role

def superNeeds (file : ClassFile) : List Need :=
  if file.superName = "" then [] else [⟨.superclass, file.superName⟩]

def requirements (src : Source) (name : String) : Except Fault (List Need) :=
  if isArrayName name then
    match elementType? name with
    | none => .error (.classNotFound name)
    | some _ =>
      .ok (⟨.part, ClassFile.rootClassName⟩ :: (componentName? name).toList.map (⟨.part, ·⟩))
  else
    (readClass src name).map fun file =>
      superNeeds file ++ file.interfaces.map (⟨.superinterface, ·⟩)

def gather (load : String → Loading ClassId) (className : String) :
    List Need → Loading (List ClassId)
  | [], reg => (.ok [], reg)
  | need :: rest, reg =>
    match load need.name reg with
    | (.error e, reg) => (.error (need.role.pass className e), reg)
    | (.ok id, reg) =>
      match (reg.classes[id]?).bind (need.role.objection? className ·) with
      | some e => (.error e, reg)
      | none =>
        let (ids, reg) := gather load className rest reg
        (ids.map (id :: ·), reg)

def declaration (file : ClassFile) (ids : List ClassId)
    (fields : List (ClassFile.Field × ClassFile.FieldType))
    (methods : List (ClassFile.Method × ClassFile.MethodDescriptor)) : Declaration where
  name := file.name
  flags := file.flags
  sourceFile := file.sourceFile
  super? := if file.superName = "" then none else ids.head?
  interfaces := if file.superName = "" then ids else ids.tail
  fields
  methods
  pool := file.pool

/-- The class of a name with the given number, put together from what it requires. -/
def assemble (src : Source) (cs : Classes) (id : ClassId) (name : String) (ids : List ClassId) :
    Except Fault (Class × Array Value) :=
  if isArrayName name then
    match elementType? name, ids with
    | some element, root :: rest => .ok (linkArray cs name root ⟨element.kind, rest.head?⟩, #[])
    | _, _ => .error (.classNotFound name)
  else
    match readClass src name with
    | .error e => .error e
    | .ok file =>
      match fieldTypes file, methodTypes file with
      | .error e, _ | _, .error e => .error e
      | .ok fields, .ok methods => .ok ((declaration file ids fields methods).link cs id)

/-- Loads the class of a name that has not been tried yet. -/
def construct (src : Source) (load : String → Loading ClassId) (name : String) :
    Loading ClassId := fun reg =>
  match requirements src name with
  | .error e => (.error e, reg)
  | .ok needs =>
    match gather load name needs reg with
    | (.error e, reg) => (.error e, reg)
    | (.ok ids, reg) =>
      match assemble src reg.classes reg.classes.size name ids with
      | .error e => (.error e, reg)
      | .ok (c, statics) =>
        let (id, reg) := reg.add c c.firstState statics
        (.ok id, reg)

theorem mapM_eq_error {α β : Type} {f : α → Except Fault β} {as : List α} {e : Fault}
    (h : as.mapM f = .error e) : ∃ a ∈ as, f a = .error e := by
  induction as with
  | nil => cases h
  | cons a rest ih =>
      rw [List.mapM_cons] at h
      cases ha : f a with
      | error e' =>
          rw [ha] at h
          cases h
          exact ⟨a, List.mem_cons_self, ha⟩
      | ok b =>
          rw [ha] at h
          cases hrest : rest.mapM f with
          | error e' =>
              rw [hrest] at h
              cases h
              obtain ⟨a', ha', heq⟩ := ih hrest
              exact ⟨a', List.mem_cons_of_mem _ ha', heq⟩
          | ok bs =>
              rw [hrest] at h
              cases h

namespace Registry

variable {src : Source} {underWay : List String} {name : String} {reg : Registry}

/-! ## Files -/

section

variable {load : String → Loading ClassId}

theorem gather_append (className : String) (needs rest : List Need) (reg : Registry) :
    gather load className (needs ++ rest) reg =
      match gather load className needs reg with
      | (.error e, reg) => (.error e, reg)
      | (.ok ids, reg) =>
        let (ids', reg) := gather load className rest reg
        (ids'.map (ids ++ ·), reg) := by
  induction needs generalizing reg with
  | nil =>
      generalize hrest : gather load className rest reg = result
      obtain ⟨ids, reg'⟩ := result
      cases ids <;> simp [gather, hrest, Except.map]
  | cons need needs ih =>
      simp only [List.cons_append, gather]
      generalize load need.name reg = result
      obtain ⟨outcome, reg₁⟩ := result
      cases outcome with
      | error e => rfl
      | ok id =>
          dsimp only
          cases (reg₁.classes[id]?).bind (need.role.objection? className ·) with
          | some e => rfl
          | none =>
              dsimp only
              rw [ih reg₁]
              generalize gather load className needs reg₁ = result
              obtain ⟨ids, reg₂⟩ := result
              cases ids with
              | error e => rfl
              | ok ids =>
                  dsimp only [Except.map]
                  generalize gather load className rest reg₂ = result
                  obtain ⟨ids', reg₃⟩ := result
                  cases ids' <;> rfl

theorem loadInterfaces_eq_gather (hload : ∀ n reg, Loads underWay n reg (load n reg))
    (className : String) (names : List String) (reg : Registry) :
    loadInterfaces load className names reg =
      gather load className (names.map (⟨.superinterface, ·⟩)) reg := by
  induction names generalizing reg with
  | nil => rfl
  | cons name rest ih =>
      simp only [loadInterfaces, List.map_cons, gather]
      have hspec := hload name reg
      generalize load name reg = result at hspec
      obtain ⟨outcome, reg₁⟩ := result
      cases outcome with
      | error e => rfl
      | ok id =>
          obtain ⟨⟨c, hc, hname⟩, -⟩ := find?_eq_some_iff.mp (hspec.found rfl)
          dsimp only at hc ⊢
          rw [hc, ih reg₁, Option.any_some, Option.bind_some]
          unfold Role.objection?
          cases c.isInterface with
          | true => rfl
          | false =>
              rw [hname]
              rfl

theorem loadSuper_eq_gather (hload : ∀ n reg, Loads underWay n reg (load n reg))
    (file : ClassFile) (reg : Registry) :
    gather load file.name (superNeeds file) reg =
      ((loadSuper load file reg).1.map Option.toList, (loadSuper load file reg).2) := by
  unfold loadSuper superNeeds
  by_cases hname : file.superName = ""
  · simp only [hname, if_true]
    rfl
  · simp only [hname, if_false, gather]
    have hspec := hload file.superName reg
    generalize load file.superName reg = result at hspec
    obtain ⟨outcome, reg₁⟩ := result
    cases outcome with
    | error e => rfl
    | ok id =>
        obtain ⟨⟨c, hc, -⟩, -⟩ := find?_eq_some_iff.mp (hspec.found rfl)
        dsimp only at hc ⊢
        rw [hc, Option.bind_some]
        unfold Role.objection?
        dsimp only
        cases c.isInterface || c.isFinal || c.isArray <;> rfl

theorem isSome_loadSuper {file : ClassFile} {reg reg' : Registry} {super? : Option ClassId}
    (h : loadSuper load file reg = (.ok super?, reg')) :
    super?.isSome = decide (file.superName ≠ "") := by
  unfold loadSuper at h
  by_cases hname : file.superName = ""
  · simp only [hname, if_true] at h
    cases h
    simp [hname]
  · simp only [hname, if_false] at h
    simp only [ne_eq, hname, not_false_eq_true, decide_true]
    generalize load file.superName reg = result at h
    obtain ⟨outcome, reg₁⟩ := result
    cases outcome with
    | error e => cases h
    | ok id =>
        dsimp only at h
        split at h
        · split at h <;> cases h
          rfl
        · cases h
          rfl

theorem define_eq_construct (hload : ∀ n reg, Loads underWay n reg (load n reg))
    {file : ClassFile} (hplain : isArrayName file.name = false)
    (hread : readClass src file.name = .ok file) (reg : Registry) :
    define load file reg = construct src load file.name reg := by
  have hneeds : requirements src file.name =
      .ok (superNeeds file ++ file.interfaces.map (⟨.superinterface, ·⟩)) := by
    simp [requirements, hplain, hread, Except.map]
  unfold define construct
  rw [hneeds]
  dsimp only
  rw [gather_append, loadSuper_eq_gather hload]
  generalize hsuper : loadSuper load file reg = result
  obtain ⟨super, reg₁⟩ := result
  cases super with
  | error e => rfl
  | ok super? =>
      dsimp only [Except.map]
      rw [loadInterfaces_eq_gather hload]
      generalize gather load file.name (file.interfaces.map (⟨.superinterface, ·⟩)) reg₁ = result
      obtain ⟨interfaces, reg₂⟩ := result
      cases interfaces with
      | error e => rfl
      | ok interfaces =>
          dsimp only [Except.map, assemble]
          simp only [hplain, hread, Bool.false_eq_true, if_false]
          cases fieldTypes file with
          | error e => rfl
          | ok fields =>
              cases methodTypes file with
              | error e => rfl
              | ok methods =>
                  have hnamed := isSome_loadSuper hsuper
                  dsimp only [declaration]
                  cases super? with
                  | none =>
                      have hname : file.superName = "" := by simpa using hnamed
                      simp only [hname, if_true]
                      rfl
                  | some s =>
                      have hname : file.superName ≠ "" := by simpa using hnamed
                      simp only [hname, if_false]
                      rfl

end

/-! ## Loading -/

theorem load_of_fresh (hfind : reg.find? name = none) (hfailure : reg.failure? name = none)
    (hname : name ∉ underWay) :
    load src underWay name reg =
      remember name (construct src (load src (name :: underWay)) name reg) := by
  rw [load]
  simp only [hfind, hfailure, hname, dif_neg, not_false_eq_true]
  cases harray : isArrayName name with
  | false =>
      simp only [Bool.false_eq_true, dif_neg, not_false_eq_true]
      split
      · rename_i e hread
        have hneeds : requirements src name = .error e := by
          simp [requirements, harray, hread, Except.map]
        simp only [construct, hneeds]
      · rename_i file hread
        obtain rfl : file.name = name := name_of_readClass hread
        rw [define_eq_construct (fun n reg => load_loads src _ n reg) harray hread]
  | true =>
      simp only [dif_pos]
      congr 1
      unfold construct requirements
      simp only [harray, if_true]
      cases helement : elementType? name with
      | none => rfl
      | some element =>
          dsimp only [gather]
          generalize load src (name :: underWay) ClassFile.rootClassName reg = result
          obtain ⟨outcome, reg₁⟩ := result
          cases outcome with
          | error e => rfl
          | ok root =>
              have hpart (e? : Option Class) :
                  e?.bind (Role.objection? name · .part) = none := by
                cases e? <;> rfl
              simp only [hpart]
              split
              · rename_i hcomponent
                simp only [hcomponent, Option.toList_none, List.map_nil, gather, Except.map,
                  assemble, harray, helement, if_true]
                rfl
              · rename_i componentName hcomponent
                simp only [hcomponent, Option.toList_some, List.map_cons, List.map_nil, gather]
                generalize load src (name :: underWay) componentName reg₁ = result
                obtain ⟨outcome, reg₂⟩ := result
                cases outcome with
                | error e => rfl
                | ok k =>
                    simp only [hpart, Except.map, assemble, harray, helement, if_true]
                    rfl

theorem eq_ok_of_toOption {ε α : Type} {x : Except ε α} {a : α} (h : x.toOption = some a) :
    x = .ok a := by
  cases x with
  | error e => cases h
  | ok b =>
      cases h
      rfl

theorem load_of_gathered {needs : List Need} (reg' : Registry) {ids : List ClassId} (c : Class)
    {statics : Array Value} (hfind : reg.find? name = none) (hfailure : reg.failure? name = none)
    (hname : name ∉ underWay) (hneeds : (requirements src name).toOption = some needs)
    (hgather : gather (load src (name :: underWay)) name needs reg = (.ok ids, reg'))
    (hassemble : (assemble src reg'.classes reg'.classes.size name ids).toOption =
      some (c, statics)) :
    load src underWay name reg =
      (.ok reg'.classes.size, (reg'.add c c.firstState statics).2) := by
  rw [load_of_fresh hfind hfailure hname, construct, eq_ok_of_toOption hneeds]
  dsimp only
  rw [hgather]
  dsimp only
  rw [eq_ok_of_toOption hassemble]
  rfl

theorem load_alone (c : Class) {statics : Array Value} (hname : name ∉ underWay)
    (hneeds : (requirements src name).toOption = some [])
    (hassemble : (assemble src #[] 0 name []).toOption = some (c, statics)) :
    load src underWay name {} = (.ok 0, (({} : Registry).add c c.firstState statics).2) :=
  load_of_gathered {} c (by simp [find?]) rfl hname hneeds rfl hassemble

theorem load_of_found {id : ClassId} (h : reg.find? name = some id) :
    load src underWay name reg = (.ok id, reg) := by
  rw [load, h]

theorem gather_cons {load : String → Loading ClassId} {className : String} {need : Need}
    {rest : List Need} {id : ClassId} {ids : List ClassId} {reg' reg'' : Registry}
    (hload : load need.name reg = (.ok id, reg'))
    (hrole : (reg'.classes[id]?).bind (need.role.objection? className ·) = none)
    (hrest : gather load className rest reg' = (.ok ids, reg'')) :
    gather load className (need :: rest) reg = (.ok (id :: ids), reg'') := by
  rw [gather, hload]
  simp only [hrole, hrest]
  rfl

theorem mem_requirements_array {needs : List Need} {need : Need}
    (h : requirements src name = .ok needs) (harray : isArrayName name = true)
    (hmem : need ∈ needs) :
    need.name = ClassFile.rootClassName ∨ componentName? name = some need.name := by
  simp only [requirements, harray, if_true] at h
  cases helement : elementType? name with
  | none => simp [helement] at h
  | some element =>
      simp only [helement, Except.ok.injEq] at h
      subst h
      rcases List.mem_cons.mp hmem with rfl | hmem
      · exact .inl rfl
      · obtain ⟨component, hcomponent, rfl⟩ := List.mem_map.mp hmem
        exact .inr (Option.mem_toList.mp hcomponent)

/-- What a class requires is nearer to the end of loading than the class itself. -/
theorem requirements_lt {needs : List Need} {need : Need} (h : requirements src name = .ok needs)
    (hmem : need ∈ needs) (hname : name ∉ underWay) :
    remaining src (name :: underWay) < remaining src underWay ∨
      remaining src (name :: underWay) = remaining src underWay ∧
        arrayWeight need.name < arrayWeight name := by
  have hle := remaining_cons_le src underWay name
  cases harray : isArrayName name with
  | true =>
      have hlt : arrayWeight need.name < arrayWeight name := by
        rcases mem_requirements_array h harray hmem with hroot | hcomponent
        · rw [hroot, arrayWeight_rootClassName]
          exact arrayWeight_pos harray
        · exact arrayWeight_component_lt hcomponent
      omega
  | false =>
      simp only [requirements, harray, Bool.false_eq_true, if_false] at h
      cases hread : readClass src name with
      | error e => simp [hread, Except.map] at h
      | ok file => exact .inl (remaining_cons_lt (mem_names_of_readClass hread) hname)

section

variable {P : List String → String → Registry → Except Fault ClassId × Registry → Prop}

/-- Follows what loading does, from a class to what it requires. -/
theorem load_induction
    (found : ∀ {underWay name reg id}, reg.find? name = some id →
      P underWay name reg (.ok id, reg))
    (failed : ∀ {underWay name reg e}, reg.find? name = none → reg.failure? name = some e →
      P underWay name reg (.error e, reg))
    (circular : ∀ {underWay name reg}, reg.find? name = none → reg.failure? name = none →
      name ∈ underWay → P underWay name reg (.error (.circular name), reg))
    (fresh : ∀ {underWay name reg}, reg.find? name = none → reg.failure? name = none →
      name ∉ underWay →
      (∀ {needs}, requirements src name = .ok needs → ∀ need ∈ needs, ∀ reg,
        P (name :: underWay) need.name reg (load src (name :: underWay) need.name reg)) →
      P underWay name reg
        (remember name (construct src (load src (name :: underWay)) name reg)))
    (underWay : List String) (name : String) (reg : Registry) :
    P underWay name reg (load src underWay name reg) := by
  cases hfind : reg.find? name with
  | some id =>
      rw [load]
      simp only [hfind]
      exact found hfind
  | none =>
      cases hfailure : reg.failure? name with
      | some e =>
          rw [load]
          simp only [hfind, hfailure]
          exact failed hfind hfailure
      | none =>
          by_cases hname : name ∈ underWay
          · rw [load]
            simp only [hfind, hfailure, hname, dif_pos]
            exact circular hfind hfailure hname
          · rw [load_of_fresh hfind hfailure hname]
            exact fresh hfind hfailure hname fun hneeds need hmem reg' =>
              load_induction found failed circular fresh (name :: underWay) need.name reg'
termination_by (remaining src underWay, arrayWeight name)
decreasing_by
  have hlt := requirements_lt hneeds hmem hname
  simp only [Prod.lex_def]
  omega

end

/-! ## Invariants of loading -/

section

variable {I : Registry → Prop} {load : String → Loading ClassId}

theorem gather_invariant (className : String) {needs : List Need}
    (hload : ∀ need ∈ needs, ∀ reg, I reg → I (load need.name reg).2) {reg : Registry}
    (h : I reg) : I (gather load className needs reg).2 := by
  fun_induction gather load className needs reg with
  | case1 => exact h
  | case2 need rest reg e reg₁ hload₁ | case3 need rest reg id reg₁ hload₁ =>
      have hfirst := hload need List.mem_cons_self reg h
      rwa [hload₁] at hfirst
  | case4 need rest reg id reg₁ hload₁ _ ids reg₂ hrest ih =>
      have hfirst := hload need List.mem_cons_self reg h
      rw [hload₁] at hfirst
      have hlast := ih (fun need hneed => hload need (List.mem_cons_of_mem _ hneed)) hfirst
      rwa [hrest] at hlast

theorem construct_invariant
    (hadd : ∀ {reg cs id ids c statics}, assemble src cs id name ids = .ok (c, statics) →
      I reg → I (reg.add c c.firstState statics).2)
    (hload : ∀ {needs}, requirements src name = .ok needs → ∀ need ∈ needs, ∀ reg, I reg →
      I (load need.name reg).2)
    (h : I reg) : I (construct src load name reg).2 := by
  unfold construct
  cases hneeds : requirements src name with
  | error e => exact h
  | ok needs =>
      dsimp only
      have hgather := gather_invariant name (hload hneeds) h
      generalize gather load name needs reg = result at hgather
      obtain ⟨outcome, reg'⟩ := result
      cases outcome with
      | error e => exact hgather
      | ok ids =>
          dsimp only
          cases hassemble : assemble src reg'.classes reg'.classes.size name ids with
          | error e => exact hgather
          | ok result => exact hadd hassemble hgather

end

/-- What holds of a registry still holds when assembled classes and failures are added. -/
theorem load_invariant {I : Registry → Prop}
    (hadd : ∀ {reg cs id name ids c statics}, assemble src cs id name ids = .ok (c, statics) →
      I reg → I (reg.add c c.firstState statics).2)
    (hfail : ∀ {reg name e}, I reg → I (reg.addFailure name e)) (underWay : List String)
    (name : String) {reg : Registry} (h : I reg) : I (load src underWay name reg).2 := by
  refine load_induction (P := fun _ _ reg result => I reg → I result.2)
    ?found ?failed ?circular ?fresh underWay name reg h
  case found => exact fun _ h => h
  case failed => exact fun _ _ h => h
  case circular => exact fun _ _ _ h => h
  case fresh =>
    intro underWay name reg _ _ _ ih h
    have hconstruct : I (construct src (load src (name :: underWay)) name reg).2 :=
      construct_invariant hadd (fun hneeds need hneed reg => ih hneeds need hneed reg) h
    generalize construct src (load src (name :: underWay)) name reg = result at hconstruct
    obtain ⟨outcome, reg'⟩ := result
    cases outcome with
    | ok id => exact hconstruct
    | error e => exact hfail hconstruct

end Registry

end ClassEngine.Machine
