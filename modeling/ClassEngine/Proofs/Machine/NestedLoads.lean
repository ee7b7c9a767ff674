import Mathlib.Data.Finset.Basic
import ClassEngine.Proofs.Machine.Requirements

/-!
# Nested loads

The names whose loading is under way form one set, which every load enters its own name
into while it loads what its class requires.  Such loads are followed here to a bounded
depth of nesting, and counted.  The bound does not matter: some depth is enough for any
source and name, whatever the files in the source refer to, and then the loads do what
`load` does.  Every load takes its own name out of the set again and no other, whether it
ends with a class or with a fault.
-/

namespace ClassEngine.Machine

open Search (Source)

/-- A registry, the names whose loading is under way, and how many loads have begun. -/
structure LoadState where
  registry : Registry
  loading : Finset String
  loads : Nat

/-- A load that gives nothing where the nesting goes deeper than it may. -/
abbrev BoundedLoading (α : Type) := LoadState → Option (Except Fault α × LoadState)

namespace LoadState

def gather (load : String → BoundedLoading ClassId) (className : String) :
    List Need → BoundedLoading (List ClassId)
  | [], s => some (.ok [], s)
  | need :: rest, s =>
    match load need.name s with
    | none => none
    | some (.error e, s) => some (.error (need.role.pass className e), s)
    | some (.ok id, s) =>
      match (s.registry.classes[id]?).bind (need.role.objection? className ·) with
      | some e => some (.error e, s)
      | none => (gather load className rest s).map fun (ids, s) => (ids.map (id :: ·), s)

/-- Puts a class together when what it requires has been loaded. -/
def construct (src : Source) (load : String → BoundedLoading ClassId) (name : String) :
    BoundedLoading ClassId := fun s =>
  match requirements src name with
  | .error e => some (.error e, s)
  | .ok needs =>
    (gather load name needs s).map fun
      | (.error e, s) => (.error e, s)
      | (.ok ids, s) =>
        match assemble src s.registry.classes s.registry.classes.size name ids with
        | .error e => (.error e, s)
        | .ok (c, statics) =>
          let (id, reg) := s.registry.add c c.firstState statics
          (.ok id, { s with registry := reg })

def enter (name : String) (s : LoadState) : LoadState :=
  { s with loading := insert name s.loading }

/-- Ends the load of a name: the outcome is kept and the name is no longer under way. -/
def leave (name : String) : Except Fault ClassId × LoadState → Except Fault ClassId × LoadState
  | (outcome, s) =>
    let (outcome, reg) := remember name (outcome, s.registry)
    (outcome, { s with registry := reg, loading := s.loading.erase name })

/-- Loads a class with loads nested at most as deep as given. -/
def load (src : Source) : Nat → String → BoundedLoading ClassId
  | 0, _, _ => none
  | depth + 1, name, s =>
    let s := { s with loads := s.loads + 1 }
    match s.registry.find? name, s.registry.failure? name with
    | some id, _ => some (.ok id, s)
    | none, some e => some (.error e, s)
    | none, none =>
      if name ∈ s.loading then some (.error (.circular name), s)
      else (construct src (load src depth) name (s.enter name)).map (leave name)

/-- From some depth on, the bounded operation gives the result, after finitely many loads
and with the same names under way as before. -/
def Ends {α : Type} (bounded : Nat → BoundedLoading α) (loading : Finset String)
    (reg : Registry) (result : Except Fault α × Registry) : Prop :=
  ∃ depth count, ∀ fuel loads, depth ≤ fuel →
    bounded fuel ⟨reg, loading, loads⟩ = some (result.1, ⟨result.2, loading, loads + count⟩)

variable {src : Source} {loading : Finset String} {name : String} {reg : Registry}

theorem ends_gather {load : String → Loading ClassId}
    {bounded : Nat → String → BoundedLoading ClassId} {needs : List Need} (className : String)
    (reg : Registry)
    (hload : ∀ need ∈ needs, ∀ reg, Ends (bounded · need.name) loading reg (load need.name reg)) :
    Ends (fun fuel => gather (bounded fuel) className needs) loading reg
      (Machine.gather load className needs reg) := by
  fun_induction Machine.gather load className needs reg with
  | case1 reg => exact ⟨0, 0, fun _ _ _ => rfl⟩
  | case2 need rest reg e reg₁ hload₁ =>
    obtain ⟨depth, count, hfirst⟩ := hload need List.mem_cons_self reg
    rw [hload₁] at hfirst
    refine ⟨depth, count, fun fuel loads hfuel => ?_⟩
    simp only [gather, hfirst fuel loads hfuel]
  | case3 need rest reg id reg₁ hload₁ e hobjection =>
    obtain ⟨depth, count, hfirst⟩ := hload need List.mem_cons_self reg
    rw [hload₁] at hfirst
    refine ⟨depth, count, fun fuel loads hfuel => ?_⟩
    simp only [gather, hfirst fuel loads hfuel, hobjection]
  | case4 need rest reg id reg₁ hload₁ hobjection ids reg₂ hgather ih =>
    obtain ⟨depth, count, hfirst⟩ := hload need List.mem_cons_self reg
    obtain ⟨depth', count', hrest⟩ := ih fun need hneed => hload need (List.mem_cons_of_mem _ hneed)
    rw [hload₁] at hfirst
    rw [hgather] at hrest
    refine ⟨max depth depth', count + count', fun fuel loads hfuel => ?_⟩
    rw [max_le_iff] at hfuel
    simp only [gather, hfirst fuel loads hfuel.1, hobjection, hrest fuel _ hfuel.2]
    rw [Nat.add_assoc]
    rfl

theorem ends_construct {load : String → Loading ClassId}
    {bounded : Nat → String → BoundedLoading ClassId} (reg : Registry)
    (hload : ∀ {needs}, requirements src name = .ok needs → ∀ need ∈ needs, ∀ reg,
      Ends (bounded · need.name) loading reg (load need.name reg)) :
    Ends (fun fuel => construct src (bounded fuel) name) loading reg
      (Machine.construct src load name reg) := by
  unfold Machine.construct construct
  cases hneeds : requirements src name with
  | error e => exact ⟨0, 0, fun _ _ _ => rfl⟩
  | ok needs =>
    obtain ⟨depth, count, hgather⟩ := ends_gather name reg (hload hneeds)
    refine ⟨depth, count, fun fuel loads hfuel => ?_⟩
    have hgathered := hgather fuel loads hfuel
    dsimp only at hgathered ⊢
    rw [hgathered]
    generalize Machine.gather load name needs reg = result
    obtain ⟨outcome, reg'⟩ := result
    cases outcome with
    | error e => rfl
    | ok ids =>
      dsimp only [Option.map_some]
      cases assemble src reg'.classes reg'.classes.size name ids <;> rfl

/-- A load enters its name, which was not there, and takes it out again. -/
theorem ends_fresh {bounded : Nat → BoundedLoading ClassId}
    {result : Except Fault ClassId × Registry} (hname : name ∉ loading)
    (hends : Ends bounded (insert name loading) reg result) :
    Ends (fun fuel s => (bounded fuel (s.enter name)).map (leave name)) loading reg
      (remember name result) := by
  obtain ⟨depth, count, hends⟩ := hends
  refine ⟨depth, count, fun fuel loads hfuel => ?_⟩
  simp only [enter, hends fuel loads hfuel, Option.map_some, leave, Finset.erase_insert hname]

theorem ends_load (src : Source) (name : String) (reg : Registry) (underWay : List String)
    (hloading : ∀ n, n ∈ underWay ↔ n ∈ loading) :
    Ends (load src · name) loading reg (Machine.load src underWay name reg) := by
  refine Registry.load_induction
    (P := fun underWay name reg result => ∀ loading : Finset String,
      (∀ n, n ∈ underWay ↔ n ∈ loading) → Ends (load src · name) loading reg result)
    ?found ?failed ?circular ?fresh underWay name reg loading hloading
  case found =>
    intro underWay name reg id hfind loading _
    refine ⟨1, 1, fun fuel loads hfuel => ?_⟩
    obtain ⟨fuel, rfl⟩ := Nat.exists_eq_add_of_le' hfuel
    simp only [load, hfind]
  case failed =>
    intro underWay name reg e hfind hfailure loading _
    refine ⟨1, 1, fun fuel loads hfuel => ?_⟩
    obtain ⟨fuel, rfl⟩ := Nat.exists_eq_add_of_le' hfuel
    simp only [load, hfind, hfailure]
  case circular =>
    intro underWay name reg hfind hfailure hname loading hloading
    refine ⟨1, 1, fun fuel loads hfuel => ?_⟩
    obtain ⟨fuel, rfl⟩ := Nat.exists_eq_add_of_le' hfuel
    simp only [load, hfind, hfailure, (hloading name).1 hname, if_true]
  case fresh =>
    intro underWay name reg hfind hfailure hname ih loading hloading
    have hfresh : name ∉ loading := fun hmem => hname ((hloading name).2 hmem)
    have hinsert : ∀ n, n ∈ name :: underWay ↔ n ∈ insert name loading := by
      simp [hloading]
    obtain ⟨depth, count, hends⟩ := ends_fresh hfresh
      (ends_construct reg fun hneeds need hneed reg' =>
        ih hneeds need hneed reg' _ hinsert)
    refine ⟨depth + 1, count + 1, fun fuel loads hfuel => ?_⟩
    obtain ⟨fuel, rfl⟩ := Nat.exists_eq_add_of_le' (Nat.le_of_add_left_le hfuel)
    have hended := hends fuel (loads + 1) (by omega)
    rw [Nat.add_assoc, Nat.add_comm 1] at hended
    simpa only [load, hfind, hfailure, hfresh, if_false] using hended

/-- Loading ends.  For any source, name and names under way some depth of nesting is
enough; the load then gives what `load` gives, after finitely many loads, and leaves under
way what was under way before, whether it succeeds or fails. -/
theorem load_returns (src : Source) (name : String) (s : LoadState) :
    ∃ depth count, ∀ fuel, depth ≤ fuel →
      load src fuel name s =
        some ((Machine.load src s.loading.toList name s.registry).1,
          ⟨(Machine.load src s.loading.toList name s.registry).2, s.loading, s.loads + count⟩) := by
  obtain ⟨depth, count, hends⟩ :=
    ends_load src name s.registry s.loading.toList fun n => Finset.mem_toList
  exact ⟨depth, count, fun fuel => hends fuel s.loads⟩

end LoadState

end ClassEngine.Machine
