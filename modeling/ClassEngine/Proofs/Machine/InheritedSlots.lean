import ClassEngine.Proofs.Machine.Overriding

/-!
# Inherited slots

The table of a class has the slots of its superclass's table, and possibly more.  A slot keeps
its name and descriptor.  The method in it changes only to one that overrides it, or to a
default method where an interface left it abstract.  The index of every table leads to the last
slot of each name and descriptor.
-/

namespace ClassEngine.Machine

theorem Registry.Coherent.develops {src : Search.Source} {reg : Registry} (h : reg.Coherent src)
    {id s : ClassId} {c : Class} (hc : reg.classes[id]? = some c) (hs : c.super? = some s) :
    ∃ p, reg.classes[s]? = some p ∧
      VTable.Develops (VTable.ReplacedBy reg.classes c.methods (reg.classes.superinterfaces c))
        p.vtable c.vtable := by
  obtain ⟨p, hp, -⟩ := h.named hc (.inl hs)
  have hinherited : reg.classes.inheritedTable c = p.vtable := by
    simp [Classes.inheritedTable, hs, hp]
  refine ⟨p, hp, ?_⟩
  rw [(h.origin hc).vtable, hinherited]
  exact (VTable.build_step (h.indexed hp) _ _ _).2

/-- The index of the table of a class has the names and descriptors of the methods in its slots,
and no others, and leads to the last slot of each.  The slots of the superclass are slots of the
class as well: each has a method of the same name and descriptor, the same one or one that has
come into its place by replacements. -/
theorem tables_represented (source? : Option Search.Source) (maxFrames : Int)
    (profiler? : Option (Profiler MethodId)) (calls : List HostCall) (id : ClassId) (c : Class) :
    let cs := ((Vm.start source? maxFrames profiler?).answer calls).registry.classes
    cs[id]? = some c →
      (∀ name descriptor, (c.vtable.slotOf? name descriptor).isSome = true ↔
        ∃ m ∈ c.vtable.slots, m.name = name ∧ m.descriptor = descriptor) ∧
      (∀ name descriptor i, c.vtable.slotOf? name descriptor = some i →
        c.vtable.IsLast ⟨name, descriptor⟩ i) ∧
      ∀ s, c.super? = some s → ∃ p, cs[s]? = some p ∧
        p.vtable.slots.size ≤ c.vtable.slots.size ∧
        ∀ (i : Nat) (old : Method), p.vtable.slots[i]? = some old →
          ∃ new, c.vtable.slots[i]? = some new ∧
            new.name = old.name ∧ new.descriptor = old.descriptor ∧
            Relation.ReflTransGen
              (VTable.ReplacedBy cs c.methods (cs.superinterfaces c)) old new := by
  intro cs hc
  have hcoherent := Vm.coherent_start source? maxFrames profiler? calls
  have hindexed := hcoherent.indexed hc
  refine ⟨fun name descriptor => hindexed.isSome_iff, fun _ _ _ => hindexed.isLast, ?_⟩
  intro s hs
  obtain ⟨p, hp, hdevelops⟩ := hcoherent.develops hc hs
  refine ⟨p, hp, hdevelops.size_le, fun i old hold => ?_⟩
  obtain ⟨new, hnew, hreplaced⟩ := hdevelops i old hold
  obtain ⟨hname, hdescriptor⟩ := Method.key_inj.mp (VTable.key_of_replacements hreplaced)
  exact ⟨new, hnew, hname, hdescriptor, hreplaced⟩

namespace HiddenMethod

def loadBoth : List HostCall :=
  [.request 0 (.load "B"), .resolve .method 1 10, .request 0 (.load "java/lang/Near")]

theorem registry_loadBoth : (start.answer loadBoth).registry = withNear := by
  have hload : load linked.source [] "java/lang/Near" linked.registry = (.ok 2, withNear) :=
    load_near
  have hserve : Exec.serve 0 (.load "java/lang/Near") linked =
      .ok () { linked with registry := withNear } := by
    rw [Exec.serve, Exec.bind_apply, Exec.loadClass_apply, hload]
    rfl
  show (Exec.after (Exec.serve 0 (.load "java/lang/Near")) (Exec.after
    (Exec.answer (.resolve .method 1 10)) (Exec.after (Exec.answer (.request 0 (.load "B")))
      start))).registry = withNear
  rw [Exec.after_ok answer_load, Exec.after_ok answer_resolve, Exec.after_ok hserve]

/-- In the other package `hidden` gets a slot of its own, and the index leads there.  In the
package of the root class it takes the inherited slot. -/
theorem tables_represented_hidden :
    let cs := (start.answer loadBoth).registry.classes
    cs[1]? = some subclass ∧ cs[2]? = some nearClass ∧
      subclass.vtable.slotOf? "hidden" "()I" = some 1 ∧
      subclass.vtable.IsLast ⟨"hidden", "()I"⟩ 1 ∧
      root.vtable.slots[0]? = some hidden ∧ subclass.vtable.slots[0]? = some hidden ∧
      nearClass.vtable.slots[0]? = some near ∧
      Relation.ReflTransGen
        (VTable.ReplacedBy cs nearClass.methods (cs.superinterfaces nearClass)) hidden near := by
  intro cs
  have hcs : cs = #[root, subclass, nearClass] := congrArg Registry.classes registry_loadBoth
  have hsubclass : cs[1]? = some subclass := by rw [hcs]; rfl
  have hnear : cs[2]? = some nearClass := by rw [hcs]; rfl
  have hslot : subclass.vtable.slotOf? "hidden" "()I" = some 1 := by decide +kernel
  obtain ⟨-, hlast, -⟩ :=
    tables_represented (some files.source) 0 none loadBoth 1 subclass hsubclass
  obtain ⟨-, -, hslots⟩ :=
    tables_represented (some files.source) 0 none loadBoth 2 nearClass hnear
  obtain ⟨p, hp, -, hinherited⟩ := hslots 0 rfl
  have hroot : cs[0]? = some root := by rw [hcs]; rfl
  cases hroot.symm.trans hp
  obtain ⟨new, hnew, -, -, hreplaced⟩ := hinherited 0 hidden rfl
  cases (rfl : nearClass.vtable.slots[0]? = some near).symm.trans hnew
  exact ⟨hsubclass, hnear, hslot, hlast "hidden" "()I" 1 hslot, rfl, rfl, rfl, hreplaced⟩

end HiddenMethod

end ClassEngine.Machine
