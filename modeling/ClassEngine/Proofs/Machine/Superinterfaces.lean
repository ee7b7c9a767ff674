import ClassEngine.Proofs.Machine.PlainRoot
import ClassEngine.Proofs.Machine.Subtyping
import Mathlib.Data.List.Nodup

/-!
# The superinterfaces of a class

The interfaces of a class are gone through first, then those of its superclass, and so on; each
is followed by its own superinterfaces, and one that was seen before is passed over.  Written as
a relation the walk has no bound.  It ends for every class, and nothing is lost where it passes
over an interface: what is seen is closed under superinterfaces as soon as a class is done with.
-/

namespace ClassEngine.Machine

namespace Classes

/-- A superinterface of a class, reached in one or more steps. -/
abbrev Superinterface (cs : Classes) : ClassId → ClassId → Prop :=
  Relation.TransGen fun k i => i ∈ cs.interfaces k

def ReachedFrom (cs : Classes) (ks : List ClassId) (i : ClassId) : Prop :=
  ∃ k ∈ ks, cs.Superinterface k i

/-- The class is the nearest one, among a class and its superclasses, that the interface is
reached from. -/
structure FirstReached (cs : Classes) (id k i : ClassId) : Prop where
  mem : k ∈ cs.chain id
  reached : cs.Superinterface k i
  nearest : ∀ j ∈ cs.chain id, cs.Superinterface j i →
    (cs.chain id).idxOf k ≤ (cs.chain id).idxOf j

theorem superinterface_iff {cs : Classes} {k i : ClassId} :
    cs.Superinterface k i ↔ ∃ j ∈ cs.interfaces k, i = j ∨ cs.Superinterface j i := by
  rw [Superinterface, Relation.TransGen.head'_iff]
  simp only [Relation.reflTransGen_iff_eq_or_transGen]

/-! ## The walk -/

inductive Visits (cs : Classes) : List ClassId → List ClassId → List ClassId → Prop
  | done {seen : List ClassId} : Visits cs seen [] seen
  | again {seen rest out : List ClassId} {i : ClassId} (mem : i ∈ seen)
      (later : Visits cs seen rest out) : Visits cs seen (i :: rest) out
  | fresh {seen rest mid out : List ClassId} {i : ClassId} (notMem : i ∉ seen)
      (above : Visits cs (seen ++ [i]) (cs.interfaces i) mid)
      (later : Visits cs mid rest out) : Visits cs seen (i :: rest) out

/-- Visiting the interfaces of a class and of its superclasses, nearest first. -/
inductive VisitsAlong (cs : Classes) : List ClassId → Option ClassId → List ClassId → Prop
  | done {seen : List ClassId} : VisitsAlong cs seen none seen
  | next {seen mid out : List ClassId} {id : ClassId}
      (own : Visits cs seen (cs.interfaces id) mid)
      (later : VisitsAlong cs mid (cs.super? id) out) : VisitsAlong cs seen (some id) out

variable {cs : Classes} {seen todo out out' ks : List ClassId} {id i k : ClassId}

theorem Visits.unique (h : cs.Visits seen todo out) (h' : cs.Visits seen todo out') :
    out' = out := by
  induction h generalizing out' with
  | done =>
      cases h'
      rfl
  | again hmem _ ih =>
      cases h' with
      | again _ hlater => exact ih hlater
      | fresh hnot _ _ => exact absurd hmem hnot
  | fresh hnot _ _ ihabove ihlater =>
      cases h' with
      | again hmem _ => exact absurd hmem hnot
      | fresh _ habove hlater =>
          cases ihabove habove
          exact ihlater hlater

theorem VisitsAlong.unique {super? : Option ClassId} (h : cs.VisitsAlong seen super? out)
    (h' : cs.VisitsAlong seen super? out') : out' = out := by
  induction h generalizing out' with
  | done =>
      cases h'
      rfl
  | next hown _ ih =>
      cases h' with
      | next hown' hlater =>
          cases hown.unique hown'
          exact ih hlater

/-- Visiting ends, as superinterfaces have smaller numbers. -/
theorem visits_foldl (hdescending : cs.Descending) (htodo : ∀ i ∈ todo, i < k)
    (seen : List ClassId) : cs.Visits seen todo (todo.foldl cs.visitInterfaces seen) := by
  induction k using Nat.strongRecOn generalizing todo seen with
  | ind k ih =>
      induction todo generalizing seen with
      | nil => exact .done
      | cons i rest ihrest =>
          have hrest := ihrest fun j hj => htodo j (List.mem_cons_of_mem i hj)
          rw [List.foldl_cons, visitInterfaces_eq hdescending]
          split
          · exact .again ‹_› (hrest seen)
          · refine .fresh ‹_› (ih i (htodo i List.mem_cons_self) (fun j hj => ?_) _) (hrest _)
            exact hdescending hj

theorem visitsAlong_foldl (hdescending : cs.Descending)
    (hsuper : ∀ id, ∀ s ∈ cs.super? id, s < id) (id : ClassId) (seen : List ClassId) :
    cs.VisitsAlong seen (some id)
      (((cs.chain id).flatMap cs.interfaces).foldl cs.visitInterfaces seen) := by
  induction id using Nat.strongRecOn generalizing seen with
  | ind id ih =>
      rw [chain_eq (hsuper id), List.flatMap_cons, List.foldl_append]
      refine .next (visits_foldl hdescending (fun i hi => hdescending hi) seen) ?_
      cases hs : cs.super? id with
      | none => exact .done
      | some s => simpa using ih s (hsuper id s hs) _

/-! ## What is seen -/

theorem Visits.isPrefix (h : cs.Visits seen todo out) : seen <+: out := by
  induction h with
  | done => exact List.prefix_rfl
  | again _ _ ih => exact ih
  | fresh _ _ _ ihabove ihlater =>
      exact ((List.prefix_append _ _).trans ihabove).trans ihlater

theorem Visits.nodup (h : cs.Visits seen todo out) (hseen : seen.Nodup) : out.Nodup := by
  induction h with
  | done => exact hseen
  | again _ _ ih => exact ih hseen
  | @fresh seen rest mid out i hnot _ _ ihabove ihlater =>
      have hnew : (seen ++ [i]).Nodup :=
        List.nodup_append_comm.mp (List.nodup_cons.mpr ⟨hnot, hseen⟩)
      exact ihlater (ihabove hnew)

theorem Visits.subset (h : cs.Visits seen todo out) : todo ⊆ out := by
  induction h with
  | done => exact List.nil_subset _
  | again hmem hlater ih => exact List.cons_subset.mpr ⟨hlater.isPrefix.subset hmem, ih⟩
  | fresh _ habove hlater _ ihlater =>
      refine List.cons_subset.mpr ⟨hlater.isPrefix.subset (habove.isPrefix.subset ?_), ihlater⟩
      exact List.mem_append_right _ List.mem_cons_self

theorem Visits.closed (h : cs.Visits seen todo out) (hk : k ∈ out) (hnot : k ∉ seen) :
    cs.interfaces k ⊆ out := by
  induction h with
  | done => exact absurd hk hnot
  | again _ _ ih => exact ih hk hnot
  | @fresh seen rest mid out i _ habove hlater ihabove ihlater =>
      -- On the way up from `i`, its superinterfaces are seen once the whole walk there is done.
      by_cases hmid : k ∈ mid
      · refine fun j hj => hlater.isPrefix.subset ?_
        by_cases hki : k = i
        · subst hki
          exact habove.subset hj
        · exact ihabove hmid (by simp [hnot, hki]) hj
      · exact ihlater hk hmid

theorem Visits.reached (h : cs.Visits seen todo out) (hi : i ∈ out) :
    i ∈ seen ∨ ∃ t ∈ todo, Relation.ReflTransGen (fun k i => i ∈ cs.interfaces k) t i := by
  induction h with
  | done => exact .inl hi
  | again _ _ ih =>
      refine (ih hi).imp_right fun ⟨t, ht, hreached⟩ => ⟨t, List.mem_cons_of_mem _ ht, hreached⟩
  | @fresh seen rest mid out k _ _ _ ihabove ihlater =>
      rcases ihlater hi with hmid | ⟨t, ht, hreached⟩
      · rcases ihabove hmid with hseen | ⟨t, ht, hreached⟩
        · refine (List.mem_append.mp hseen).imp_right fun hk => ⟨k, List.mem_cons_self, ?_⟩
          rw [List.mem_singleton.mp hk]
        · exact .inr ⟨k, List.mem_cons_self, .head ht hreached⟩
      · exact .inr ⟨t, List.mem_cons_of_mem k ht, hreached⟩

structure Gathered (cs : Classes) (ks seen : List ClassId) : Prop where
  nodup : seen.Nodup
  mem_iff : ∀ i, i ∈ seen ↔ cs.ReachedFrom ks i

theorem gathered_nil (cs : Classes) : cs.Gathered [] [] where
  nodup := List.nodup_nil
  mem_iff i := by simp [ReachedFrom]

theorem Gathered.closed (h : cs.Gathered ks seen) (hk : k ∈ seen) : cs.interfaces k ⊆ seen := by
  intro i hi
  obtain ⟨j, hj, hreached⟩ := (h.mem_iff k).mp hk
  exact (h.mem_iff i).mpr ⟨j, hj, hreached.tail hi⟩

/-- When a class is done with, what is reached from it is seen as well. -/
theorem Gathered.visits (h : cs.Gathered ks seen)
    (hvisits : cs.Visits seen (cs.interfaces id) out) : cs.Gathered (ks ++ [id]) out where
  nodup := hvisits.nodup h.nodup
  mem_iff i := by
    have hclosed {k : ClassId} (hk : k ∈ out) : cs.interfaces k ⊆ out := by
      by_cases hseen : k ∈ seen
      · exact fun j hj => hvisits.isPrefix.subset (h.closed hseen hj)
      · exact hvisits.closed hk hseen
    constructor
    · intro hi
      rcases hvisits.reached hi with hseen | ⟨t, ht, hreached⟩
      · obtain ⟨k, hk, hreached⟩ := (h.mem_iff i).mp hseen
        exact ⟨k, List.mem_append_left _ hk, hreached⟩
      · exact ⟨id, List.mem_append_right _ List.mem_cons_self, .head' ht hreached⟩
    · rintro ⟨k, hk, hreached⟩
      rcases List.mem_append.mp hk with hk | hk
      · exact hvisits.isPrefix.subset ((h.mem_iff i).mpr ⟨k, hk, hreached⟩)
      · cases List.mem_singleton.mp hk
        induction hreached with
        | single hi => exact hvisits.subset hi
        | tail _ hi ih => exact hclosed ih hi

theorem VisitsAlong.gathered (hsuper : ∀ id, ∀ s ∈ cs.super? id, s < id)
    {super? : Option ClassId} (hvisits : cs.VisitsAlong seen super? out)
    (h : cs.Gathered ks seen) :
    cs.Gathered (ks ++ super?.toList.flatMap cs.chain) out ∧
      ∀ n, ∃ first, seen <+: first ∧ first <+: out ∧
        cs.Gathered (ks ++ (super?.toList.flatMap cs.chain).take n) first := by
  induction hvisits generalizing ks with
  | @done seen =>
      simp only [Option.toList_none, List.flatMap_nil, List.append_nil, List.take_nil]
      exact ⟨h, fun _ => ⟨seen, List.prefix_rfl, List.prefix_rfl, h⟩⟩
  | @next seen mid out id hown hlater ih =>
      have hchain : (some id).toList.flatMap cs.chain =
          id :: (cs.super? id).toList.flatMap cs.chain := by
        rw [Option.toList_some, List.flatMap_singleton, chain_eq (hsuper id)]
      obtain ⟨hall, hfirst⟩ := ih (h.visits hown)
      rw [hchain]
      refine ⟨by simpa using hall, fun n => ?_⟩
      cases n with
      | zero =>
          obtain ⟨first, hprefix, hout, -⟩ := hfirst 0
          exact ⟨seen, List.prefix_rfl, (hown.isPrefix.trans hprefix).trans hout, by simpa using h⟩
      | succ n =>
          obtain ⟨first, hprefix, hout, hgathered⟩ := hfirst n
          exact ⟨first, hown.isPrefix.trans hprefix, hout, by simpa using hgathered⟩

theorem idxOf_lt_of_prefix {first l : List ClassId} {i j : ClassId} (h : first <+: l)
    (hi : i ∈ first) (hj : j ∉ first) : l.idxOf i < l.idxOf j := by
  obtain ⟨rest, rfl⟩ := h
  rw [List.idxOf_append_of_mem hi, List.idxOf_append_of_notMem hj]
  exact Nat.lt_add_right _ (List.idxOf_lt_length_of_mem hi)

end Classes

/-- The walk over the superinterfaces of a class ends, with the same list whatever the course.
The list has just the interfaces that are reached from the class or one of its superclasses, in
one or more steps, each once; those that are first reached from a nearer class come before those
that are first reached from a farther one. -/
theorem superinterfaces_exact (source? : Option Search.Source) (maxFrames : Int)
    (profiler? : Option (Profiler MethodId)) (calls : List HostCall) (id : ClassId) (c : Class) :
    let cs := ((Vm.start source? maxFrames profiler?).answer calls).registry.classes
    let interfaces := cs.allInterfaces c.interfaces c.super?
    cs[id]? = some c →
      (∀ out, cs.VisitsAlong [] (some id) out ↔ out = interfaces) ∧
      interfaces.Nodup ∧
      (∀ i ∈ interfaces, ∃ d, cs[i]? = some d ∧ d.isInterface = true) ∧
      (∀ i, i ∈ interfaces ↔ ∃ k ∈ cs.chain id, cs.Superinterface k i) ∧
      ∀ i j k l, cs.FirstReached id k i → cs.FirstReached id l j →
        (cs.chain id).idxOf k < (cs.chain id).idxOf l →
          interfaces.idxOf i < interfaces.idxOf j := by
  intro cs interfaces hc
  have hcoherent := Vm.coherent_start source? maxFrames profiler? calls
  have hsuper : ∀ id, ∀ s ∈ cs.super? id, s < id := hcoherent.super?_lt
  have hroots : cs.interfaceRoots c.interfaces c.super? = (cs.chain id).flatMap cs.interfaces := by
    rw [Classes.chain_eq (hsuper id)]
    simp [Classes.interfaceRoots, Classes.interfaces, Classes.super?, hc]
  have hwalk : cs.VisitsAlong [] (some id) interfaces := by
    have := Classes.visitsAlong_foldl hcoherent.descending hsuper id []
    rwa [← hroots, ← Classes.allInterfaces_eq] at this
  obtain ⟨hall, hfirst⟩ := hwalk.gathered hsuper cs.gathered_nil
  simp only [List.nil_append, Option.toList_some, List.flatMap_singleton] at hall hfirst
  refine ⟨fun out => ⟨hwalk.unique, ?_⟩, hall.nodup, fun i hi => ?_, hall.mem_iff, ?_⟩
  · rintro rfl
    exact hwalk
  · obtain ⟨k, -, hreached⟩ := (hall.mem_iff i).mp hi
    obtain ⟨j, -, hj⟩ := Relation.TransGen.tail'_iff.mp hreached
    exact hcoherent.interface_of_mem hj
  · intro i j k l hi hj hlt
    obtain ⟨first, -, hprefix, hgathered⟩ := hfirst ((cs.chain id).idxOf k + 1)
    refine Classes.idxOf_lt_of_prefix hprefix ((hgathered.mem_iff i).mpr ⟨k, ?_, hi.reached⟩) ?_
    · exact (List.mem_take_iff_idxOf_lt hi.mem).mpr (Nat.lt_succ_self _)
    · intro hmem
      obtain ⟨m, hm, hreached⟩ := (hgathered.mem_iff j).mp hmem
      have hmchain : m ∈ cs.chain id := List.mem_of_mem_take hm
      have hmlt := (List.mem_take_iff_idxOf_lt hmchain).mp hm
      have hle := hj.nearest m hmchain hreached
      omega

/-! ## An interface reached in three ways -/

namespace Diamond

def generalFile : List UInt8 := [
  0xca, 0xfe, 0xba, 0xbe, 0x00, 0x00, 0x00, 0x34, 0x00, 0x05, 0x01, 0x00, 0x01, 0x49, 0x07, 0x00,
  0x01, 0x01, 0x00, 0x10, 0x6a, 0x61, 0x76, 0x61, 0x2f, 0x6c, 0x61, 0x6e, 0x67, 0x2f, 0x4f, 0x62,
  0x6a, 0x65, 0x63, 0x74, 0x07, 0x00, 0x03, 0x06, 0x01, 0x00, 0x02, 0x00, 0x04, 0x00, 0x00, 0x00,
  0x00, 0x00, 0x00, 0x00, 0x00]

def fileBelowRoot (name interface : Char) (flags : List UInt8) : List UInt8 :=
  [0xca, 0xfe, 0xba, 0xbe, 0x00, 0x00, 0x00, 0x34, 0x00, 0x07, 0x01, 0x00, 0x01, name.toUInt8, 0x07,
    0x00, 0x01, 0x01, 0x00, 0x10, 0x6a, 0x61, 0x76, 0x61, 0x2f, 0x6c, 0x61, 0x6e, 0x67, 0x2f, 0x4f,
    0x62, 0x6a, 0x65, 0x63, 0x74, 0x07, 0x00, 0x03, 0x01, 0x00, 0x01, interface.toUInt8, 0x07, 0x00,
    0x05] ++ flags ++
  [0x00, 0x02, 0x00, 0x04, 0x00, 0x01, 0x00, 0x06, 0x00, 0x00, 0x00, 0x00, 0x00, 0x00]

def derivedFile : List UInt8 := [
  0xca, 0xfe, 0xba, 0xbe, 0x00, 0x00, 0x00, 0x34, 0x00, 0x07, 0x01, 0x00, 0x01, 0x44, 0x07, 0x00,
  0x01, 0x01, 0x00, 0x01, 0x42, 0x07, 0x00, 0x03, 0x01, 0x00, 0x01, 0x4b, 0x07, 0x00, 0x05, 0x00,
  0x21, 0x00, 0x02, 0x00, 0x04, 0x00, 0x01, 0x00, 0x06, 0x00, 0x00, 0x00, 0x00, 0x00, 0x00]

/-- The interfaces `J` and `K` extend `I`, and the class `B` implements `J`. -/
def files : Search.Memory :=
  ⟨[(ClassFile.rootClassName, .ok PlainRoot.file), ("I", .ok generalFile),
    ("J", .ok (fileBelowRoot 'J' 'I' [0x06, 0x01])),
    ("K", .ok (fileBelowRoot 'K' 'I' [0x06, 0x01])),
    ("B", .ok (fileBelowRoot 'B' 'J' [0x00, 0x21])), ("D", .ok derivedFile)]⟩

def vm : Vm := Vm.start (some files.source) 0 none

def typeOf (name : String) (flags : UInt16) (super? : Option ClassId) (interfaces : List ClassId)
    (above : List String) : Class :=
  { PlainRoot.root with
    name
    flags
    super?
    interfaces
    pool := ⟨(none :: (name :: above).zipIdx.flatMap fun (text, i) =>
      [some (.utf8 text), some (.classRef (UInt16.ofNat (2 * i + 1)))]).toArray⟩ }

def general : Class := typeOf "I" 0x0601 (some 0) [] [ClassFile.rootClassName]

def left : Class := typeOf "J" 0x0601 (some 0) [1] [ClassFile.rootClassName, "I"]

def base : Class := typeOf "B" 0x0021 (some 0) [2] [ClassFile.rootClassName, "J"]

def right : Class := typeOf "K" 0x0601 (some 0) [1] [ClassFile.rootClassName, "I"]

def derived : Class := typeOf "D" 0x0021 (some 3) [4] ["B", "K"]

def withGeneral : Registry := (PlainRoot.registry.add general .linked #[]).2

def withLeft : Registry := (withGeneral.add left .linked #[]).2

def withBase : Registry := (withLeft.add base .linked #[]).2

def withRight : Registry := (withBase.add right .linked #[]).2

def withDerived : Registry := (withRight.add derived .linked #[]).2

theorem load_general :
    load vm.source ["J", "B", "D"] "I" PlainRoot.registry = (.ok 1, withGeneral) := by
  have hgather : gather (load vm.source ["I", "J", "B", "D"]) "I"
      [⟨.superclass, ClassFile.rootClassName⟩] PlainRoot.registry = (.ok [0], PlainRoot.registry) :=
    Registry.gather_cons (Registry.load_of_found PlainRoot.find?_registry) (by decide) rfl
  exact Registry.load_of_gathered PlainRoot.registry general (by with_unfolding_all decide)
    (by decide)
    (by decide) (by with_unfolding_all decide) hgather (by with_unfolding_all decide)

theorem load_left : load vm.source ["B", "D"] "J" PlainRoot.registry = (.ok 2, withLeft) := by
  have hgather : gather (load vm.source ["J", "B", "D"]) "J"
      [⟨.superclass, ClassFile.rootClassName⟩, ⟨.superinterface, "I"⟩] PlainRoot.registry =
        (.ok [0, 1], withGeneral) :=
    Registry.gather_cons (Registry.load_of_found PlainRoot.find?_registry) (by decide)
      (Registry.gather_cons load_general (by decide) rfl)
  exact Registry.load_of_gathered withGeneral left (by with_unfolding_all decide) (by decide)
    (by decide) (by with_unfolding_all decide) hgather (by with_unfolding_all decide)

theorem load_base : load vm.source ["D"] "B" {} = (.ok 3, withBase) := by
  have hgather : gather (load vm.source ["B", "D"]) "B"
      [⟨.superclass, ClassFile.rootClassName⟩, ⟨.superinterface, "J"⟩] {} =
        (.ok [0, 2], withLeft) :=
    Registry.gather_cons (PlainRoot.load_root rfl (by decide)) (by decide)
      (Registry.gather_cons load_left (by decide) rfl)
  exact Registry.load_of_gathered withLeft base (by with_unfolding_all decide) (by decide)
    (by decide) (by with_unfolding_all decide) hgather (by with_unfolding_all decide)

theorem load_right : load vm.source ["D"] "K" withBase = (.ok 4, withRight) := by
  have hroot : withBase.find? ClassFile.rootClassName = some 0 := by with_unfolding_all decide
  have hgeneral : withBase.find? "I" = some 1 := by with_unfolding_all decide
  have hgather : gather (load vm.source ["K", "D"]) "K"
      [⟨.superclass, ClassFile.rootClassName⟩, ⟨.superinterface, "I"⟩] withBase =
        (.ok [0, 1], withBase) :=
    Registry.gather_cons (Registry.load_of_found hroot) (by decide)
      (Registry.gather_cons (Registry.load_of_found hgeneral) (by decide) rfl)
  exact Registry.load_of_gathered withBase right (by with_unfolding_all decide) (by decide)
    (by decide) (by with_unfolding_all decide) hgather (by with_unfolding_all decide)

theorem load_derived : load vm.source [] "D" {} = (.ok 5, withDerived) := by
  have hgather : gather (load vm.source ["D"]) "D"
      [⟨.superclass, "B"⟩, ⟨.superinterface, "K"⟩] {} = (.ok [3, 4], withRight) :=
    Registry.gather_cons load_base (by decide) (Registry.gather_cons load_right (by decide) rfl)
  exact Registry.load_of_gathered withRight derived (by with_unfolding_all decide) (by decide)
    (by decide) (by with_unfolding_all decide) hgather (by with_unfolding_all decide)

/-- `K` comes first.  From the class `D` itself `I` is reached as well, through `K`, so that it
precedes `J`, from which it is reached once more. -/
theorem superinterfaces_exact_diamond :
    let cs := (vm.answer [.request 0 (.load "D")]).registry.classes
    cs[5]? = some derived ∧
      cs.allInterfaces derived.interfaces derived.super? = [4, 1, 2] ∧
      cs.VisitsAlong [] (some 5) [4, 1, 2] ∧
      [4, 1, 2].Nodup ∧
      (∃ d, cs[1]? = some d ∧ d.isInterface = true) ∧
      (∃ k ∈ cs.chain 5, cs.Superinterface k 2) ∧
      cs.FirstReached 5 5 1 ∧ cs.FirstReached 5 3 2 ∧
      [4, 1, 2].idxOf 1 < [4, 1, 2].idxOf 2 := by
  intro cs
  have hcs : cs = #[PlainRoot.root, general, left, base, right, derived] :=
    congrArg (·.registry.classes) (Vm.answer_load 0 load_derived)
  have hderived : cs[5]? = some derived := by rw [hcs]; rfl
  have hinterfaces : cs.allInterfaces derived.interfaces derived.super? = [4, 1, 2] := by
    rw [hcs]; decide +kernel
  have hchain : cs.chain 5 = [5, 3, 0] := by rw [hcs]; decide +kernel
  have hinterfaces1 : cs.interfaces 1 = [] := by rw [hcs]; rfl
  have hinterfaces3 : cs.interfaces 3 = [2] := by rw [hcs]; rfl
  have hinterfaces4 : cs.interfaces 4 = [1] := by rw [hcs]; rfl
  have hinterfaces5 : cs.interfaces 5 = [4] := by rw [hcs]; rfl
  have hgeneral : cs.FirstReached 5 5 1 := by
    have hright : 4 ∈ cs.interfaces 5 := by simp [hinterfaces5]
    refine ⟨by simp [hchain], .head hright (.single ?_), ?_⟩
    · simp [hinterfaces4]
    · simp [hchain]
  have hleft : cs.FirstReached 5 3 2 := by
    have hnot1 : ¬cs.Superinterface 1 2 := by
      rw [Classes.superinterface_iff, hinterfaces1]
      simp
    have hnot4 : ¬cs.Superinterface 4 2 := by
      rw [Classes.superinterface_iff, hinterfaces4]
      simp [hnot1]
    have hnot5 : ¬cs.Superinterface 5 2 := by
      rw [Classes.superinterface_iff, hinterfaces5]
      simp [hnot4]
    refine ⟨by simp [hchain], .single (by simp [hinterfaces3]), ?_⟩
    simp [hchain, hnot5]
  obtain ⟨hvisits, hnodup, hkind, hreached, hbefore⟩ :=
    superinterfaces_exact (some files.source) 0 none [.request 0 (.load "D")] 5 derived hderived
  have hbase : (cs.chain 5).idxOf 5 < (cs.chain 5).idxOf 3 := by rw [hchain]; decide
  have hmem (i : ClassId) (hi : i ∈ [4, 1, 2]) :
      i ∈ cs.allInterfaces derived.interfaces derived.super? := by
    rwa [hinterfaces]
  refine ⟨hderived, hinterfaces, ?_⟩
  rw [← hinterfaces]
  exact ⟨(hvisits _).mpr rfl, hnodup, hkind 1 (hmem 1 (by decide)),
    (hreached 2).mp (hmem 2 (by decide)), hgeneral, hleft, hbefore 1 2 5 3 hgeneral hleft hbase⟩

end Diamond

end ClassEngine.Machine
