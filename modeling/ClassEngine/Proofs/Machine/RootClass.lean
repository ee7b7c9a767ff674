import ClassEngine.Proofs.ClassFile.Taking
import ClassEngine.Proofs.Machine.LoadOrder
import ClassEngine.Proofs.Machine.PlainRoot
import ClassEngine.Proofs.Machine.RegistryLaw

/-!
# The root of the hierarchy

A file without an item for its superclass is that of the root class.  A file with one may
still come out without the name of a superclass, if the item leads to the empty text; apart
from such files there is one root class, at which every chain of superclasses ends.
-/

namespace ClassEngine

namespace ClassFile

open ClassFile.Parser

/-- The pool of a file and its item for the superclass. -/
def superItem : Parser (Pool × UInt16) := do
  let _ ← u4
  let _ ← u2
  let _ ← u2
  let p ← Parser.pool
  let _ ← u2
  let _ ← u2
  let index ← u2
  return (p, index)

/-- The item for the superclass of the file leads to the empty text. -/
def NamelessSuper (bs : List UInt8) : Prop :=
  ∃ p index rest, superItem ⟨0, bs⟩ = .ok ((p, index), rest) ∧ index ≠ 0 ∧
    p.className index = .ok ""

variable {bs : List UInt8} {file : ClassFile}

theorem classFile_of_parse (h : parse bs = .ok file) :
    ∃ rest, classFile ⟨0, bs⟩ = .ok (file, rest) := by
  rw [parse, runOn] at h
  cases hread : classFile ⟨0, bs⟩ with
  | error e =>
      rw [hread] at h
      cases h
  | ok r =>
      rw [hread] at h
      dsimp only at h
      split at h <;> cases h
      exact ⟨r.2, rfl⟩

/-- Where the item is zero the class is the root class, and else the item names the superclass. -/
theorem superName_eq_ok {p : Pool} {name superName : String} {input rest : Input}
    (h : Parser.superName p name input = .ok (superName, rest)) :
    ∃ index rest', u2 input = .ok (index, rest') ∧
      (index = 0 ∧ name = rootClassName ∨ index ≠ 0 ∧ p.className index = .ok superName) := by
  obtain ⟨index, rest', hindex, h⟩ := bind_eq_ok h
  refine ⟨index, rest', hindex, ?_⟩
  split at h
  · rename_i hzero
    split at h
    · rename_i hname
      exact .inl ⟨hzero, hname⟩
    · cases h
  · rename_i hne
    cases hname : p.className index with
    | error e =>
        rw [hname] at h
        cases h
    | ok text =>
        rw [hname] at h
        cases h
        exact .inr ⟨hne, rfl⟩

theorem exists_superItem (h : parse bs = .ok file) :
    ∃ index rest, superItem ⟨0, bs⟩ = .ok ((file.pool, index), rest) ∧
      (index = 0 ∧ file.name = rootClassName ∨
        index ≠ 0 ∧ file.pool.className index = .ok file.superName) := by
  obtain ⟨rest, h⟩ := classFile_of_parse h
  unfold classFile at h
  obtain ⟨word, i₁, hword, h⟩ := bind_eq_ok h
  split at h
  · cases h
  obtain ⟨minor, i₂, hminor, h⟩ := bind_eq_ok h
  obtain ⟨major, i₃, hmajor, h⟩ := bind_eq_ok h
  split at h
  · cases h
  obtain ⟨p, i₄, hpool, h⟩ := bind_eq_ok h
  obtain ⟨flags, i₅, hflags, h⟩ := bind_eq_ok h
  obtain ⟨thisClass, i₆, hthis, h⟩ := bind_eq_ok h
  obtain ⟨name, i₇, hname, h⟩ := bind_eq_ok h
  obtain ⟨superName, i₈, hsuper, h⟩ := bind_eq_ok h
  obtain ⟨interfaces, i₉, -, h⟩ := bind_eq_ok h
  obtain ⟨fields, i₁₀, -, h⟩ := bind_eq_ok h
  obtain ⟨methods, i₁₁, -, h⟩ := bind_eq_ok h
  obtain ⟨sourceFile, i₁₂, -, h⟩ := bind_eq_ok h
  cases h
  have hsame : i₇ = i₆ := by
    cases hthisName : p.className thisClass with
    | error e => simp [within, fromPool, lift, hthisName, Except.mapError] at hname
    | ok text =>
        simp [within, fromPool, lift, hthisName, Except.mapError] at hname
        exact hname.2.symm
  obtain ⟨index, rest', hindex, hcases⟩ := superName_eq_ok hsuper
  refine ⟨index, rest', ?_, hcases⟩
  rw [hsame] at hindex
  simp only [superItem, bind_apply, hword, hminor, hmajor, hpool, hflags, hthis, hindex]
  rfl

theorem name_of_superName_empty (h : parse bs = .ok file) (hnamed : ¬ NamelessSuper bs)
    (hsuper : file.superName = "") : file.name = rootClassName := by
  obtain ⟨index, rest, hitem, ⟨-, hname⟩ | ⟨hindex, hclass⟩⟩ := exists_superItem h
  · exact hname
  · exact absurd ⟨file.pool, index, rest, hitem, hindex, hsuper ▸ hclass⟩ hnamed

end ClassFile

namespace Machine

open ClassFile (NamelessSuper)

section

variable {src : Search.Source} {cs : Classes} {id : ClassId} {c : Class} {name : String}
  {file : ClassFile}

theorem find_of_readClass (h : readClass src name = .ok file) :
    ∃ bs, src.find name = .ok bs ∧ ClassFile.parse bs = .ok file := by
  unfold readClass at h
  split at h
  · cases h
  · cases h
  · rename_i bs hfind
    refine ⟨bs, hfind, ?_⟩
    split at h
    · cases h
    · rename_i file' hparse
      split at h <;> cases h
      exact hparse

theorem Origin.superName_of_super?_eq_none (h : Origin src cs id c) (hs : c.super? = none) :
    ∃ file, readClass src c.name = .ok file ∧ file.superName = "" := by
  obtain ⟨needs, ids, statics, hneeds, hfills, hassemble⟩ := h
  cases harray : isArrayName c.name with
  | true =>
      obtain ⟨element, root, rest, -, -, hlink⟩ := assemble_array harray hassemble
      rw [← hlink] at hs
      cases hs
  | false =>
      obtain ⟨file, fields, methods, hread, -, -, hlink⟩ := assemble_file harray hassemble
      refine ⟨file, hread, ?_⟩
      by_contra hsuper
      have hhead : (declaration file ids fields methods).super? = none := by
        rw [← hs, ← hlink]
        rfl
      simp only [declaration, hsuper, if_false, List.head?_eq_none_iff] at hhead
      subst hhead
      simp only [requirements, harray, hread, Bool.false_eq_true, if_false, Except.map, superNeeds,
        hsuper, List.singleton_append, Except.ok.injEq] at hneeds
      subst hneeds
      cases hfills

/-- Whatever file the source gives for the class, its item for the superclass does not lead to
the empty text. -/
def NamesSuper (src : Search.Source) (c : Class) : Prop :=
  ∀ bs, src.find c.name = .ok bs → ¬ NamelessSuper bs

theorem Origin.name_of_super?_eq_none (h : Origin src cs id c) (hnamed : NamesSuper src c)
    (hs : c.super? = none) : c.name = ClassFile.rootClassName := by
  obtain ⟨file, hread, hsuper⟩ := h.superName_of_super?_eq_none hs
  obtain ⟨bs, hfind, hparse⟩ := find_of_readClass hread
  rw [← Registry.name_of_readClass hread]
  exact ClassFile.name_of_superName_empty hparse (hnamed bs hfind) hsuper

end

namespace Registry

variable {src : Search.Source} {reg : Registry} {id : ClassId} {c : Class}

theorem Coherent.exists_getLast?_chain (h : reg.Coherent src) (hc : reg.classes[id]? = some c) :
    ∃ k d, (reg.classes.chain id).getLast? = some k ∧ reg.classes[k]? = some d ∧
      d.super? = none := by
  induction id using Nat.strongRecOn generalizing c with
  | ind id ih =>
      rw [Classes.chain_eq (h.super?_lt id)]
      have hsuper : reg.classes.super? id = c.super? := by simp [Classes.super?, hc]
      rw [hsuper]
      cases hs : c.super? with
      | none => exact ⟨id, c, rfl, hc, hs⟩
      | some s =>
          obtain ⟨p, hp, -⟩ := h.named hc (.inl hs)
          obtain ⟨k, d, hlast, hd⟩ := ih s ((h.origin hc).lt (.inl hs)) hp
          refine ⟨k, d, ?_, hd⟩
          simp [List.getLast?_cons, hlast]

end Registry

/-- There is one root class.  A file that is read gives no name of a superclass only if it is that
of the root class.  In every session a loaded class of another name has a superclass, and its
chain of superclasses ends with the root class.  Files whose item for the superclass leads to the
empty text are set aside. -/
theorem single_root (source? : Option Search.Source) (maxFrames : Int)
    (profiler? : Option (Profiler MethodId)) (calls : List HostCall) :
    (∀ (bs : List UInt8) (file : ClassFile), ClassFile.parse bs = .ok file →
      ¬ NamelessSuper bs → file.superName = "" → file.name = ClassFile.rootClassName) ∧
    let vm := (Vm.start source? maxFrames profiler?).answer calls
    let cs := vm.registry.classes
    ∀ (id : ClassId) (c : Class), cs[id]? = some c →
      (∀ k ∈ cs.chain id, ∀ d, cs[k]? = some d → NamesSuper vm.source d) →
        (c.name ≠ ClassFile.rootClassName → c.super?.isSome) ∧
          ∃ k d, (cs.chain id).getLast? = some k ∧ cs[k]? = some d ∧
            d.name = ClassFile.rootClassName := by
  refine ⟨fun bs file h hnamed hsuper => ClassFile.name_of_superName_empty h hnamed hsuper, ?_⟩
  intro vm cs id c hc hnamed
  have hcoherent : vm.registry.Coherent vm.source :=
    Vm.coherent_start source? maxFrames profiler? calls
  have hid : id ∈ cs.chain id := by
    rw [Classes.chain]
    exact List.mem_cons_self
  constructor
  · intro hname
    rw [Option.isSome_iff_ne_none]
    intro hs
    exact hname ((hcoherent.origin hc).name_of_super?_eq_none (hnamed id hid c hc) hs)
  · obtain ⟨k, d, hlast, hd, hs⟩ := hcoherent.exists_getLast?_chain hc
    have hk : k ∈ cs.chain id := List.mem_of_getLast? hlast
    exact ⟨k, d, hlast, hd, (hcoherent.origin hd).name_of_super?_eq_none (hnamed k hk d hd) hs⟩

/-! ## A file whose superclass has no name -/

namespace Orphan

/-- A file of the class `A`; its item for the superclass leads to the empty text. -/
def orphanFile : List UInt8 := [
  0xca, 0xfe, 0xba, 0xbe, 0x00, 0x00, 0x00, 0x34, 0x00, 0x05, 0x01, 0x00, 0x01, 0x41, 0x07, 0x00,
  0x01, 0x01, 0x00, 0x00, 0x07, 0x00, 0x03, 0x00, 0x21, 0x00, 0x02, 0x00, 0x04, 0x00, 0x00, 0x00,
  0x00, 0x00, 0x00, 0x00, 0x00]

def files : Search.Memory :=
  ⟨[(ClassFile.rootClassName, .ok PlainRoot.file), ("A", .ok orphanFile)]⟩

def vm : Vm := Vm.start (some files.source) 0 none

def ints : Class := linkArray #[PlainRoot.root] "[I" 0 ⟨'I', none⟩

def orphan : Class :=
  { PlainRoot.root with
    name := "A"
    pool := ⟨#[none, some (.utf8 "A"), some (.classRef 1), some (.utf8 ""), some (.classRef 3)]⟩ }

def withInts : Registry := (PlainRoot.registry.add ints .initialized #[]).2

def withOrphan : Registry := (({} : Registry).add orphan .linked #[]).2

theorem load_ints : load vm.source [] "[I" {} = (.ok 1, withInts) := by
  have hgather : gather (load vm.source ["[I"]) "[I" [⟨.part, ClassFile.rootClassName⟩] {} =
      (.ok [0], PlainRoot.registry) :=
    Registry.gather_cons (PlainRoot.load_root rfl (by decide)) (by decide) rfl
  exact Registry.load_of_gathered PlainRoot.registry ints (by with_unfolding_all decide) (by decide)
    (by decide) (by decide) hgather (by decide)

theorem load_orphan : load vm.source [] "A" {} = (.ok 0, withOrphan) :=
  Registry.load_alone orphan (by decide) (by decide) (by decide)

theorem not_namelessSuper_file : ¬ NamelessSuper PlainRoot.file := by
  rintro ⟨p, index, rest, hitem, hne, -⟩
  have hzero : (ClassFile.superItem ⟨0, PlainRoot.file⟩).toOption.map (·.1.2) = some 0 := by
    decide
  rw [hitem] at hzero
  exact hne (Option.some.inj hzero)

theorem namesSuper_root : NamesSuper vm.source PlainRoot.root := by
  intro bs hfind
  have hroot : vm.source.find PlainRoot.root.name = .ok PlainRoot.file := rfl
  rw [hroot] at hfind
  cases hfind
  exact not_namelessSuper_file

theorem namesSuper_ints : NamesSuper vm.source ints := by
  intro bs hfind
  have hints : (vm.source.find ints.name).toOption = none := by decide
  rw [hfind] at hints
  cases hints

theorem namesSuper_of_withInts {k : ClassId} {d : Class}
    (hd : withInts.classes[k]? = some d) : NamesSuper vm.source d := by
  match k with
  | 0 => exact Option.some.inj (show some PlainRoot.root = some d from hd) ▸ namesSuper_root
  | 1 => exact Option.some.inj (show some ints = some d from hd) ▸ namesSuper_ints
  | k + 2 => cases hd

theorem single_root_ints :
    (∃ file, ClassFile.parse PlainRoot.file = .ok file ∧ file.superName = "" ∧
      file.name = ClassFile.rootClassName) ∧
    let cs := (vm.answer [.request 0 (.load "[I")]).registry.classes
    cs[1]? = some ints ∧ ints.super?.isSome ∧
      ∃ k d, (cs.chain 1).getLast? = some k ∧ cs[k]? = some d ∧
        d.name = ClassFile.rootClassName := by
  have hvm : vm.answer [.request 0 (.load "[I")] = { vm with registry := withInts } :=
    Vm.answer_load 0 load_ints
  have hints : (vm.answer [.request 0 (.load "[I")]).registry.classes[1]? = some ints := by
    rw [hvm]
    rfl
  obtain ⟨hfiles, hclasses⟩ := single_root (some files.source) 0 none [.request 0 (.load "[I")]
  constructor
  · have hread : (ClassFile.parse PlainRoot.file).toOption.map (·.superName) = some "" := by
      decide
    cases hparse : ClassFile.parse PlainRoot.file with
    | error e =>
        rw [hparse] at hread
        cases hread
    | ok file =>
        rw [hparse] at hread
        have hsuper : file.superName = "" := Option.some.inj hread
        exact ⟨file, rfl, hsuper, hfiles PlainRoot.file file hparse not_namelessSuper_file hsuper⟩
  · obtain ⟨hsuper, hchain⟩ := hclasses 1 ints hints (by
      intro k _ d hd
      have hsession : (Vm.start (some files.source) 0 none).answer [.request 0 (.load "[I")] =
          { vm with registry := withInts } := hvm
      rw [hsession] at hd ⊢
      exact namesSuper_of_withInts hd)
    exact ⟨hints, hsuper (by decide), hchain⟩

/-- The file is read and gives no name of a superclass, and its class has none. -/
theorem orphan_without_super :
    (∃ file, ClassFile.parse orphanFile = .ok file ∧ file.superName = "" ∧
      file.name ≠ ClassFile.rootClassName) ∧
    ∃ c, (vm.answer [.request 0 (.load "A")]).registry.classes[0]? = some c ∧
      c.name ≠ ClassFile.rootClassName ∧ c.super? = none := by
  constructor
  · have hread : (ClassFile.parse orphanFile).toOption.map (fun f => (f.name, f.superName)) =
        some ("A", "") := by
      decide
    cases hparse : ClassFile.parse orphanFile with
    | error e =>
        rw [hparse] at hread
        cases hread
    | ok file =>
        rw [hparse] at hread
        obtain ⟨hname, hsuper⟩ := Prod.mk.inj (Option.some.inj hread)
        exact ⟨file, rfl, hsuper, by rw [hname]; decide⟩
  · rw [Vm.answer_load 0 load_orphan]
    exact ⟨orphan, rfl, by decide, rfl⟩

end Orphan

end Machine

end ClassEngine
