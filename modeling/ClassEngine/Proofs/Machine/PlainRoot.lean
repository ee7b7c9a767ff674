import ClassEngine.Proofs.Machine.Session

/-!
# The plain root class

The smallest file of the root class, without members, as sources in examples deliver it.
-/

namespace ClassEngine.Machine

namespace PlainRoot

def file : List UInt8 := [
  0xca, 0xfe, 0xba, 0xbe, 0x00, 0x00, 0x00, 0x34, 0x00, 0x03, 0x01, 0x00, 0x10, 0x6a, 0x61, 0x76,
  0x61, 0x2f, 0x6c, 0x61, 0x6e, 0x67, 0x2f, 0x4f, 0x62, 0x6a, 0x65, 0x63, 0x74, 0x07, 0x00, 0x01,
  0x00, 0x21, 0x00, 0x02, 0x00, 0x00, 0x00, 0x00, 0x00, 0x00, 0x00, 0x00, 0x00, 0x00]

def classFile : ClassFile where
  version := ⟨52, 0⟩
  pool := ⟨#[none, some (.utf8 ClassFile.rootClassName), some (.classRef 1)]⟩
  flags := 0x0021
  name := ClassFile.rootClassName
  superName := ""
  interfaces := []
  fields := []
  methods := []
  sourceFile := ""

def root : Class where
  name := ClassFile.rootClassName
  flags := 0x0021
  super? := none
  interfaces := []
  sourceFile := ""
  fields := []
  methods := []
  vtable := .empty
  layout := #[]
  pool := classFile.pool
  array? := none

def registry : Registry := (({} : Registry).add root .linked #[]).2

theorem parse_file : ClassFile.parse file = .ok classFile :=
  Registry.eq_ok_of_toOption (by with_unfolding_all decide)

variable {src : Search.Source}

theorem readClass_root (h : src.find ClassFile.rootClassName = .ok file) :
    readClass src ClassFile.rootClassName = .ok classFile := by
  unfold readClass
  rw [h]
  dsimp only
  rw [parse_file]
  rfl

theorem load_root {underWay : List String} (h : src.find ClassFile.rootClassName = .ok file)
    (hfresh : ClassFile.rootClassName ∉ underWay) :
    load src underWay ClassFile.rootClassName {} = (.ok 0, registry) := by
  have hplain : isArrayName ClassFile.rootClassName = false := by decide
  have hneeds : (requirements src ClassFile.rootClassName).toOption = some [] := by
    simp only [requirements, hplain, readClass_root h]
    rfl
  have hassemble : (assemble src #[] 0 ClassFile.rootClassName []).toOption = some (root, #[]) := by
    simp only [assemble, hplain, readClass_root h]
    rfl
  exact Registry.load_alone root hfresh hneeds hassemble

@[simp]
theorem find?_registry : registry.find? ClassFile.rootClassName = some 0 := by
  with_unfolding_all decide

end PlainRoot

end ClassEngine.Machine
