import ClassEngine.Proofs.ClassFile.Members

/-!
# Class files are read back
-/

namespace ClassEngine.ClassFile

open BigEndian
open ClassFile.Parser

variable {p : Pool}


theorem reads_superName {super : UInt16} (hname : super ≠ 0 → p.HasName super) (name : String) :
    Reads (Parser.superName p name) (bytes16 super)
      (if super = 0 → name = rootClassName then some (if super = 0 then "" else p.nameOf super)
      else none) := by
  refine (reads_u2 super).bind_last ?_
  by_cases hsuper : super = 0
  · by_cases hroot : name = rootClassName
    · rw [if_pos hsuper, if_pos hroot, if_pos fun _ => hroot, if_pos hsuper]
      exact reads_pure ""
    · rw [if_pos hsuper, if_neg hroot, if_neg fun h => hroot (h hsuper)]
      exact reads_fail _
  · rw [if_neg hsuper, if_pos fun h => absurd h hsuper, if_neg hsuper]
    exact (reads_fromPool (hname hsuper)).within _

theorem reads_interfaces {interfaces : List UInt16} (hcount : interfaces.length < 65536)
    (h : ∀ i ∈ interfaces, p.HasName i) :
    Reads (table (interfaceName p)) (MethodDraft.count16 interfaces ++ interfaces.flatMap bytes16)
      (some (interfaces.map p.nameOf)) := by
  have heach : ∀ i ∈ interfaces, ∀ index, Reads (interfaceName p index) (bytes16 i)
      (some (p.nameOf i)) := fun i hi index =>
    (reads_u2 i).bind_last ((reads_fromPool (h i hi)).within _)
  have hread := reads_table hcount heach
  rwa [mapM_some] at hread

theorem reads_sourceFile {sourceFile name : UInt16} (htext : sourceFile ≠ 0 → p.HasText sourceFile)
    (hname : sourceFile ≠ 0 → p.utf8 name = .ok "SourceFile") :
    Reads (attributes p (classAttribute p) "")
      (if sourceFile = 0 then bytes16 0
      else bytes16 1 ++ Builder.encodeAttribute name (bytes16 sourceFile))
      (some (if sourceFile = 0 then "" else p.text sourceFile)) := by
  split
  · exact reads_no_attributes ""
  · rename_i hne
    have hfits : Attribute.Fits p ⟨name, "SourceFile", bytes16 sourceFile⟩ :=
      ⟨hname hne, by simp [bytes16]⟩
    refine reads_attribute hfits ?_
    simp only [classAttribute, if_true, bytes16, join16_bytes16]
    rw [htext hne]
    rfl

/-- What a builder writes: its parts, the names of the attributes, and the finished methods. -/
structure WrittenClass where
  builder : Builder
  names : Builder.AttributeNames
  methods : List WrittenMethod

namespace WrittenClass

variable {w : WrittenClass}

def pool (w : WrittenClass) : Pool := ⟨w.builder.slots⟩

def bytes (w : WrittenClass) : List UInt8 :=
  w.builder.encode w.names (w.methods.map (·.bytes?))

def read (w : WrittenClass) : ClassFile where
  version := w.builder.version
  pool := w.pool
  flags := w.builder.flags
  name := w.pool.nameOf w.builder.this
  superName := if w.builder.super = 0 then "" else w.pool.nameOf w.builder.super
  interfaces := w.builder.interfaces.map w.pool.nameOf
  fields := w.builder.fields.map (·.read w.pool)
  methods := w.methods.map (·.read w.pool)
  sourceFile := if w.builder.sourceFile = 0 then "" else w.pool.text w.builder.sourceFile

structure Legal (w : WrittenClass) : Prop where
  version : minMajor ≤ w.builder.version.major ∧ w.builder.version.major ≤ maxMajor
  super : w.builder.super = 0 → w.pool.nameOf w.builder.this = rootClassName
  methods : ∀ m ∈ w.methods, (m.read w.pool).Legal

theorem legal_iff : w.Legal ↔
    (minMajor ≤ w.builder.version.major ∧ w.builder.version.major ≤ maxMajor) ∧
      (w.builder.super = 0 → w.pool.nameOf w.builder.this = rootClassName) ∧
        ∀ m ∈ w.methods, (m.read w.pool).Legal :=
  ⟨fun ⟨hversion, hsuper, hmethods⟩ => ⟨hversion, hsuper, hmethods⟩,
    fun ⟨hversion, hsuper, hmethods⟩ => ⟨hversion, hsuper, hmethods⟩⟩

instance (w : WrittenClass) : Decidable w.Legal := decidable_of_iff _ legal_iff.symm

/-- The entries that the class refers to are there, and its tables are short enough. -/
structure Fits (w : WrittenClass) : Prop where
  layout : ∃ cs : List Constant, w.builder.slots.toList = none :: cs.flatMap Constant.slots ∧
    ∀ c ∈ cs, c.Encodable
  size : w.builder.slots.size < 65536
  this : w.pool.HasName w.builder.this
  super : w.builder.super ≠ 0 → w.pool.HasName w.builder.super
  interfaces : ∀ i ∈ w.builder.interfaces, w.pool.HasName i
  interfacesCount : w.builder.interfaces.length < 65536
  fields : ∀ f ∈ w.builder.fields, f.Resolves w.pool
  fieldsNamed : ∀ f ∈ w.builder.fields, f.constant ≠ 0 →
    w.pool.utf8 w.names.constantValue = .ok "ConstantValue"
  fieldsCount : w.builder.fields.length < 65536
  drafts : w.builder.methods = w.methods.map (·.draft)
  methods : ∀ m ∈ w.methods, m.Fits w.pool w.names.code w.names.exceptions
  methodsCount : w.methods.length < 65536
  sourceFile : w.builder.sourceFile ≠ 0 → w.pool.HasText w.builder.sourceFile
  sourceFileNamed : w.builder.sourceFile ≠ 0 → w.pool.utf8 w.names.sourceFile = .ok "SourceFile"

theorem bytes_eq (h : w.Fits) :
    w.bytes = bytes32 magic ++ (bytes16 w.builder.version.minor ++
      (bytes16 w.builder.version.major ++
      ((bytes16 (UInt16.ofNat w.builder.slots.size) ++
        w.builder.slots.toList.flatMap fun slot => (slot.map Constant.encode).getD []) ++
      (bytes16 w.builder.flags ++ (bytes16 w.builder.this ++ (bytes16 w.builder.super ++
      ((MethodDraft.count16 w.builder.interfaces ++ w.builder.interfaces.flatMap bytes16) ++
      ((MethodDraft.count16 w.builder.fields ++
        w.builder.fields.flatMap (Builder.encodeField w.names.constantValue)) ++
      ((MethodDraft.count16 w.methods ++ w.methods.flatMap fun m =>
        Builder.encodeMethod w.names.code w.names.exceptions m.draft m.bytes?) ++
      (if w.builder.sourceFile = 0 then bytes16 0
      else bytes16 1 ++
        Builder.encodeAttribute w.names.sourceFile (bytes16 w.builder.sourceFile))))))))))) := by
  have hcount : MethodDraft.count16 (w.methods.map (·.draft)) = MethodDraft.count16 w.methods := by
    rw [MethodDraft.count16, List.length_map, MethodDraft.count16]
  rw [bytes, Builder.encode, h.drafts, List.zip_map', List.flatMap_map, hcount]
  simp only [List.append_assoc]
  rfl

theorem outcome_eq (w : WrittenClass) :
    (if w.Legal then some w.read else none) =
      if (decide (w.builder.version.major < minMajor) ||
        decide (maxMajor < w.builder.version.major)) = true then none
      else if w.builder.super = 0 → w.pool.nameOf w.builder.this = rootClassName then
        if ∀ m ∈ w.methods, (m.read w.pool).Legal then some w.read else none
      else none := by
  have hversion : (decide (w.builder.version.major < minMajor) ||
      decide (maxMajor < w.builder.version.major)) = true ↔
        ¬ (minMajor ≤ w.builder.version.major ∧ w.builder.version.major ≤ maxMajor) := by
    simp only [Bool.or_eq_true, decide_eq_true_eq, UInt16.lt_iff_toNat_lt, UInt16.le_iff_toNat_le]
    omega
  simp only [hversion, ite_not, ← ite_and, legal_iff]

theorem reads_classFile (h : w.Fits) :
    Reads classFile w.bytes (if w.Legal then some w.read else none) := by
  obtain ⟨cs, hslots, hcs⟩ := h.layout
  have hfields := reads_table (f := field w.pool) h.fieldsCount fun f hf i =>
    reads_field (h.fields f hf) (h.fieldsNamed f hf) i
  have hmethods := reads_table (f := method w.pool) h.methodsCount fun m hm i =>
    reads_method (h.methods m hm) i
  rw [mapM_some] at hfields
  rw [mapM_guard] at hmethods
  rw [bytes_eq h, outcome_eq]
  refine (reads_u4 _).bind ?_
  rw [if_neg (not_not.mpr rfl)]
  refine (reads_u2 _).bind ((reads_u2 _).bind (Reads.guard fun _ => ?_))
  refine (reads_pool hslots h.size hcs).bind ((reads_u2 _).bind ((reads_u2 _).bind ?_))
  refine ((reads_fromPool h.this).within _).bind_skip ?_
  refine (reads_superName h.super _).bind_guard fun _ => ?_
  refine (reads_interfaces h.interfacesCount h.interfaces).bind (hfields.bind ?_)
  exact hmethods.bind_guard fun _ => (reads_sourceFile h.sourceFile h.sourceFileNamed).map

end WrittenClass

end ClassEngine.ClassFile
