import ClassEngine.Code.Assembler
import Mathlib.Data.List.Basic

/-!
# What assembling keeps

Labels are marked inside of the code, and filling in the offsets keeps the length of the code.
-/

namespace ClassEngine.Code

inductive Emission where
  | plain (ops : List Opcode)
  | byte (op : Opcode) (operand : UInt8)
  | int8 (op : Opcode) (operand : Int8)
  | uint16 (op : Opcode) (operand : UInt16)
  | int16 (op : Opcode) (operand : Int16)
  | increment (index : UInt16) (delta : Int16)
  | localAccess (op : Opcode) (index : UInt16)
  | int (value : Int32)
  | invokeInterface (index : UInt16) (count : UInt8)
  | multiNewArray (index : UInt16) (dimensions : UInt8)
  | newLabel (name : String)
  | mark (l : LabelId)
  | here (name : String)
  | jump (op : Opcode) (l : LabelId)
  | jumpWide (op : Opcode) (l : LabelId)
  | tableSwitch (default : LabelId) (low : Int32) (targets : List LabelId)
  | lookupSwitch (default : LabelId) (keys : List Int32) (targets : List LabelId)
  deriving DecidableEq, Repr

namespace Assembler

/-- A misuse leaves the assembler as it is. -/
def perform (a : Assembler) : Emission → Assembler
  | .plain ops => a.emit ops
  | .byte op operand => a.emitByte op operand
  | .int8 op operand => a.emitInt8 op operand
  | .uint16 op operand => a.emitUInt16 op operand
  | .int16 op operand => a.emitInt16 op operand
  | .increment index delta => a.emitIncrement index delta
  | .localAccess op index => a.emitLocal op index
  | .int value => (a.emitInt value).toOption.getD a
  | .invokeInterface index count => a.emitInvokeInterface index count
  | .multiNewArray index dimensions => a.emitMultiNewArray index dimensions
  | .newLabel name => (a.newLabel name).2
  | .mark l => (a.mark l).toOption.getD a
  | .here name => (a.here name).2
  | .jump op l => a.emitJump op l
  | .jumpWide op l => a.emitJumpWide op l
  | .tableSwitch default low targets => a.emitTableSwitch default low targets
  | .lookupSwitch default keys targets => (a.emitLookupSwitch default keys targets).toOption.getD a

variable {a a' a'' : Assembler}

/-! ## Marks -/

/-- Labels are marked at positions of the code, or at its end. -/
def MarksWithin (a : Assembler) : Prop :=
  ∀ l position, a.position? l = some position → position ≤ a.size

theorem marksWithin_empty : MarksWithin {} := nofun

structure Appends (a a' : Assembler) : Prop where
  labels : a'.labels = a.labels
  size : a.size ≤ a'.size

theorem Appends.refl (a : Assembler) : a.Appends a := ⟨rfl, Nat.le_refl _⟩

theorem Appends.trans (h : a.Appends a') (h' : a'.Appends a'') : a.Appends a'' :=
  ⟨h'.labels.trans h.labels, Nat.le_trans h.size h'.size⟩

theorem MarksWithin.appends (h : a.MarksWithin) (happends : a.Appends a') : a'.MarksWithin := by
  intro l position hl
  rw [position?, happends.labels] at hl
  exact Nat.le_trans (h l position hl) happends.size

theorem appends_emitBytes (a : Assembler) (bs : List UInt8) : a.Appends (a.emitBytes bs) := by
  refine ⟨rfl, ?_⟩
  show a.bytes.size ≤ (a.bytes ++ bs).size
  rw [← Array.length_toList, ← Array.length_toList, Array.toList_appendList, List.length_append]
  exact Nat.le_add_right _ _

theorem appends_reserve (a : Assembler) (origin : Nat) (wide : Bool) (l : LabelId) :
    a.Appends (a.reserve origin wide l) :=
  ⟨rfl, (appends_emitBytes a (List.replicate (if wide then 4 else 2) 0)).size⟩

theorem appends_foldl {α : Type} {f : Assembler → α → Assembler} (hf : ∀ a x, Appends a (f a x))
    (xs : List α) (a : Assembler) : a.Appends (xs.foldl f a) := by
  induction xs generalizing a with
  | nil => exact .refl a
  | cons x rest ih => exact (hf a x).trans (ih (f a x))

theorem appends_emitLocal (a : Assembler) (op : Opcode) (index : UInt16) :
    a.Appends (a.emitLocal op index) := by
  rw [emitLocal]
  split
  · exact appends_emitBytes a _
  · split
    · exact appends_emitBytes a _
    · split
      · exact appends_emitBytes a _
      · exact appends_emitBytes a _

theorem appends_emitIncrement (a : Assembler) (index : UInt16) (delta : Int16) :
    a.Appends (a.emitIncrement index delta) := by
  rw [emitIncrement]
  split
  · exact appends_emitBytes a _
  · exact appends_emitBytes a _

theorem appends_emitInt (a : Assembler) (value : Int32) :
    a.Appends ((a.emitInt value).toOption.getD a) := by
  rw [emitInt]
  split
  · exact appends_emitBytes a _
  · split
    · exact appends_emitBytes a _
    · split
      · exact appends_emitBytes a _
      · exact .refl a

theorem appends_switch (a : Assembler) (op : Opcode) (default : LabelId) :
    a.Appends ((a.emit [op]).pad.reserve a.size true default) :=
  ((appends_emitBytes a _).trans (appends_emitBytes _ _)).trans (appends_reserve _ _ _ _)

theorem appends_emitTableSwitch (a : Assembler) (default : LabelId) (low : Int32)
    (targets : List LabelId) : a.Appends (a.emitTableSwitch default low targets) :=
  ((appends_switch a .tableswitch default).trans ((appends_emitBytes _ _).trans
    (appends_emitBytes _ _))).trans
      (appends_foldl (fun a l => appends_reserve a _ true l) targets _)

theorem appends_emitLookupSwitch (a : Assembler) (default : LabelId) (keys : List Int32)
    (targets : List LabelId) :
    a.Appends ((a.emitLookupSwitch default keys targets).toOption.getD a) := by
  rw [emitLookupSwitch]
  split
  · refine ((appends_switch a .lookupswitch default).trans (appends_emitBytes _ _)).trans
      (appends_foldl (fun a (entry : Int32 × LabelId) => ?_) _ _)
    exact (appends_emitBytes a _).trans (appends_reserve _ _ _ _)
  · exact .refl a

theorem MarksWithin.push (h : a.MarksWithin) {label : Label}
    (hlabel : ∀ position, label.position? = some position → position ≤ a.size) :
    MarksWithin { a with labels := a.labels.push label } := by
  intro l position hl
  rw [position?, Array.getElem?_push] at hl
  split at hl
  · exact hlabel position hl
  · exact h l position hl

theorem MarksWithin.mark (h : a.MarksWithin) (l : LabelId) :
    ((a.mark l).toOption.getD a).MarksWithin := by
  rw [Assembler.mark]
  split
  · exact h
  · intro l' position hl
    have hl : ((a.labels.modify l.index ({ · with position? := some a.size }))[l'.index]?).bind
      (·.position?) = some position := hl
    rw [Array.getElem?_modify] at hl
    split at hl
    · obtain ⟨label, hlabel, hposition⟩ := Option.bind_eq_some_iff.mp hl
      obtain ⟨old, -, rfl⟩ := Option.map_eq_some_iff.mp hlabel
      cases hposition
      exact Nat.le_refl _
    · exact h l' position hl

theorem MarksWithin.perform (h : a.MarksWithin) (e : Emission) : (a.perform e).MarksWithin := by
  cases e with
  | newLabel name => exact h.push nofun
  | mark l => exact h.mark l
  | here name =>
      exact h.push fun position hposition => Nat.le_of_eq (Option.some.inj hposition).symm
  | increment index delta => exact h.appends (appends_emitIncrement a index delta)
  | localAccess op index => exact h.appends (appends_emitLocal a op index)
  | int value => exact h.appends (appends_emitInt a value)
  | jump op l => exact h.appends ((appends_emitBytes a _).trans (appends_reserve _ _ _ _))
  | jumpWide op l => exact h.appends ((appends_emitBytes a _).trans (appends_reserve _ _ _ _))
  | tableSwitch default low targets =>
      exact h.appends (appends_emitTableSwitch a default low targets)
  | lookupSwitch default keys targets =>
      exact h.appends (appends_emitLookupSwitch a default keys targets)
  | plain | byte | int8 | uint16 | int16 | invokeInterface | multiNewArray =>
      exact h.appends (appends_emitBytes a _)

/-! ## Filling in -/

theorem size_write (bytes : Array UInt8) (slot : Nat) (bs : List UInt8) :
    (write bytes slot bs).size = bytes.size := by
  rw [write]
  induction bs generalizing bytes slot with
  | nil => rfl
  | cons b rest ih =>
      rw [List.foldl_cons, ih, Array.size_set!]

theorem size_fill {bytes filled : Array UInt8} {f : Fixup} (h : a.fill bytes f = .ok filled) :
    filled.size = bytes.size := by
  rw [fill] at h
  split at h
  · nomatch h
  · dsimp only at h
    split at h
    · cases h
      exact size_write _ _ _
    · split at h
      · cases h
        exact size_write _ _ _
      · nomatch h

theorem size_foldlM_fill {fixups : List Fixup} {bytes code : Array UInt8}
    (h : fixups.foldlM a.fill bytes = .ok code) : code.size = bytes.size := by
  induction fixups generalizing bytes with
  | nil =>
      cases h
      rfl
  | cons f rest ih =>
      rw [List.foldlM_cons] at h
      cases hfill : a.fill bytes f with
      | error e =>
          rw [hfill] at h
          nomatch h
      | ok filled =>
          rw [hfill] at h
          exact (ih h).trans (size_fill hfill)

theorem size_assemble {code : Array UInt8} (h : a.assemble = .ok code) : code.size = a.size := by
  rw [assemble, ← Array.foldlM_toList] at h
  exact size_foldlM_fill h

end Assembler

end ClassEngine.Code
