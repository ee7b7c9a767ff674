import ClassEngine.Proofs.Cbor.Documented
import ClassEngine.Snapshot.Encoding
import Mathlib.Data.List.Basic

/-!
# Snapshots and their encodings

Whatever library does what its documentation says, a snapshot is read back from its encoding if its
lists are no longer than the library admits.  Different snapshots have different encodings, and what
was read once is encoded and read again without a change.
-/

namespace ClassEngine.Snapshot

open Cbor (Library Shape maxLength maxEntries maxLevels)

/-! ## Records and their values -/

open Function (LeftInverse)

theorem option_map_map_of_leftInverse {α β : Type} {f : α → β} {g : β → α} (h : LeftInverse g f)
    (x? : Option α) : (x?.map f).map g = x? := by
  rw [Option.map_map, h.id, Option.map_id, id]

theorem Constant.ofValue_value : LeftInverse Constant.ofValue Constant.value := fun _ => rfl

theorem Constant.value_ofValue : LeftInverse Constant.value Constant.ofValue := fun _ => rfl

theorem Field.ofValue_value : LeftInverse Field.ofValue Field.value := fun _ => rfl

theorem Field.value_ofValue : LeftInverse Field.value Field.ofValue := fun _ => rfl

theorem Handler.ofValue_value : LeftInverse Handler.ofValue Handler.value := fun _ => rfl

theorem Handler.value_ofValue : LeftInverse Handler.value Handler.ofValue := fun _ => rfl

theorem Line.ofValue_value : LeftInverse Line.ofValue Line.value := fun _ => rfl

theorem Line.value_ofValue : LeftInverse Line.value Line.ofValue := fun _ => rfl

theorem Code.ofValue_value : LeftInverse Code.ofValue Code.value := by
  intro c
  rw [Code.value, Code.ofValue, Handler.ofValue_value.list_map, Line.ofValue_value.list_map]

theorem Code.value_ofValue : LeftInverse Code.value Code.ofValue := by
  rintro ⟨maxStack, maxLocals, bytes?, handlers, lines, ⟨⟩⟩
  rw [Code.ofValue, Code.value, Handler.value_ofValue.list_map, Line.value_ofValue.list_map]

theorem Method.ofValue_value : LeftInverse Method.ofValue Method.value := by
  intro m
  rw [Method.value, Method.ofValue, option_map_map_of_leftInverse Code.ofValue_value]

theorem Method.value_ofValue : LeftInverse Method.value Method.ofValue := by
  rintro ⟨flags, name, descriptor, code?, throws, ⟨⟩⟩
  rw [Method.ofValue, Method.value, option_map_map_of_leftInverse Code.value_ofValue]

theorem Class.ofValue_value : LeftInverse Class.ofValue Class.value := by
  intro c
  rw [Class.value, Class.ofValue, Constant.ofValue_value.list_map, Field.ofValue_value.list_map,
    Method.ofValue_value.list_map]

theorem Class.value_ofValue : LeftInverse Class.value Class.ofValue := by
  rintro ⟨major, minor, flags, name, super, interfaces, constants, fields, methods, sourceFile, ⟨⟩⟩
  rw [Class.ofValue, Class.value, Constant.value_ofValue.list_map, Field.value_ofValue.list_map,
    Method.value_ofValue.list_map]

theorem regular_classShape : classShape.Regular := rfl

/-! ## Round trips -/

/-- No list in it has more than `limit` elements, and a head can tell every length. -/
def Class.Within (limit : Nat) (c : Class) : Prop := classShape.Within limit c.value

instance (limit : Nat) (c : Class) : Decidable (c.Within limit) :=
  classShape.decidableWithin limit c.value

section Documented

variable {L : Library} {limit : Nat} (hL : L.Documented limit)
include hL

theorem marshal_eq_some {c : Class} (hc : c.Within maxLength) :
    c.marshal L = some (classShape.item c.value).encode :=
  hL.writes regular_classShape rfl hc

theorem unmarshal_encode {c : Class} (hc : c.Within limit) :
    unmarshal L (classShape.item c.value).encode = some c := by
  rw [unmarshal, hL.unmarshal_encode regular_classShape (by decide) hc, Option.map_some,
    Class.ofValue_value]

theorem within_of_unmarshal {bs : List UInt8} {c : Class} (hbs : bs.length ≤ maxLength)
    (h : unmarshal L bs = some c) : c.Within limit := by
  obtain ⟨v, hv, rfl⟩ := Option.map_eq_some_iff.mp h
  rw [Class.Within, Class.value_ofValue]
  exact hL.bounded hbs hv

/-- A snapshot whose lengths a head can tell has an encoding, and is read back from it if its lists
are no longer than the library admits, so every one if `limit` is `maxLength`.  Two such snapshots
have one encoding exactly if they are the same.  What is read from any bytes is read back from its
encoding, and encoded once more to the same bytes. -/
theorem encoding_faithful :
    (∀ c : Class, c.Within maxLength → ∃ bs, c.marshal L = some bs ∧
      (c.Within limit → unmarshal L bs = some c)) ∧
    (∀ c c' : Class, c.Within maxLength → c'.Within maxLength →
      (c.marshal L = c'.marshal L ↔ c = c')) ∧
    ∀ (bs : List UInt8) (c : Class), bs.length ≤ maxLength → unmarshal L bs = some c →
      ∃ bs', c.marshal L = some bs' ∧
        ∃ c', unmarshal L bs' = some c' ∧ c' = c ∧ c'.marshal L = some bs' := by
  refine ⟨fun c hc => ⟨_, marshal_eq_some hL hc, unmarshal_encode hL⟩,
    fun c c' hc hc' => ⟨fun h => ?_, congrArg (Class.marshal L)⟩, fun bs c hbs h => ?_⟩
  · have hvalue := hL.marshal_inj regular_classShape rfl hc hc' h
    rw [← Class.ofValue_value c, hvalue, Class.ofValue_value]
  · have hwithin := within_of_unmarshal hL hbs h
    have hmarshal := marshal_eq_some hL (Shape.Within.mono hL.most hwithin)
    exact ⟨_, hmarshal, c, unmarshal_encode hL hwithin, rfl, hmarshal⟩

end Documented

/-! ## A small snapshot -/

def shapeBody : Code where
  maxStack := 1
  maxLocals := 1
  bytes? := some [0x04, 0xac]
  handlers := [⟨0, 1, 1, ""⟩]
  lines := [⟨0, 7⟩]

def shape : Class where
  major := 52
  flags := 0x21
  name := "Shape"
  super := "java/lang/Object"
  constants := [⟨1, "Utf8", "Shape"⟩]
  fields := [⟨2, "width", "I", ""⟩]
  methods := [{ flags := 1, name := "area", descriptor := "()I", code? := some shapeBody }]

/-- A map up to a break, with the name of the class under its key in characters. -/
def loose : List UInt8 := [0xbf, 0x61, 0x34, 0x61, 0x41, 0xff]

theorem decode?_loose : decode? loose = some { name := "A" } := by
  decide +kernel

theorem encoding_faithful_shape :
    (∃ bs, shape.marshal Cbor.standard = some bs ∧ unmarshal Cbor.standard bs = some shape) ∧
      (shape.marshal Cbor.standard = Class.marshal Cbor.standard {} ↔ shape = {}) ∧
      ∃ bs, Class.marshal Cbor.standard { name := "A" } = some bs ∧
        unmarshal Cbor.standard bs = some { name := "A" } := by
  obtain ⟨hread, hinj, hagain⟩ := encoding_faithful Cbor.documented_standard
  refine ⟨?_, hinj shape {} (by decide) (by decide), ?_⟩
  · obtain ⟨bs, hbs, hback⟩ := hread shape (by decide)
    exact ⟨bs, hbs, hback (by decide)⟩
  · obtain ⟨bs, hbs, c, hc, rfl, -⟩ := hagain loose { name := "A" } (by decide) decode?_loose
    exact ⟨bs, hbs, hc⟩

end ClassEngine.Snapshot
