import ClassEngine.ClassFile.Builder
import ClassEngine.Proofs.ClassFile.Reading

/-!
# Pools and attributes are read back

The constants of a pool are read from the bytes that are written for them, and so is an attribute
whose length can be told.
-/

namespace ClassEngine.ClassFile

open BigEndian
open ClassFile.Parser

/-! ## Constants -/

/-- Texts are not longer than their length fields can tell. -/
def Constant.Encodable : Constant → Prop
  | .utf8 text => (ModifiedUtf8.encode text).length < 65536
  | _ => True

theorem reads_constant {c : Constant} (h : c.Encodable) :
    Reads (constant c.tag.code) c.encode.tail (some c) := by
  cases c with
  | utf8 text =>
      refine (reads_u2 _).bind ?_
      rw [UInt16.toNat_ofNat_of_lt' h]
      have hdecode : (ModifiedUtf8.decode (ModifiedUtf8.encode text)).mapError
          ParseError.encoding = .ok text := by
        rw [ModifiedUtf8.decode_encode]
        rfl
      exact (reads_bytes (ModifiedUtf8.encode text)).bind_last (reads_lift hdecode).map
  | integer value =>
      have hread : Reads (constant 3) (bytes32 value.toUInt32)
          (some (.integer value.toUInt32.toInt32)) := (reads_u4 value.toUInt32).map
      rwa [Int32.toInt32_toUInt32] at hread
  | float bits => exact (reads_u4 bits).map
  | long value =>
      have hread : Reads (constant 5) (bytes64 value.toUInt64)
          (some (.long value.toUInt64.toInt64)) := (reads_u8 value.toUInt64).map
      rwa [Int64.toInt64_toUInt64] at hread
  | double bits => exact (reads_u8 bits).map
  | classRef name => exact (reads_u2 name).map
  | string text => exact (reads_u2 text).map
  | member kind owner nameAndType =>
      cases kind <;> exact (reads_u2 owner).bind (reads_u2 nameAndType).map
  | nameAndType name descriptor => exact (reads_u2 name).bind (reads_u2 descriptor).map
  | methodHandle kind reference => exact (reads_u1 kind).bind (reads_u2 reference).map
  | methodType descriptor => exact (reads_u2 descriptor).map
  | dynamic kind bootstrap nameAndType =>
      cases kind <;> exact (reads_u2 bootstrap).bind (reads_u2 nameAndType).map
  | unit kind name => cases kind <;> exact (reads_u2 name).map

def Constant.slots (c : Constant) : List (Option Constant) :=
  if c.isWide then [some c, none] else [some c]

theorem length_slots (c : Constant) : c.slots.length = if c.isWide then 2 else 1 := by
  rw [Constant.slots]
  split <;> rfl

theorem reads_poolSlots {cs : List Constant} (h : ∀ c ∈ cs, c.Encodable)
    (slots : Array (Option Constant)) :
    Reads (poolSlots slots (cs.flatMap Constant.slots).length) (cs.flatMap Constant.encode)
      (some (slots ++ (cs.flatMap Constant.slots).toArray)) := by
  induction cs generalizing slots with
  | nil =>
      rw [List.flatMap_nil, List.length_nil, poolSlots]
      simpa using reads_pure slots
  | cons c rest ih =>
      have hrest := ih fun c' h' => h c' (List.mem_cons_of_mem c h')
      have hconstant := (reads_constant (h c List.mem_cons_self)).within (.constant slots.size)
      rw [List.flatMap_cons, List.flatMap_cons, List.length_append, length_slots, Constant.slots]
      show Reads _ ([c.tag.code] ++ (c.encode.tail ++ rest.flatMap Constant.encode)) _
      cases hwide : c.isWide with
      | true =>
          rw [if_pos rfl, if_pos rfl, Nat.add_comm, poolSlots]
          refine (reads_u1 _).bind (hconstant.bind ?_)
          rw [if_pos hwide]
          simpa using hrest ((slots.push (some c)).push none)
      | false =>
          rw [if_neg Bool.false_ne_true, if_neg Bool.false_ne_true, Nat.add_comm]
          have hnext := hrest (slots.push (some c))
          cases rest with
          | nil =>
              refine (reads_u1 _).bind (hconstant.bind ?_)
              rw [if_neg (by rw [hwide]; exact Bool.false_ne_true)]
              simpa [poolSlots] using hnext
          | cons c' rest =>
              cases hleft : ((c' :: rest).flatMap Constant.slots).length with
              | zero =>
                  rw [List.flatMap_cons, List.length_append, length_slots] at hleft
                  split at hleft <;> omega
              | succ left =>
                  rw [hleft] at hnext
                  rw [poolSlots]
                  refine (reads_u1 _).bind (hconstant.bind ?_)
                  rw [if_neg (by rw [hwide]; exact Bool.false_ne_true)]
                  simpa using hnext

theorem reads_pool {slots : Array (Option Constant)} {cs : List Constant}
    (hslots : slots.toList = none :: cs.flatMap Constant.slots) (hsize : slots.size < 65536)
    (h : ∀ c ∈ cs, c.Encodable) :
    Reads Parser.pool (bytes16 (UInt16.ofNat slots.size) ++
      slots.toList.flatMap fun slot => (slot.map Constant.encode).getD []) (some ⟨slots⟩) := by
  have hlength : slots.size = (cs.flatMap Constant.slots).length + 1 := by
    rw [← Array.length_toList, hslots, List.length_cons]
  have hcount : (UInt16.ofNat slots.size).toNat = slots.size := UInt16.toNat_ofNat_of_lt' hsize
  have hne : UInt16.ofNat slots.size ≠ 0 := by
    intro hzero
    rw [hzero] at hcount
    have : (0 : Nat) = slots.size := hcount
    omega
  have hbytes : (slots.toList.flatMap fun slot => (slot.map Constant.encode).getD []) =
      cs.flatMap Constant.encode := by
    rw [hslots, List.flatMap_cons, List.flatMap_assoc, Option.map_none, Option.getD_none,
      List.nil_append]
    refine List.flatMap_congr fun c _ => ?_
    rw [Constant.slots]
    split <;> simp
  have harray : #[none] ++ (cs.flatMap Constant.slots).toArray = slots := by
    apply Array.toList_inj.mp
    rw [hslots]
    simp
  rw [hbytes]
  refine (reads_u2 _).bind ?_
  rw [if_neg hne, hcount, hlength, Nat.add_sub_cancel]
  exact harray ▸ (reads_poolSlots h #[none]).map

/-! ## Attributes -/

/-- An attribute: the index of its name, the name, and its bytes. -/
structure Attribute where
  index : UInt16
  name : String
  body : List UInt8

namespace Attribute

def encode (a : Attribute) : List UInt8 := Builder.encodeAttribute a.index a.body

/-- The length of the attribute is written, but it may be more than four bytes can tell. -/
def told (a : Attribute) : Nat := a.body.length % 4294967296

end Attribute

variable {p : Pool} {a : Attribute}

theorem rawAttribute_apply (hname : p.utf8 a.index = .ok a.name) (offset : Nat)
    (rest : List UInt8) :
    rawAttribute p ⟨offset, a.encode ++ rest⟩ =
      .ok ((a.name, a.body.take a.told), ⟨offset + 6 + a.told, a.body.drop a.told ++ rest⟩) := by
  have hlength : (UInt32.ofNat a.body.length).toNat = a.told := UInt32.toNat_ofNat'
  have hle : a.told ≤ a.body.length := Nat.mod_le _ _
  have hpool : within .attributeName (fromPool (p.utf8 a.index)) = pure a.name := by
    rw [hname]
    rfl
  have hleft : ¬ (a.body ++ rest).length < a.told := by
    rw [List.length_append]
    omega
  have hbytes : Parser.bytes a.told ⟨offset + 2 + 4, a.body ++ rest⟩ =
      .ok (a.body.take a.told, ⟨offset + 2 + 4 + a.told, a.body.drop a.told ++ rest⟩) := by
    have htake : (a.body ++ rest).take a.told = a.body.take a.told :=
      List.take_append_of_le_length hle
    have hdrop : (a.body ++ rest).drop a.told = a.body.drop a.told ++ rest :=
      List.drop_append_of_le_length hle
    have hlen : (a.body.take a.told).length = a.told := List.length_take_of_le hle
    simp only [Parser.bytes, htake, hdrop, hlen, Nat.lt_irrefl, if_false]
  rw [Attribute.encode, Builder.encodeAttribute, MethodDraft.count32, List.append_assoc,
    List.append_assoc, rawAttribute, bind_apply, reads_u2]
  dsimp only
  rw [hpool, pure_bind, bind_apply, reads_u4]
  dsimp only
  rw [hlength]
  show (do
    if (a.body ++ rest).length < a.told then
      Parser.fail (.attributeOverrun a.name a.told (a.body ++ rest).length)
    return (a.name, ← Parser.bytes a.told) : Parser (String × List UInt8))
      ⟨offset + 2 + 4, a.body ++ rest⟩ = _
  rw [if_neg hleft]
  show (Parser.bytes a.told >>= fun x => pure (a.name, x) : Parser (String × List UInt8))
    ⟨offset + 2 + 4, a.body ++ rest⟩ = _
  rw [bind_apply, hbytes]
  rfl

theorem length_encodeAttribute (name : UInt16) (body : List UInt8) :
    (Builder.encodeAttribute name body).length = 6 + body.length := by
  rw [Builder.encodeAttribute, List.length_append]
  rfl

structure Attribute.Fits (p : Pool) (a : Attribute) : Prop where
  named : p.utf8 a.index = .ok a.name
  short : a.body.length < 4294967296

theorem reads_rawAttribute (h : a.Fits p) :
    Reads (rawAttribute p) a.encode (some (a.name, a.body)) := by
  have htold : a.told = a.body.length := Nat.mod_eq_of_lt h.short
  have hlength : a.encode.length = 6 + a.body.length := length_encodeAttribute a.index a.body
  intro offset rest
  rw [rawAttribute_apply h.named, htold, List.take_length, List.drop_length, List.nil_append,
    hlength, Nat.add_assoc]

section

variable {σ : Type} {interpret : String → List UInt8 → σ → Except ParseError σ}

theorem reads_attributeRounds {s s' : σ} {as : List Attribute} (h : ∀ a ∈ as, a.Fits p)
    (hs : as.foldlM (fun s a => interpret a.name a.body s) s = .ok s') :
    Reads (attributeRounds p interpret s as.length) (as.flatMap Attribute.encode) (some s') := by
  induction as generalizing s with
  | nil =>
      cases hs
      exact reads_pure s'
  | cons a rest ih =>
      have hrest : ∀ a' ∈ rest, a'.Fits p := fun a' h' => h a' (List.mem_cons_of_mem a h')
      rw [List.foldlM_cons] at hs
      cases hfirst : interpret a.name a.body s with
      | error e =>
          rw [hfirst] at hs
          cases hs
      | ok s₁ =>
          rw [hfirst] at hs
          rw [List.flatMap_cons, List.length_cons, attributeRounds]
          refine (reads_rawAttribute (h a List.mem_cons_self)).bind ?_
          exact ((reads_lift hfirst).within _).bind_skip (ih hrest hs)

theorem reads_attributes {as : List Attribute} (h : ∀ a ∈ as, a.Fits p)
    (hcount : as.length < 65536) {s s' : σ}
    (hs : as.foldlM (fun s a => interpret a.name a.body s) s = .ok s') :
    Reads (attributes p interpret s)
      (MethodDraft.count16 as ++ as.flatMap Attribute.encode) (some s') := by
  refine (reads_u2 _).bind ?_
  rw [UInt16.toNat_ofNat_of_lt' hcount]
  exact reads_attributeRounds h hs

theorem refuses_attributes (hname : p.utf8 a.index = .ok a.name) {as : List Attribute}
    (hcount : as.length + 1 < 65536) {s : σ}
    (hs : ∃ e, interpret a.name (a.body.take a.told) s = .error e) :
    Reads (attributes p interpret s)
      (MethodDraft.count16 (a :: as) ++ (a :: as).flatMap Attribute.encode) none := by
  refine (reads_u2 _).bind ?_
  have hlength : (UInt16.ofNat (a :: as).length).toNat = as.length + 1 :=
    UInt16.toNat_ofNat_of_lt' hcount
  rw [hlength, List.flatMap_cons, attributeRounds]
  refine Reads.append (fun offset rest => ?_) _
  obtain ⟨e, he⟩ := hs
  refine ⟨.within (.attributeBody a.name) e, ?_⟩
  rw [bind_apply, rawAttribute_apply hname]
  dsimp only
  rw [he]
  rfl

theorem reads_no_attributes (s : σ) : Reads (attributes p interpret s) (bytes16 0) (some s) := by
  have hnone : ∀ a ∈ ([] : List Attribute), a.Fits p := nofun
  exact reads_attributes hnone (by decide) rfl

theorem reads_attribute (h : a.Fits p) {s s' : σ} (hs : interpret a.name a.body s = .ok s') :
    Reads (attributes p interpret s) (bytes16 1 ++ a.encode) (some s') := by
  have hone : ∀ a' ∈ [a], a'.Fits p := by simpa using h
  have hfold : [a].foldlM (fun s a => interpret a.name a.body s) s = .ok s' := by
    rw [List.foldlM_cons, hs]
    rfl
  have hread := reads_attributes hone (by decide : 1 < 65536) hfold
  rwa [List.flatMap_singleton] at hread

end

/-! ## Texts of a pool -/

namespace Pool

def text (p : Pool) (i : UInt16) : String := (p.utf8 i).toOption.getD ""

def nameOf (p : Pool) (i : UInt16) : String := (p.className i).toOption.getD ""

def HasText (p : Pool) (i : UInt16) : Prop := p.utf8 i = .ok (p.text i)

def HasName (p : Pool) (i : UInt16) : Prop := p.className i = .ok (p.nameOf i)

theorem text_of_utf8 {i : UInt16} {text : String} (h : p.utf8 i = .ok text) : p.text i = text := by
  rw [Pool.text, h]
  rfl

theorem nameOf_of_className {i : UInt16} {name : String} (h : p.className i = .ok name) :
    p.nameOf i = name := by
  rw [nameOf, h]
  rfl

theorem hasText_of_utf8 {i : UInt16} {text : String} (h : p.utf8 i = .ok text) : p.HasText i := by
  rw [HasText, text_of_utf8 h]
  exact h

theorem hasName_of_className {i : UInt16} {name : String} (h : p.className i = .ok name) :
    p.HasName i := by
  rw [HasName, nameOf_of_className h]
  exact h

end Pool

end ClassEngine.ClassFile
