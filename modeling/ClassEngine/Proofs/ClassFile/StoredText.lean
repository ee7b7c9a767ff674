import ClassEngine.Proofs.ClassFile.Words
import Mathlib.Data.List.Basic

/-!
# Stored texts

A stored text is a sequence of forms, each of one to three bytes and for one UTF-16 unit.
What reading accepts is cut into forms in one way only.  Written texts use the shortest form
for every unit but zero, so a text that was read is written back as it was stored exactly if
no form is longer than need be and no surrogate lacks its partner.
-/

namespace ClassEngine.ClassFile.ModifiedUtf8

/-! ## Forms -/

inductive Form where
  | single (a : UInt8)
  | pair (a b : UInt8)
  | triple (a b c : UInt8)
  deriving DecidableEq

namespace Form

def bytes : Form → List UInt8
  | single a => [a]
  | pair a b => [a, b]
  | triple a b c => [a, b, c]

def Follows (b : UInt8) : Prop := 0x80 ≤ b.toNat ∧ b.toNat < 0xc0

instance (b : UInt8) : Decidable (Follows b) := inferInstanceAs (Decidable (_ ∧ _))

def Valid : Form → Prop
  | single a => 0 < a.toNat ∧ a.toNat < 0x80
  | pair a b => (0xc0 ≤ a.toNat ∧ a.toNat < 0xe0) ∧ Follows b
  | triple a b c => (0xe0 ≤ a.toNat ∧ a.toNat < 0xf0) ∧ Follows b ∧ Follows c

instance : DecidablePred Valid
  | single _ => inferInstanceAs (Decidable (_ ∧ _))
  | pair _ _ => inferInstanceAs (Decidable (_ ∧ _))
  | triple _ _ _ => inferInstanceAs (Decidable (_ ∧ _))

/-- The number that the bytes spell, six bits in each byte but the first. -/
def number : Form → Nat
  | single a => a.toNat
  | pair a b => a.toNat % 0x20 * 0x40 + b.toNat % 0x40
  | triple a b c => (a.toNat % 0x10 * 0x40 + b.toNat % 0x40) * 0x40 + c.toNat % 0x40

def unit (f : Form) : UInt16 := UInt16.ofNat f.number

/-- Fewer bytes can spell the number. -/
def Overlong : Form → Prop
  | single _ => False
  | pair a b => (pair a b).number < 0x80
  | triple a b c => (triple a b c).number < 0x800

instance : DecidablePred Overlong
  | single _ => inferInstanceAs (Decidable False)
  | pair _ _ => inferInstanceAs (Decidable (_ < _))
  | triple _ _ _ => inferInstanceAs (Decidable (_ < _))

/-- The form of the zero unit, which has no form of one byte. -/
def nul : Form := pair 0xc0 0x80

theorem follows_iff (b : UInt8) : isContinuation b = true ↔ Follows b := by
  have h : ∀ n < 256, (isContinuation (UInt8.ofNat n) = true ↔ Follows (UInt8.ofNat n)) := by
    decide +kernel
  simpa using h b.toNat b.toNat_lt

theorem pairLead_iff (a : UInt8) : a &&& 0xe0 = 0xc0 ↔ 0xc0 ≤ a.toNat ∧ a.toNat < 0xe0 := by
  have h : ∀ n < 256, (UInt8.ofNat n &&& 0xe0 = 0xc0 ↔ 0xc0 ≤ n ∧ n < 0xe0) := by
    decide +kernel
  simpa using h a.toNat a.toNat_lt

theorem tripleLead_iff (a : UInt8) : a &&& 0xf0 = 0xe0 ↔ 0xe0 ≤ a.toNat ∧ a.toNat < 0xf0 := by
  have h : ∀ n < 256, (UInt8.ofNat n &&& 0xf0 = 0xe0 ↔ 0xe0 ≤ n ∧ n < 0xf0) := by
    decide +kernel
  simpa using h a.toNat a.toNat_lt

end Form

/-! ## The units of forms -/

theorem toNat_pairUnit (a b : UInt8) :
    (pairUnit a b).toNat = a.toNat % 32 * 64 + b.toNat % 64 := by
  have ha : (a &&& 0x1f).toNat = a.toNat % 32 := Nat.and_two_pow_sub_one_eq_mod a.toNat 5
  have hb : (b &&& 0x3f).toNat = b.toNat % 64 := Nat.and_two_pow_sub_one_eq_mod b.toNat 6
  rw [pairUnit, UInt16.toNat_or, UInt16.toNat_shiftLeft, UInt8.toNat_toUInt16,
    UInt8.toNat_toUInt16, ha, hb]
  show (a.toNat % 32) <<< 6 % 65536 ||| b.toNat % 64 = _
  rw [Nat.mod_eq_of_lt (b := 65536) (by rw [Nat.shiftLeft_eq]; omega),
    ← Nat.shiftLeft_add_eq_or_of_lt (i := 6) (by omega), Nat.shiftLeft_eq]

theorem toNat_tripleUnit (a b c : UInt8) :
    (tripleUnit a b c).toNat = a.toNat % 16 * 4096 + b.toNat % 64 * 64 + c.toNat % 64 := by
  have ha : (a &&& 0x0f).toNat = a.toNat % 16 := Nat.and_two_pow_sub_one_eq_mod a.toNat 4
  have hb : (b &&& 0x3f).toNat = b.toNat % 64 := Nat.and_two_pow_sub_one_eq_mod b.toNat 6
  have hc : (c &&& 0x3f).toNat = c.toNat % 64 := Nat.and_two_pow_sub_one_eq_mod c.toNat 6
  rw [tripleUnit, UInt16.toNat_or, UInt16.toNat_or, UInt16.toNat_shiftLeft,
    UInt16.toNat_shiftLeft, UInt8.toNat_toUInt16, UInt8.toNat_toUInt16, UInt8.toNat_toUInt16,
    ha, hb, hc]
  show (a.toNat % 16) <<< 12 % 65536 ||| (b.toNat % 64) <<< 6 % 65536 ||| c.toNat % 64 = _
  rw [Nat.mod_eq_of_lt (b := 65536) (by rw [Nat.shiftLeft_eq]; omega),
    Nat.mod_eq_of_lt (b := 65536) (by rw [Nat.shiftLeft_eq]; omega), Nat.or_assoc,
    ← Nat.shiftLeft_add_eq_or_of_lt (i := 6) (by omega),
    ← Nat.shiftLeft_add_eq_or_of_lt (i := 12) (by rw [Nat.shiftLeft_eq]; omega)]
  simp only [Nat.shiftLeft_eq]
  omega

namespace Form

theorem number_lt (f : Form) : f.number < 65536 := by
  cases f with
  | single a =>
      have := a.toNat_lt
      simp only [number]
      omega
  | pair a b =>
      simp only [number]
      omega
  | triple a b c =>
      simp only [number]
      omega

theorem toNat_unit (f : Form) : f.unit.toNat = f.number :=
  UInt16.toNat_ofNat_of_lt' (number_lt f)

theorem unit_single (a : UInt8) : (single a).unit = a.toUInt16 := by
  apply UInt16.toNat_inj.mp
  rw [toNat_unit, UInt8.toNat_toUInt16, number]

theorem unit_pair (a b : UInt8) : (pair a b).unit = pairUnit a b := by
  apply UInt16.toNat_inj.mp
  rw [toNat_unit, toNat_pairUnit, number]

theorem unit_triple (a b c : UInt8) : (triple a b c).unit = tripleUnit a b c := by
  apply UInt16.toNat_inj.mp
  rw [toNat_unit, toNat_tripleUnit, number]
  omega

end Form

/-! ## Reading forms -/

/-- The bytes are those of the forms, one after the other. -/
structure Divides (forms : List Form) (bs : List UInt8) : Prop where
  valid : ∀ f ∈ forms, f.Valid
  bytes : forms.flatMap Form.bytes = bs

theorem Divides.cons {f : Form} {forms : List Form} {bs : List UInt8} (hf : f.Valid)
    (h : Divides forms bs) : Divides (f :: forms) (f.bytes ++ bs) where
  valid := by
    intro g hg
    rcases List.mem_cons.mp hg with rfl | hg
    · exact hf
    · exact h.valid g hg
  bytes := by rw [List.flatMap_cons, h.bytes]

theorem decodeUnits_form {f : Form} (h : f.Valid) (rest : List UInt8) :
    decodeUnits (f.bytes ++ rest) = (f.unit :: ·) <$> decodeUnits rest := by
  cases f with
  | single a =>
      have hne : a ≠ 0 := by
        rintro rfl
        exact absurd h.1 (by decide)
      rw [Form.unit_single]
      exact decodeUnits_ascii hne (UInt8.lt_iff_toNat_lt.mpr h.2) rest
  | pair a b =>
      have hlead := h.1
      have hne : a ≠ 0 := by
        rintro rfl
        exact absurd hlead.1 (by decide)
      have hlarge : ¬ a < 0x80 := by
        rw [UInt8.lt_iff_toNat_lt]
        show ¬ a.toNat < 128
        omega
      rw [Form.unit_pair]
      show decodeUnits (a :: b :: rest) = _
      rw [decodeUnits, if_neg hne, if_neg hlarge, if_pos ((Form.pairLead_iff a).mpr hlead),
        if_pos ((Form.follows_iff b).mpr h.2)]
      rfl
  | triple a b c =>
      have hlead := h.1
      have hne : a ≠ 0 := by
        rintro rfl
        exact absurd hlead.1 (by decide)
      have hlarge : ¬ a < 0x80 := by
        rw [UInt8.lt_iff_toNat_lt]
        show ¬ a.toNat < 128
        omega
      have hpair : ¬ a &&& 0xe0 = 0xc0 := by
        rw [Form.pairLead_iff]
        omega
      rw [Form.unit_triple]
      show decodeUnits (a :: b :: c :: rest) = _
      rw [decodeUnits, if_neg hne, if_neg hlarge, if_neg hpair,
        if_pos ((Form.tripleLead_iff a).mpr hlead)]
      dsimp only
      rw [(Form.follows_iff b).mpr h.2.1, (Form.follows_iff c).mpr h.2.2, Bool.and_self,
        if_pos rfl]
      rfl

theorem decodeUnits_of_divides {forms : List Form} {bs : List UInt8} (h : Divides forms bs) :
    decodeUnits bs = .ok (forms.map Form.unit) := by
  obtain ⟨hvalid, rfl⟩ := h
  induction forms with
  | nil => rw [List.flatMap_nil, decodeUnits, List.map_nil]
  | cons f forms ih =>
      rw [List.flatMap_cons, decodeUnits_form (hvalid f List.mem_cons_self),
        ih fun g hg => hvalid g (List.mem_cons_of_mem f hg)]
      rfl

theorem exists_divides {bs : List UInt8} {units : List UInt16} (h : decodeUnits bs = .ok units) :
    ∃ forms, Divides forms bs := by
  have hrest {rest : List UInt8} {u : UInt16} {us : List UInt16}
      (h : (do return u :: (← decodeUnits rest) : Except DecodeError (List UInt16)) = .ok us) :
      ∃ us, decodeUnits rest = .ok us := by
    cases hus : decodeUnits rest with
    | ok us => exact ⟨us, rfl⟩
    | error e =>
        rw [hus] at h
        cases h
  fun_induction decodeUnits bs generalizing units with
  | case1 => exact ⟨[], nofun, rfl⟩
  | case2 | case5 | case6 | case8 | case9 | case10 => cases h
  | case3 a rest hne hascii ih =>
      obtain ⟨us, hus⟩ := hrest h
      obtain ⟨forms, hforms⟩ := ih hus
      have hpos : 0 < a.toNat := by
        rw [Nat.pos_iff_ne_zero]
        exact fun hzero => hne (UInt8.toNat_inj.mp hzero)
      exact ⟨.single a :: forms, hforms.cons ⟨hpos, UInt8.lt_iff_toNat_lt.mp hascii⟩⟩
  | case4 a hne hlarge hmask b rest hb ih =>
      obtain ⟨us, hus⟩ := hrest h
      obtain ⟨forms, hforms⟩ := ih hus
      exact ⟨.pair a b :: forms,
        hforms.cons ⟨(Form.pairLead_iff a).mp hmask, (Form.follows_iff b).mp hb⟩⟩
  | case7 a hne hlarge hpair hmask b c rest hbc ih =>
      obtain ⟨us, hus⟩ := hrest h
      obtain ⟨forms, hforms⟩ := ih hus
      obtain ⟨hb, hc⟩ := Bool.and_eq_true_iff.mp hbc
      exact ⟨.triple a b c :: forms, hforms.cons
        ⟨(Form.tripleLead_iff a).mp hmask, (Form.follows_iff b).mp hb, (Form.follows_iff c).mp hc⟩⟩

/-- The number of bytes of a form that starts with this one. -/
def lengthAfter (a : UInt8) : Nat :=
  if a.toNat < 0x80 then 1 else if a.toNat < 0xe0 then 2 else 3

theorem Form.length_bytes {f : Form} (h : f.Valid) :
    ∃ a rest, f.bytes = a :: rest ∧ f.bytes.length = lengthAfter a := by
  cases f with
  | single a => exact ⟨a, [], rfl, (if_pos h.2).symm⟩
  | pair a b =>
      have hlead := h.1
      refine ⟨a, [b], rfl, ?_⟩
      rw [lengthAfter, if_neg (by omega), if_pos hlead.2]
      rfl
  | triple a b c =>
      have hlead := h.1
      refine ⟨a, [b, c], rfl, ?_⟩
      rw [lengthAfter, if_neg (by omega), if_neg (by omega)]
      rfl

theorem Form.bytes_injective {f g : Form} (h : f.bytes = g.bytes) : f = g := by
  cases f <;> cases g <;> simp_all [Form.bytes]

theorem Form.bytes_append_inj {f g : Form} (hf : f.Valid) (hg : g.Valid) {bs bs' : List UInt8}
    (h : f.bytes ++ bs = g.bytes ++ bs') : f = g ∧ bs = bs' := by
  obtain ⟨a, rest, hbytes, hlength⟩ := length_bytes hf
  obtain ⟨a', rest', hbytes', hlength'⟩ := length_bytes hg
  have hlead : a = a' := by
    rw [hbytes, hbytes'] at h
    exact (List.cons.inj h).1
  have hsame : f.bytes.length = g.bytes.length := by rw [hlength, hlength', hlead]
  obtain ⟨hbs, hrest⟩ := List.append_inj h hsame
  exact ⟨bytes_injective hbs, hrest⟩

/-- Bytes are cut into forms in one way only. -/
theorem Divides.unique {forms forms' : List Form} {bs : List UInt8} (h : Divides forms bs)
    (h' : Divides forms' bs) : forms = forms' := by
  obtain ⟨hvalid, rfl⟩ := h
  induction forms generalizing forms' with
  | nil =>
      cases forms' with
      | nil => rfl
      | cons g forms' =>
          obtain ⟨a, rest, hbytes, -⟩ := Form.length_bytes (h'.valid g List.mem_cons_self)
          have hcons := h'.bytes
          rw [List.flatMap_cons, hbytes] at hcons
          cases hcons
  | cons f forms ih =>
      have hf := hvalid f List.mem_cons_self
      cases forms' with
      | nil =>
          obtain ⟨a, rest, hbytes, -⟩ := Form.length_bytes hf
          have hnil := h'.bytes
          rw [List.flatMap_cons, hbytes] at hnil
          cases hnil
      | cons g forms' =>
          have hcons := h'.bytes
          rw [List.flatMap_cons, List.flatMap_cons] at hcons
          obtain ⟨rfl, hrest⟩ :=
            Form.bytes_append_inj (h'.valid g List.mem_cons_self) hf hcons
          rw [ih (fun f' hf' => hvalid f' (List.mem_cons_of_mem _ hf'))
            ⟨fun g' hg' => h'.valid g' (List.mem_cons_of_mem _ hg'), hrest⟩]

/-! ## Writing units -/

theorem exists_form (u : UInt16) : ∃ f : Form, f.Valid ∧ f.bytes = encodeUnit u ∧ f.unit = u := by
  have hread : decodeUnits (encodeUnit u) = .ok [u] := by
    simpa using decodeUnits_flatMap [u]
  obtain ⟨forms, hforms⟩ := exists_divides hread
  have hunits : forms.map Form.unit = [u] := by
    rw [decodeUnits_of_divides hforms] at hread
    exact Except.ok.inj hread
  obtain ⟨f, rfl, hunit⟩ := List.map_eq_singleton_iff.mp hunits
  exact ⟨f, hforms.valid f List.mem_cons_self, by simpa using hforms.bytes, hunit⟩

namespace Form

theorem bounds_of_mem {f : Form} (h : f.Valid) {b : UInt8} (hb : b ∈ f.bytes) :
    b ≠ 0 ∧ b < 0xf0 := by
  have hrange : 0 < b.toNat ∧ b.toNat < 0xf0 := by
    cases f with
    | single a =>
        obtain rfl := List.mem_singleton.mp hb
        have := h.2
        exact ⟨h.1, by omega⟩
    | pair a b₁ =>
        obtain ⟨⟨hlow, hhigh⟩, hb₁, hb₁'⟩ := h
        simp only [bytes, List.mem_cons, List.not_mem_nil, or_false] at hb
        rcases hb with rfl | rfl <;> omega
    | triple a b₁ b₂ =>
        obtain ⟨⟨hlow, hhigh⟩, ⟨hb₁, hb₁'⟩, hb₂, hb₂'⟩ := h
        simp only [bytes, List.mem_cons, List.not_mem_nil, or_false] at hb
        rcases hb with rfl | rfl | rfl <;> omega
  refine ⟨?_, UInt8.lt_iff_toNat_lt.mpr hrange.2⟩
  rintro rfl
  exact absurd hrange.1 (by decide)

/-- Only the zero unit has a form that is longer than need be. -/
def Shortest (f : Form) : Prop := f.Overlong → f = nul

theorem eq_nul {a b : UInt8} (h : (pair a b).Valid) (hzero : (pair a b).number = 0) :
    pair a b = nul := by
  obtain ⟨⟨hlow, hhigh⟩, hb, hb'⟩ := h
  simp only [number] at hzero
  have ha : a = 0xc0 := UInt8.toNat_inj.mp (show a.toNat = 0xc0 by omega)
  have hb : b = 0x80 := UInt8.toNat_inj.mp (show b.toNat = 0x80 by omega)
  rw [ha, hb, nul]

theorem Shortest.range {f : Form} (h : f.Shortest) (hf : f.Valid) :
    match f with
    | single _ => 0 < f.number ∧ f.number < 0x80
    | pair _ _ => (f.number = 0 ∨ 0x80 ≤ f.number) ∧ f.number < 0x800
    | triple _ _ _ => 0x800 ≤ f.number := by
  cases f with
  | single a => exact hf
  | pair a b =>
      have hlt : (pair a b).number < 0x800 := by
        simp only [number]
        omega
      refine ⟨?_, hlt⟩
      by_cases hover : (pair a b).Overlong
      · rw [h hover]
        exact .inl (by decide)
      · exact .inr (Nat.le_of_not_lt hover)
  | triple a b c =>
      refine Nat.le_of_not_lt fun hover => ?_
      cases h hover

theorem eq_of_shortest {f g : Form} (hf : f.Valid) (hg : g.Valid) (hf' : f.Shortest)
    (hg' : g.Shortest) (h : f.number = g.number) : f = g := by
  have hrange := hf'.range hf
  have hrange' := hg'.range hg
  cases f with
  | single a =>
      cases g with
      | single a' => rw [UInt8.toNat_inj.mp h]
      | pair | triple => omega
  | pair a b =>
      cases g with
      | single | triple => omega
      | pair a' b' =>
          obtain ⟨⟨ha, ha₁⟩, hb, hb₁⟩ := hf
          obtain ⟨⟨ha', ha₁'⟩, hb', hb₁'⟩ := hg
          simp only [number] at h
          have heq : a = a' := UInt8.toNat_inj.mp (by omega)
          have heq' : b = b' := UInt8.toNat_inj.mp (by omega)
          rw [heq, heq']
  | triple a b c =>
      cases g with
      | single | pair => omega
      | triple a' b' c' =>
          obtain ⟨⟨ha, ha₁⟩, ⟨hb, hb₁⟩, hc, hc₁⟩ := hf
          obtain ⟨⟨ha', ha₁'⟩, ⟨hb', hb₁'⟩, hc', hc₁'⟩ := hg
          simp only [number] at h
          have heq : a = a' := UInt8.toNat_inj.mp (by omega)
          have heq' : b = b' := UInt8.toNat_inj.mp (by omega)
          have heq'' : c = c' := UInt8.toNat_inj.mp (by omega)
          rw [heq, heq', heq'']

theorem shortest_of_encodeUnit {f : Form} (hf : f.Valid) (h : encodeUnit f.unit = f.bytes) :
    f.Shortest := by
  intro hover
  cases f with
  | single a => exact hover.elim
  | pair a b =>
      by_cases hzero : (pair a b).number = 0
      · exact eq_nul hf hzero
      · have hne : (pair a b).unit ≠ 0 := by
          intro h0
          rw [← toNat_unit, h0] at hzero
          exact hzero rfl
        have hsmall : (pair a b).unit < 0x80 := by
          rw [UInt16.lt_iff_toNat_lt, toNat_unit]
          exact hover
        rw [encodeUnit, if_pos ⟨hne, hsmall⟩] at h
        simp [bytes] at h
  | triple a b c =>
      have hsmall : (triple a b c).unit < 0x800 := by
        rw [UInt16.lt_iff_toNat_lt, toNat_unit]
        exact hover
      rw [encodeUnit, if_pos hsmall] at h
      split at h <;> simp [bytes] at h

end Form

/-- The bytes of a form are those written for its unit, unless fewer would do. -/
theorem encodeUnit_eq_bytes_iff {f : Form} (hf : f.Valid) :
    encodeUnit f.unit = f.bytes ↔ f.Shortest := by
  refine ⟨Form.shortest_of_encodeUnit hf, fun hshort => ?_⟩
  obtain ⟨g, hg, hbytes, hunit⟩ := exists_form f.unit
  have hshort' : g.Shortest := Form.shortest_of_encodeUnit hg (by rw [hunit, hbytes])
  have hnumber : f.number = g.number := by rw [← Form.toNat_unit, ← Form.toNat_unit, hunit]
  rw [← hbytes, Form.eq_of_shortest hf hg hshort hshort' hnumber]

/-! ## Surrogates -/

/-- Every surrogate has its partner: a high one just before a low one. -/
inductive Paired : List UInt16 → Prop
  | nil : Paired []
  | plain {u : UInt16} {rest : List UInt16} (notHigh : isHighSurrogate u = false)
      (notLow : isLowSurrogate u = false) (rest_paired : Paired rest) : Paired (u :: rest)
  | pair {high low : UInt16} {rest : List UInt16} (isHigh : isHighSurrogate high = true)
      (isLow : isLowSurrogate low = true) (rest_paired : Paired rest) :
      Paired (high :: low :: rest)

theorem Paired.charUnits {rest : List UInt16} (h : Paired rest) (c : Char) :
    Paired (charUnits c ++ rest) := by
  by_cases hc : c.toNat < 0x10000
  · obtain ⟨hhigh, hlow⟩ := not_surrogate_of_char hc
    rw [ModifiedUtf8.charUnits, if_pos hc]
    exact .plain hhigh hlow h
  · obtain ⟨high, low, hunits, hhigh, hlow, -⟩ := exists_surrogates hc
    rw [hunits]
    exact .pair hhigh hlow h

theorem paired_flatMap (chars : List Char) : Paired (chars.flatMap charUnits) := by
  induction chars with
  | nil => exact .nil
  | cons c rest ih =>
      rw [List.flatMap_cons]
      exact ih.charUnits c

theorem toNat_char {n : Nat} (h : n.isValidChar) : (Char.ofNat n).toNat = n := by
  rw [Char.ofNat, dif_pos h]
  rfl

theorem charUnits_plain {u : UInt16} (hhigh : isHighSurrogate u = false)
    (hlow : isLowSurrogate u = false) : charUnits (Char.ofNat u.toNat) = [u] := by
  have hu := u.toNat_lt
  rw [Bool.eq_false_iff, ne_eq, isHighSurrogate_iff] at hhigh
  rw [Bool.eq_false_iff, ne_eq, isLowSurrogate_iff] at hlow
  have hvalid : u.toNat.isValidChar := by
    show u.toNat < 0xd800 ∨ 0xdfff < u.toNat ∧ u.toNat < 0x110000
    omega
  have hnat := toNat_char hvalid
  rw [charUnits, if_pos (by omega), hnat, UInt16.ofNat_toNat]

theorem charUnits_joinSurrogates {high low : UInt16} (hhigh : isHighSurrogate high = true)
    (hlow : isLowSurrogate low = true) : charUnits (joinSurrogates high low) = [high, low] := by
  rw [isHighSurrogate_iff] at hhigh
  rw [isLowSurrogate_iff] at hlow
  obtain ⟨above, habove⟩ : ∃ above, high.toNat = 0xd800 + above :=
    Nat.exists_eq_add_of_le hhigh.1
  obtain ⟨offset, hoffset⟩ : ∃ offset, low.toNat = 0xdc00 + offset :=
    Nat.exists_eq_add_of_le hlow.1
  have hvalid : (0x10000 + above * 0x400 + offset).isValidChar := by
    show _ < 0xd800 ∨ 0xdfff < _ ∧ _ < 0x110000
    omega
  have hnat : (joinSurrogates high low).toNat = 0x10000 + above * 0x400 + offset := by
    rw [joinSurrogates, habove, hoffset, Nat.add_sub_cancel_left, Nat.add_sub_cancel_left,
      toNat_char hvalid]
  have hhighUnit : UInt16.ofNat (0xd800 + (0x10000 + above * 0x400 + offset - 0x10000) / 0x400) =
      high := by
    apply UInt16.toNat_inj.mp
    rw [UInt16.toNat_ofNat']
    omega
  have hlowUnit : UInt16.ofNat (0xdc00 + (0x10000 + above * 0x400 + offset - 0x10000) % 0x400) =
      low := by
    apply UInt16.toNat_inj.mp
    rw [UInt16.toNat_ofNat']
    omega
  rw [charUnits, if_neg (by omega), hnat]
  dsimp only
  rw [hhighUnit, hlowUnit]

/-- Units without a lone surrogate are those of the characters read from them. -/
theorem flatMap_charUnits_of_paired {units : List UInt16} (h : Paired units) :
    (unitsToChars units).flatMap charUnits = units := by
  induction h with
  | nil => rw [unitsToChars, List.flatMap_nil]
  | plain hhigh hlow _ ih =>
      rw [unitsToChars_single hhigh hlow, List.flatMap_cons, charUnits_plain hhigh hlow, ih]
      rfl
  | pair hhigh hlow _ ih =>
      rw [unitsToChars, hhigh, hlow, Bool.and_self, if_pos rfl, List.flatMap_cons,
        charUnits_joinSurrogates hhigh hlow, ih]
      rfl

/-! ## Stored texts -/

theorem encode_eq_flatMap (text : String) :
    encode text = (text.toList.flatMap charUnits).flatMap encodeUnit := by
  rw [encode, List.flatMap_assoc]

theorem bounds_of_mem_encode {text : String} {b : UInt8} (h : b ∈ encode text) :
    b ≠ 0 ∧ b < 0xf0 := by
  rw [encode_eq_flatMap] at h
  obtain ⟨u, -, hb⟩ := List.mem_flatMap.mp h
  obtain ⟨f, hf, hbytes, -⟩ := exists_form u
  rw [← hbytes] at hb
  exact Form.bounds_of_mem hf hb

theorem exists_divides_encodeUnit (units : List UInt16) :
    ∃ forms, Divides forms (units.flatMap encodeUnit) ∧ forms.map Form.unit = units ∧
      ∀ f ∈ forms, f.Shortest := by
  induction units with
  | nil => exact ⟨[], ⟨nofun, rfl⟩, rfl, nofun⟩
  | cons u units ih =>
      obtain ⟨forms, hforms, hunits, hshort⟩ := ih
      obtain ⟨f, hf, hbytes, hunit⟩ := exists_form u
      have hfirst : f.Shortest := (encodeUnit_eq_bytes_iff hf).mp (by rw [hunit, hbytes])
      refine ⟨f :: forms, ?_, by rw [List.map_cons, hunit, hunits], ?_⟩
      · rw [List.flatMap_cons, ← hbytes]
        exact hforms.cons hf
      · exact List.forall_mem_cons.mpr ⟨hfirst, hshort⟩

theorem flatMap_encodeUnit_eq_iff {forms : List Form} {bs : List UInt8} (h : Divides forms bs) :
    (forms.map Form.unit).flatMap encodeUnit = bs ↔ ∀ f ∈ forms, f.Shortest := by
  constructor
  · intro heq
    obtain ⟨forms', hforms', -, hshort⟩ := exists_divides_encodeUnit (forms.map Form.unit)
    rw [heq] at hforms'
    rwa [h.unique hforms']
  · intro hshort
    rw [← h.bytes, List.flatMap_map]
    refine List.flatMap_congr fun f hf => ?_
    exact (encodeUnit_eq_bytes_iff (h.valid f hf)).mpr (hshort f hf)

theorem encode_eq_iff {forms : List Form} {bs : List UInt8} {text : String}
    (h : Divides forms bs) (hdecode : decode bs = .ok text) :
    encode text = bs ↔ (∀ f ∈ forms, f.Shortest) ∧ Paired (forms.map Form.unit) := by
  have hunits := decodeUnits_of_divides h
  have htext : text.toList = unitsToChars (forms.map Form.unit) := by
    rw [decode_eq, hunits] at hdecode
    cases hdecode
    rw [String.toList_ofList]
  constructor
  · intro heq
    have hread : decodeUnits (encode text) = .ok (text.toList.flatMap charUnits) := by
      rw [encode_eq_flatMap, decodeUnits_flatMap]
    rw [heq, hunits] at hread
    have hsame := Except.ok.inj hread
    rw [encode_eq_flatMap, ← hsame, flatMap_encodeUnit_eq_iff h] at heq
    exact ⟨heq, hsame ▸ paired_flatMap text.toList⟩
  · rintro ⟨hshort, hpaired⟩
    rw [encode_eq_flatMap, htext, flatMap_charUnits_of_paired hpaired]
    exact (flatMap_encodeUnit_eq_iff h).mpr hshort

/-- A text is stored without zero bytes and without bytes of longer forms, and is read back.
A stored text that is read is cut into forms in one way, and it is what would be written for
the text read exactly if only the zero unit has a form that is longer than need be, and that
of two bytes, and no surrogate is without its partner. -/
theorem stored_text_exact :
    (∀ text : String, (∀ b ∈ encode text, b ≠ 0 ∧ b < 0xf0) ∧ decode (encode text) = .ok text) ∧
    ∀ (bs : List UInt8) (text : String), decode bs = .ok text →
      ∃ forms, Divides forms bs ∧ (∀ forms', Divides forms' bs → forms' = forms) ∧
        (encode text = bs ↔
          (∀ f ∈ forms, f.Overlong → f = .pair 0xc0 0x80) ∧ Paired (forms.map Form.unit)) := by
  refine ⟨fun text => ⟨fun b hb => bounds_of_mem_encode hb, decode_encode text⟩, ?_⟩
  intro bs text hdecode
  have hread : ∃ units, decodeUnits bs = .ok units := by
    cases hunits : decodeUnits bs with
    | ok units => exact ⟨units, rfl⟩
    | error e =>
        rw [decode_eq, hunits] at hdecode
        cases hdecode
  obtain ⟨units, hunits⟩ := hread
  obtain ⟨forms, hforms⟩ := exists_divides hunits
  exact ⟨forms, hforms, fun forms' h => h.unique hforms, encode_eq_iff hforms hdecode⟩

namespace AllLengths

/-- A letter, the zero character and a character beyond the basic plane. -/
def text : String := String.ofList ['a', Char.ofNat 0, Char.ofNat 0x1f600]

def bytes : List UInt8 := [0x61, 0xc0, 0x80, 0xed, 0xa0, 0xbd, 0xed, 0xb8, 0x80]

def forms : List Form :=
  [.single 0x61, .pair 0xc0 0x80, .triple 0xed 0xa0 0xbd, .triple 0xed 0xb8 0x80]

theorem stored_text_bytes : decode bytes = .ok text ∧ encode text = bytes := by
  have hdecode : decode bytes = .ok text := by decide +kernel
  obtain ⟨forms', -, hunique, hiff⟩ := stored_text_exact.2 bytes text hdecode
  have hforms : forms = forms' := hunique forms ⟨by decide, rfl⟩
  refine ⟨hdecode, hiff.mpr ⟨hforms ▸ by decide, hforms ▸ ?_⟩⟩
  have hpair : Paired [0xd83d, 0xde00] := .pair rfl rfl .nil
  exact .plain rfl rfl (.plain rfl rfl hpair)

end AllLengths

end ClassEngine.ClassFile.ModifiedUtf8
