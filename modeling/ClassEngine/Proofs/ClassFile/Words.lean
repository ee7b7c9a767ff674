import ClassEngine.BigEndian
import ClassEngine.ClassFile.ModifiedUtf8
import Mathlib.Data.Nat.Bitwise
import Mathlib.Tactic.Common

/-!
# Words and text as bytes

A big-endian word is read back from its bytes, and a text from its modified UTF-8: each
character from its units, and each unit from its one to three bytes.
-/

namespace ClassEngine

namespace BigEndian

theorem toNat_join16 (a b : UInt8) : (join16 a b).toNat = a.toNat * 256 + b.toNat := by
  have ha := a.toNat_lt
  have hb := b.toNat_lt
  have h : a.toNat <<< 8 < 65536 := by rw [Nat.shiftLeft_eq]; omega
  rw [join16, UInt16.toNat_or, UInt16.toNat_shiftLeft]
  simp only [UInt8.toNat_toUInt16, UInt16.toNat_ofNat]
  show a.toNat <<< 8 % 2 ^ 16 ||| b.toNat = _
  rw [Nat.mod_eq_of_lt (by simpa using h), ← Nat.shiftLeft_add_eq_or_of_lt (by simpa using hb),
    Nat.shiftLeft_eq]

theorem toNat_join32 (a b c d : UInt8) :
    (join32 a b c d).toNat = (join16 a b).toNat * 65536 + (join16 c d).toNat := by
  have ha := a.toNat_lt
  have hb := b.toNat_lt
  have hc := c.toNat_lt
  have hd := d.toNat_lt
  rw [toNat_join16, toNat_join16]
  simp only [join32, UInt32.toNat_or, UInt32.toNat_shiftLeft, UInt8.toNat_toUInt32]
  show a.toNat <<< 24 % 2 ^ 32 ||| b.toNat <<< 16 % 2 ^ 32 ||| c.toNat <<< 8 % 2 ^ 32 |||
    d.toNat = _
  rw [Nat.mod_eq_of_lt, Nat.mod_eq_of_lt, Nat.mod_eq_of_lt]
  · rw [Nat.or_assoc, Nat.or_assoc, ← Nat.shiftLeft_add_eq_or_of_lt (i := 8),
      ← Nat.shiftLeft_add_eq_or_of_lt (i := 16), ← Nat.shiftLeft_add_eq_or_of_lt (i := 24)]
    · simp only [Nat.shiftLeft_eq]; omega
    · simp only [Nat.shiftLeft_eq]; omega
    · omega
    · omega
  · simp only [Nat.shiftLeft_eq]; omega
  · simp only [Nat.shiftLeft_eq]; omega
  · simp only [Nat.shiftLeft_eq]; omega

theorem toNat_join64 (a b : UInt32) : (join64 a b).toNat = a.toNat * 4294967296 + b.toNat := by
  have ha := a.toNat_lt
  have hb := b.toNat_lt
  simp only [join64, UInt64.toNat_or, UInt64.toNat_shiftLeft, UInt32.toNat_toUInt64]
  show a.toNat <<< 32 % 2 ^ 64 ||| b.toNat = _
  rw [Nat.mod_eq_of_lt, ← Nat.shiftLeft_add_eq_or_of_lt (by simpa using hb), Nat.shiftLeft_eq]
  rw [Nat.shiftLeft_eq]; omega

theorem join16_bytes16 (w : UInt16) : join16 (w >>> 8).toUInt8 w.toUInt8 = w := by
  have h := w.toNat_lt
  apply UInt16.toNat_inj.mp
  rw [toNat_join16]
  simp only [UInt16.toNat_toUInt8, UInt16.toNat_shiftRight, UInt16.toNat_ofNat]
  show (w.toNat >>> 8) % 2 ^ 8 * 256 + w.toNat % 2 ^ 8 = _
  rw [Nat.shiftRight_eq_div_pow]
  omega

theorem join32_bytes32 (w : UInt32) :
    join32 (w >>> 24).toUInt8 (w >>> 16).toUInt8 (w >>> 8).toUInt8 w.toUInt8 = w := by
  have h := w.toNat_lt
  apply UInt32.toNat_inj.mp
  rw [toNat_join32, toNat_join16, toNat_join16]
  simp only [UInt32.toNat_toUInt8, UInt32.toNat_shiftRight]
  show (w.toNat >>> 24 % 2 ^ 8 * 256 + w.toNat >>> 16 % 2 ^ 8) * 65536 +
    (w.toNat >>> 8 % 2 ^ 8 * 256 + w.toNat % 2 ^ 8) = _
  simp only [Nat.shiftRight_eq_div_pow]
  omega

theorem join64_halves (w : UInt64) : join64 (w >>> 32).toUInt32 w.toUInt32 = w := by
  have h := w.toNat_lt
  apply UInt64.toNat_inj.mp
  rw [toNat_join64]
  simp only [UInt64.toNat_toUInt32, UInt64.toNat_shiftRight]
  show w.toNat >>> 32 % 2 ^ 32 * 4294967296 + w.toNat % 2 ^ 32 = _
  simp only [Nat.shiftRight_eq_div_pow]
  omega
end BigEndian

namespace ClassFile.ModifiedUtf8

/-! ## Units as bytes -/

theorem and_continuation {y : UInt8} (hy : y < 64) :
    isContinuation (y ||| 0x80) = true ∧ (y ||| 0x80) &&& 0x3f = y := by
  have h : ∀ n < 64, isContinuation (UInt8.ofNat n ||| 0x80) = true ∧
      (UInt8.ofNat n ||| 0x80) &&& 0x3f = UInt8.ofNat n := by decide
  simpa using h y.toNat hy

theorem and_pairLead {x : UInt8} (hx : x < 32) :
    x ||| 0xc0 ≠ 0 ∧ ¬ x ||| 0xc0 < 0x80 ∧ (x ||| 0xc0) &&& 0xe0 = 0xc0 ∧
      (x ||| 0xc0) &&& 0x1f = x := by
  have h : ∀ n < 32, UInt8.ofNat n ||| 0xc0 ≠ 0 ∧ ¬ UInt8.ofNat n ||| 0xc0 < 0x80 ∧
      (UInt8.ofNat n ||| 0xc0) &&& 0xe0 = 0xc0 ∧
        (UInt8.ofNat n ||| 0xc0) &&& 0x1f = UInt8.ofNat n := by decide
  simpa using h x.toNat hx

theorem and_tripleLead {x : UInt8} (hx : x < 16) :
    x ||| 0xe0 ≠ 0 ∧ ¬ x ||| 0xe0 < 0x80 ∧ (x ||| 0xe0) &&& 0xe0 ≠ 0xc0 ∧
      (x ||| 0xe0) &&& 0xf0 = 0xe0 ∧ (x ||| 0xe0) &&& 0x0f = x := by
  have h : ∀ n < 16, UInt8.ofNat n ||| 0xe0 ≠ 0 ∧ ¬ UInt8.ofNat n ||| 0xe0 < 0x80 ∧
      (UInt8.ofNat n ||| 0xe0) &&& 0xe0 ≠ 0xc0 ∧ (UInt8.ofNat n ||| 0xe0) &&& 0xf0 = 0xe0 ∧
        (UInt8.ofNat n ||| 0xe0) &&& 0x0f = UInt8.ofNat n := by decide
  simpa using h x.toNat hx

theorem toNat_lowBits (u : UInt16) : (u &&& 0x3f).toUInt8.toNat = u.toNat % 64 := by
  have hand : u.toNat &&& 63 = u.toNat % 64 := Nat.and_two_pow_sub_one_eq_mod u.toNat 6
  rw [UInt16.toNat_toUInt8, UInt16.toNat_and]
  show (u.toNat &&& 63) % 256 = u.toNat % 64
  omega

theorem toNat_highBits (u : UInt16) {shift : UInt16} (h : shift < 16) :
    (u >>> shift).toNat = u.toNat / 2 ^ shift.toNat := by
  rw [UInt16.toNat_shiftRight, Nat.shiftRight_eq_div_pow]
  have : shift.toNat % 16 = shift.toNat := Nat.mod_eq_of_lt h
  rw [this]

theorem pairUnit_split {u : UInt16} (h : u < 0x800) :
    ((u >>> 6).toUInt8).toUInt16 <<< 6 ||| ((u &&& 0x3f).toUInt8).toUInt16 = u := by
  have hu : u.toNat < 2048 := h
  have hhigh : (u >>> 6).toNat = u.toNat / 64 := toNat_highBits u (by decide)
  apply UInt16.toNat_inj.mp
  rw [UInt16.toNat_or, UInt16.toNat_shiftLeft, UInt8.toNat_toUInt16, UInt8.toNat_toUInt16,
    UInt16.toNat_toUInt8, hhigh, toNat_lowBits]
  show (u.toNat / 64 % 256) <<< 6 % 65536 ||| u.toNat % 64 = u.toNat
  rw [Nat.mod_eq_of_lt (b := 65536) (by rw [Nat.shiftLeft_eq]; omega),
    ← Nat.shiftLeft_add_eq_or_of_lt (i := 6) (by omega), Nat.shiftLeft_eq]
  omega

theorem tripleUnit_split (u : UInt16) :
    ((u >>> 12).toUInt8).toUInt16 <<< 12 ||| ((u >>> 6 &&& 0x3f).toUInt8).toUInt16 <<< 6 |||
      ((u &&& 0x3f).toUInt8).toUInt16 = u := by
  have hu := u.toNat_lt
  have hhigh : (u >>> 12).toNat = u.toNat / 4096 := toNat_highBits u (by decide)
  have hmiddle : (u >>> 6).toNat = u.toNat / 64 := toNat_highBits u (by decide)
  apply UInt16.toNat_inj.mp
  rw [UInt16.toNat_or, UInt16.toNat_or, UInt16.toNat_shiftLeft, UInt16.toNat_shiftLeft,
    UInt8.toNat_toUInt16, UInt8.toNat_toUInt16, UInt8.toNat_toUInt16, toNat_lowBits, toNat_lowBits,
    UInt16.toNat_toUInt8, hhigh, hmiddle]
  show (u.toNat / 4096 % 256) <<< 12 % 65536 ||| (u.toNat / 64 % 64) <<< 6 % 65536 |||
    u.toNat % 64 = u.toNat
  rw [Nat.mod_eq_of_lt (b := 65536) (by rw [Nat.shiftLeft_eq]; omega),
    Nat.mod_eq_of_lt (b := 65536) (by rw [Nat.shiftLeft_eq]; omega), Nat.or_assoc,
    ← Nat.shiftLeft_add_eq_or_of_lt (i := 6) (by omega),
    ← Nat.shiftLeft_add_eq_or_of_lt (i := 12) (by rw [Nat.shiftLeft_eq]; omega)]
  simp only [Nat.shiftLeft_eq]
  omega

theorem decodeUnits_ascii {a : UInt8} (hne : a ≠ 0) (hascii : a < 0x80) (rest : List UInt8) :
    decodeUnits (a :: rest) = (a.toUInt16 :: ·) <$> decodeUnits rest := by
  cases rest with
  | nil => simp only [decodeUnits, hne, hascii, if_true, if_false]; rfl
  | cons b rest =>
      conv_lhs => rw [decodeUnits, if_neg hne, if_pos hascii]
      cases decodeUnits (b :: rest) <;> rfl

theorem decodeUnits_encodeUnit (u : UInt16) (rest : List UInt8) :
    decodeUnits (encodeUnit u ++ rest) = (u :: ·) <$> decodeUnits rest := by
  have hu := u.toNat_lt
  have hlow (v : UInt16) : (v &&& 0x3f).toUInt8 < 64 := by
    show (v &&& 0x3f).toUInt8.toNat < 64
    rw [toNat_lowBits]
    omega
  obtain ⟨hcontinues, hbits⟩ := and_continuation (hlow u)
  unfold encodeUnit
  split
  · rename_i h
    have hsmall : u.toNat < 128 := h.2
    have hbyte : u.toUInt8.toNat = u.toNat := by
      rw [UInt16.toNat_toUInt8]
      omega
    have hne : u.toUInt8 ≠ 0 := by
      intro hzero
      rw [hzero] at hbyte
      exact h.1 (UInt16.toNat_inj.mp hbyte.symm)
    have hascii : u.toUInt8 < 0x80 := by
      show u.toUInt8.toNat < 128
      omega
    have hunit : u.toUInt8.toUInt16 = u := by
      apply UInt16.toNat_inj.mp
      rw [UInt8.toNat_toUInt16, hbyte]
    rw [List.cons_append, List.nil_append, decodeUnits_ascii hne hascii, hunit]
  · split
    · rename_i h
      have hpair : u.toNat < 2048 := h
      have hlead : (u >>> 6).toUInt8 < 32 := by
        show (u >>> 6).toUInt8.toNat < 32
        rw [UInt16.toNat_toUInt8, toNat_highBits u (by decide)]
        show u.toNat / 64 % 256 < 32
        omega
      obtain ⟨hne, hlarge, hmask, hleadBits⟩ := and_pairLead hlead
      rw [List.cons_append, List.cons_append, List.nil_append, decodeUnits, if_neg hne,
        if_neg hlarge, if_pos hmask, if_pos hcontinues, pairUnit, hleadBits, hbits,
        pairUnit_split h]
      rfl
    · have hlead : (u >>> 12).toUInt8 < 16 := by
        show (u >>> 12).toUInt8.toNat < 16
        rw [UInt16.toNat_toUInt8, toNat_highBits u (by decide)]
        show u.toNat / 4096 % 256 < 16
        omega
      obtain ⟨hcontinues', hbits'⟩ := and_continuation (hlow (u >>> 6))
      obtain ⟨hne, hlarge, hpair, hmask, hleadBits⟩ := and_tripleLead hlead
      rw [List.cons_append, List.cons_append, List.cons_append, List.nil_append, decodeUnits,
        if_neg hne, if_neg hlarge, if_neg hpair, if_pos hmask]
      dsimp only
      rw [hcontinues', hcontinues, Bool.and_self, if_pos rfl, tripleUnit, hleadBits, hbits',
        hbits, tripleUnit_split]
      rfl

theorem decodeUnits_flatMap (units : List UInt16) :
    decodeUnits (units.flatMap encodeUnit) = .ok units := by
  induction units with
  | nil => rw [List.flatMap_nil, decodeUnits]
  | cons u rest ih =>
      rw [List.flatMap_cons, decodeUnits_encodeUnit, ih]
      rfl

/-! ## Units and characters -/

theorem isHighSurrogate_iff {u : UInt16} :
    isHighSurrogate u = true ↔ 0xd800 ≤ u.toNat ∧ u.toNat < 0xdc00 := by
  simp only [isHighSurrogate, Bool.and_eq_true, decide_eq_true_eq]
  exact Iff.rfl

theorem isLowSurrogate_iff {u : UInt16} :
    isLowSurrogate u = true ↔ 0xdc00 ≤ u.toNat ∧ u.toNat < 0xe000 := by
  simp only [isLowSurrogate, Bool.and_eq_true, decide_eq_true_eq]
  exact Iff.rfl

theorem not_surrogate_of_char {c : Char} (h : c.toNat < 0x10000) :
    isHighSurrogate (UInt16.ofNat c.toNat) = false ∧
      isLowSurrogate (UInt16.ofNat c.toNat) = false := by
  have hvalid : c.toNat < 0xd800 ∨ 0xdfff < c.toNat ∧ c.toNat < 0x110000 := c.valid
  have hunit : (UInt16.ofNat c.toNat).toNat = c.toNat := UInt16.toNat_ofNat_of_lt' h
  constructor
  · rw [Bool.eq_false_iff, ne_eq, isHighSurrogate_iff, hunit]
    omega
  · rw [Bool.eq_false_iff, ne_eq, isLowSurrogate_iff, hunit]
    omega

theorem unitsToChars_single {u : UInt16} (hhigh : isHighSurrogate u = false)
    (hlow : isLowSurrogate u = false) (rest : List UInt16) :
    unitsToChars (u :: rest) = Char.ofNat u.toNat :: unitsToChars rest := by
  cases rest with
  | nil => simp [unitsToChars, hhigh, hlow]
  | cons v rest => simp [unitsToChars, hhigh, hlow]

theorem exists_surrogates {c : Char} (h : ¬ c.toNat < 0x10000) :
    ∃ high low, charUnits c = [high, low] ∧ isHighSurrogate high = true ∧
      isLowSurrogate low = true ∧ joinSurrogates high low = c := by
  have hvalid : c.toNat < 0xd800 ∨ 0xdfff < c.toNat ∧ c.toNat < 0x110000 := c.valid
  have hhighNat : (UInt16.ofNat (0xd800 + (c.toNat - 0x10000) / 0x400)).toNat =
      0xd800 + (c.toNat - 0x10000) / 0x400 := by
    rw [UInt16.toNat_ofNat']
    omega
  have hlowNat : (UInt16.ofNat (0xdc00 + (c.toNat - 0x10000) % 0x400)).toNat =
      0xdc00 + (c.toNat - 0x10000) % 0x400 := by
    rw [UInt16.toNat_ofNat']
    omega
  refine ⟨_, _, if_neg h, ?_, ?_, ?_⟩
  · rw [isHighSurrogate_iff, hhighNat]
    omega
  · rw [isLowSurrogate_iff, hlowNat]
    omega
  · have hsum : 0x10000 + (0xd800 + (c.toNat - 0x10000) / 0x400 - 0xd800) * 0x400 +
        (0xdc00 + (c.toNat - 0x10000) % 0x400 - 0xdc00) = c.toNat := by omega
    rw [joinSurrogates, hhighNat, hlowNat, hsum, Char.ofNat_toNat]

theorem unitsToChars_charUnits (c : Char) (rest : List UInt16) :
    unitsToChars (charUnits c ++ rest) = c :: unitsToChars rest := by
  by_cases h : c.toNat < 0x10000
  · obtain ⟨hhigh, hlow⟩ := not_surrogate_of_char h
    rw [charUnits, if_pos h, List.cons_append, List.nil_append, unitsToChars_single hhigh hlow,
      UInt16.toNat_ofNat_of_lt' h, Char.ofNat_toNat]
  · obtain ⟨high, low, hunits, hhigh, hlow, hjoin⟩ := exists_surrogates h
    rw [hunits, List.cons_append, List.cons_append, List.nil_append, unitsToChars, hhigh, hlow,
      Bool.and_self, if_pos rfl, hjoin]

theorem unitsToChars_flatMap (chars : List Char) :
    unitsToChars (chars.flatMap charUnits) = chars := by
  induction chars with
  | nil => rw [List.flatMap_nil, unitsToChars]
  | cons c rest ih => rw [List.flatMap_cons, unitsToChars_charUnits, ih]

theorem decodeUnits_of_ascii {bs : List UInt8} (h : ∀ b ∈ bs, b ≠ 0 ∧ b < 0x80) :
    decodeUnits bs = .ok (bs.map UInt8.toUInt16) := by
  induction bs with
  | nil => rw [decodeUnits, List.map_nil]
  | cons b rest ih =>
      obtain ⟨⟨hne, hascii⟩, hrest⟩ := List.forall_mem_cons.mp h
      rw [decodeUnits_ascii hne hascii, ih hrest]
      rfl

theorem unitsToChars_of_ascii {bs : List UInt8} (h : ∀ b ∈ bs, b ≠ 0 ∧ b < 0x80) :
    unitsToChars (bs.map UInt8.toUInt16) = bs.map fun b => Char.ofNat b.toNat := by
  induction bs with
  | nil => rw [List.map_nil, List.map_nil, unitsToChars]
  | cons b rest ih =>
      obtain ⟨⟨-, hascii⟩, hrest⟩ := List.forall_mem_cons.mp h
      have hsmall : b.toUInt16.toNat < 128 := by
        rw [UInt8.toNat_toUInt16]
        exact hascii
      have hhigh : isHighSurrogate b.toUInt16 = false := by
        rw [Bool.eq_false_iff, ne_eq, isHighSurrogate_iff]
        omega
      have hlow : isLowSurrogate b.toUInt16 = false := by
        rw [Bool.eq_false_iff, ne_eq, isLowSurrogate_iff]
        omega
      rw [List.map_cons, unitsToChars_single hhigh hlow, ih hrest, UInt8.toNat_toUInt16,
        List.map_cons]

theorem decode_eq (bs : List UInt8) :
    decode bs = (do return String.ofList (unitsToChars (← decodeUnits bs))) := by
  unfold decode
  split
  · rename_i hascii
    have hbytes : ∀ b ∈ bs, b ≠ 0 ∧ b < 0x80 := by simpa using hascii
    rw [decodeUnits_of_ascii hbytes]
    exact congrArg (fun chars => Except.ok (String.ofList chars))
      (unitsToChars_of_ascii hbytes).symm
  · rfl

theorem decode_encode (text : String) : decode (encode text) = .ok text := by
  have hunits : encode text = (text.toList.flatMap charUnits).flatMap encodeUnit := by
    rw [encode, List.flatMap_assoc]
  rw [decode_eq, hunits, decodeUnits_flatMap]
  show Except.ok (String.ofList (unitsToChars (text.toList.flatMap charUnits))) = _
  rw [unitsToChars_flatMap, String.ofList_toList]

end ClassFile.ModifiedUtf8

end ClassEngine
