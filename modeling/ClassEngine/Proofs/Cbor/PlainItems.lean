import ClassEngine.Cbor.Decode
import ClassEngine.Proofs.ClassFile.Words
import Mathlib.Tactic.Common
import Mathlib.Tactic.NormNum
import Mathlib.Tactic.Ring

/-!
# Items told by their bytes

The plain items are those that records are written with.  A plain item is read back from its bytes,
whatever follows them, if no array or map in it has more entries than the reader admits.  With or
without that, its bytes tell it from every other plain item.
-/

namespace ClassEngine.Cbor

open BigEndian

variable {α β : Type}

/-! ## Bytes of texts -/

theorem toList_loop (b : ByteArray) (i : Nat) (acc : List UInt8) :
    ByteArray.toList.loop b i acc = acc.reverse ++ b.data.toList.drop i := by
  fun_induction ByteArray.toList.loop b i acc with
  | case1 i acc hi ih =>
      have hlist : i < b.data.toList.length := by
        rw [Array.length_toList]
        exact hi
      have hget : b.get! i = b.data.toList[i] := by
        show b.data[i]! = _
        rw [getElem!_pos b.data i hi, Array.getElem_toList]
      rw [ih, List.reverse_cons, List.append_assoc, List.singleton_append, hget,
        ← List.drop_eq_getElem_cons]
  | case2 i acc hi =>
      have hsize : b.data.toList.length ≤ i := by
        rw [Array.length_toList]
        exact Nat.le_of_not_lt hi
      rw [List.drop_eq_nil_of_le hsize, List.append_nil]

theorem toList_eq_data (b : ByteArray) : b.toList = b.data.toList := by
  rw [ByteArray.toList, toList_loop, List.reverse_nil, List.nil_append, List.drop_zero]

theorem length_toUTF8 (s : String) : s.toUTF8.toList.length = s.utf8ByteSize := by
  rw [toList_eq_data, Array.length_toList]
  rfl

theorem textOf_toUTF8 (s : String) : textOf s.toUTF8.toList = .text s := by
  have hbytes : (⟨s.toUTF8.toList.toArray⟩ : ByteArray) = s.toByteArray := by
    rw [toList_eq_data]
    rfl
  rw [textOf, hbytes, String.fromUTF8?, dif_pos s.isValidUTF8]
  rfl

theorem utf8ByteSize_of_textOf {bs : List UInt8} {s : String} (h : textOf bs = .text s) :
    s.utf8ByteSize = bs.length := by
  rw [textOf] at h
  split at h
  · rename_i t ht
    cases h
    rw [String.fromUTF8?] at ht
    split at ht
    · cases ht
      show (⟨bs.toArray⟩ : ByteArray).size = _
      simp [ByteArray.size]
    · cases ht
  · cases h

/-! ## Numbers in heads -/

theorem foldl_natOf (bs : List UInt8) (n : Nat) :
    bs.foldl (fun n b => 256 * n + b.toNat) n = n * 256 ^ bs.length + natOf bs := by
  induction bs generalizing n with
  | nil => simp [natOf]
  | cons b bs ih =>
      have hcons : natOf (b :: bs) = b.toNat * 256 ^ bs.length + natOf bs := by
        rw [natOf, List.foldl_cons, Nat.mul_zero, Nat.zero_add, ih]
      rw [List.foldl_cons, ih, hcons, List.length_cons, Nat.pow_succ]
      ring

theorem natOf_append (as bs : List UInt8) :
    natOf (as ++ bs) = natOf as * 256 ^ bs.length + natOf bs := by
  rw [natOf, List.foldl_append, foldl_natOf]
  rfl

theorem natOf_singleton (b : UInt8) : natOf [b] = b.toNat := by
  simp [natOf]

theorem natOf_bytes16 (w : UInt16) : natOf (bytes16 w) = w.toNat := by
  have h := toNat_join16 (w >>> 8).toUInt8 w.toUInt8
  rw [join16_bytes16] at h
  rw [h]
  simp only [natOf, bytes16, List.foldl_cons, List.foldl_nil]
  omega

theorem natOf_bytes32 (w : UInt32) : natOf (bytes32 w) = w.toNat := by
  have h := toNat_join32 (w >>> 24).toUInt8 (w >>> 16).toUInt8 (w >>> 8).toUInt8 w.toUInt8
  rw [join32_bytes32, toNat_join16, toNat_join16] at h
  rw [h]
  simp only [natOf, bytes32, List.foldl_cons, List.foldl_nil]
  omega

theorem natOf_bytes64 (w : UInt64) : natOf (bytes64 w) = w.toNat := by
  have h := toNat_join64 (w >>> 32).toUInt32 w.toUInt32
  rw [join64_halves] at h
  have hlength : (bytes32 w.toUInt32).length = 4 := rfl
  rw [h, bytes64, natOf_append, natOf_bytes32, natOf_bytes32, hlength]
  norm_num

/-! ## Readers -/

/-- Whatever follows, the reader takes just these bytes for the value. -/
def Reads (x : Decoder α) (bs : List UInt8) (a : α) : Prop :=
  ∀ rest, x (bs ++ rest) = some (a, rest)

theorem bind_apply (x : Decoder α) (f : α → Decoder β) (bs : List UInt8) :
    (x >>= f) bs = (x bs).bind fun p => f p.1 p.2 := rfl

theorem Reads.pure (a : α) : Reads (Pure.pure a) [] a := fun _ => rfl

theorem Reads.bind {x : Decoder α} {f : α → Decoder β} {as bs : List UInt8} {a : α} {b : β}
    (hx : Reads x as a) (hf : Reads (f a) bs b) : Reads (x >>= f) (as ++ bs) b := by
  intro rest
  rw [List.append_assoc, bind_apply, hx]
  exact hf rest

theorem Reads.map {x : Decoder α} {f : α → β} {bs : List UInt8} {a : α} (hx : Reads x bs a) :
    Reads (do return f (← x)) bs (f a) := by
  intro rest
  rw [bind_apply, hx]
  rfl

theorem reads_take (bs : List UInt8) : Reads (take bs.length) bs bs := by
  intro rest
  rw [take, if_neg (by simp), List.take_left, List.drop_left]

theorem reads_times {x : Decoder α} {f : α → List UInt8} :
    ∀ {as : List α}, (∀ a ∈ as, Reads x (f a) a) → Reads (times x as.length) (as.flatMap f) as
  | [], _ => Reads.pure []
  | a :: as, h => by
      rw [List.flatMap_cons, List.length_cons, times]
      exact (h a List.mem_cons_self).bind
        (reads_times fun b hb => h b (List.mem_cons_of_mem a hb)).map

theorem first_byte (m : Major) (info : UInt8) (h : info < 32) :
    Major.ofCode ((m.code <<< 5 ||| info) >>> 5) = m ∧
      (m.code <<< 5 ||| info) &&& 0x1f = info := by
  have hall : ∀ n < 32, Major.ofCode ((m.code <<< 5 ||| UInt8.ofNat n) >>> 5) = m ∧
      (m.code <<< 5 ||| UInt8.ofNat n) &&& 0x1f = UInt8.ofNat n := by
    cases m <;> decide
  simpa using hall info.toNat h

theorem reads_shortHead (m : Major) {n : Nat} (h : n < 24) :
    Reads readHead [m.code <<< 5 ||| UInt8.ofNat n] ⟨m, UInt8.ofNat n, .value n⟩ := by
  intro rest
  have hn : (UInt8.ofNat n).toNat = n := UInt8.toNat_ofNat_of_lt' (Nat.lt_trans h (by decide))
  obtain ⟨hm, hinfo⟩ := first_byte m (UInt8.ofNat n) (by
    show (UInt8.ofNat n).toNat < 32
    omega)
  rw [List.singleton_append, readHead, bind_apply]
  simp only [byte, Option.bind_some, hm, hinfo, hn]
  split
  any_goals omega
  rfl

theorem reads_wideHead (m : Major) (info : UInt8) (bs : List UInt8)
    (h : (info, bs.length) ∈ [((24 : UInt8), 1), (25, 2), (26, 4), (27, 8)]) :
    Reads readHead ((m.code <<< 5 ||| info) :: bs) ⟨m, info, .value (natOf bs)⟩ := by
  intro rest
  have hread := (reads_take bs).map (f := fun bs => Head.mk m info (.value (natOf bs))) rest
  simp only [List.mem_cons, Prod.mk.injEq, List.not_mem_nil, or_false] at h
  have hinfo : info < 32 := by
    obtain ⟨rfl, -⟩ | ⟨rfl, -⟩ | ⟨rfl, -⟩ | ⟨rfl, -⟩ := h <;> decide
  obtain ⟨hm, hlow⟩ := first_byte m info hinfo
  rw [List.cons_append, readHead, bind_apply]
  simp only [byte, Option.bind_some, hm, hlow]
  obtain ⟨rfl, hwidth⟩ | ⟨rfl, hwidth⟩ | ⟨rfl, hwidth⟩ | ⟨rfl, hwidth⟩ := h <;>
    rw [hwidth] at hread <;> exact hread

theorem reads_head (m : Major) {n : Nat} (h : n < 2 ^ 64) :
    ∃ info, Reads readHead (head m n) ⟨m, info, .value n⟩ := by
  rw [head]
  dsimp only
  split
  · rename_i hn
    exact ⟨_, reads_shortHead m hn⟩
  split
  · rename_i hn
    have hread := reads_wideHead m 24 [UInt8.ofNat n] (by simp)
    rw [natOf_singleton, UInt8.toNat_ofNat_of_lt' hn] at hread
    exact ⟨_, hread⟩
  split
  · rename_i hn
    have hread := reads_wideHead m 25 (bytes16 (UInt16.ofNat n)) (by simp [bytes16])
    rw [natOf_bytes16, UInt16.toNat_ofNat_of_lt' hn] at hread
    exact ⟨_, hread⟩
  split
  · rename_i hn
    have hread := reads_wideHead m 26 (bytes32 (UInt32.ofNat n)) (by simp [bytes32])
    rw [natOf_bytes32, UInt32.toNat_ofNat_of_lt' hn] at hread
    exact ⟨_, hread⟩
  · have hread := reads_wideHead m 27 (bytes64 (UInt64.ofNat n)) (by simp [bytes64, bytes32])
    rw [natOf_bytes64, UInt64.toNat_ofNat_of_lt' h] at hread
    exact ⟨_, hread⟩

theorem head_ne_nil (m : Major) (n : Nat) : head m n ≠ [] := by
  rw [head]
  dsimp only
  repeat' split
  all_goals exact List.cons_ne_nil _ _

theorem head_append_inj {m m' : Major} {n n' : Nat} (h : n < 2 ^ 64) (h' : n' < 2 ^ 64)
    {as bs : List UInt8} (heq : head m n ++ as = head m' n' ++ bs) : m = m' ∧ n = n' ∧ as = bs := by
  obtain ⟨info, hread⟩ := reads_head m h
  obtain ⟨info', hread'⟩ := reads_head m' h'
  have hsame := (hread as).symm.trans ((congrArg readHead heq).trans (hread' bs))
  obtain ⟨hhead, hrest⟩ := Prod.mk.inj (Option.some.inj hsame)
  obtain ⟨hm, -, hn⟩ := Head.mk.inj hhead
  exact ⟨hm, Argument.value.inj hn, hrest⟩

/-! ## Plain items -/

def maxLength : Nat := 2 ^ 64 - 1

theorem lt_of_le_maxLength {n : Nat} (h : n ≤ maxLength) : n < 2 ^ 64 :=
  Nat.lt_of_le_pred (by decide) h

/-- The items that records are written with: numbers, texts, strings of bytes, nothing, and arrays
and maps of these, nested within the levels and of at most so many entries. -/
inductive Item.Plain (limit : Nat) : Nat → Item → Prop
  | unsigned {levels : Nat} (n : UInt64) : Plain limit levels (.unsigned n)
  | null {levels : Nat} : Plain limit levels (.simple 22)
  | bytes {levels : Nat} {bs : List UInt8} (h : bs.length ≤ maxLength) :
      Plain limit levels (.bytes bs)
  | text {levels : Nat} {s : String} (h : s.utf8ByteSize ≤ maxLength) : Plain limit levels (.text s)
  | array {levels : Nat} {items : List Item} (hlength : items.length ≤ limit)
      (h : ∀ i ∈ items, Plain limit levels i) : Plain limit (levels + 1) (.array items)
  | map {levels : Nat} {entries : List (Item × Item)} (hlength : entries.length ≤ limit)
      (hkey : ∀ e ∈ entries, Plain limit levels e.1)
      (hvalue : ∀ e ∈ entries, Plain limit levels e.2) : Plain limit (levels + 1) (.map entries)

theorem encodeItems_eq (items : List Item) : encodeItems items = items.flatMap Item.encode := by
  induction items with
  | nil => rfl
  | cons i rest ih => rw [encodeItems, ih, List.flatMap_cons]

theorem encodeEntries_eq (entries : List (Item × Item)) :
    encodeEntries entries = entries.flatMap fun e => e.1.encode ++ e.2.encode := by
  induction entries with
  | nil => rfl
  | cons e rest ih => rw [encodeEntries, ih, List.flatMap_cons]

theorem length_lt_head_append (m : Major) (n : Nat) (f : α → List UInt8) {a : α} {as : List α}
    (h : a ∈ as) : (f a).length < (head m n ++ as.flatMap f).length := by
  have hhead : 0 < (head m n).length := List.length_pos_iff.mpr (head_ne_nil m n)
  have hle : (f a).length ≤ (as.flatMap f).length := by
    rw [List.flatMap_def]
    exact (List.sublist_flatten_of_mem (List.mem_map_of_mem h)).length_le
  rw [List.length_append]
  omega

/-- The fuel is spent by nesting only, and an element is shorter than what it stands in. -/
theorem reads_item {levels fuel : Nat} {i : Item} (h : i.Plain maxEntries levels)
    (hfuel : i.encode.length ≤ fuel) : Reads (item (fuel + 1) levels) i.encode i := by
  induction h generalizing fuel with
  | unsigned n =>
      obtain ⟨info, hhead⟩ := reads_head .unsigned n.toNat_lt
      intro rest
      rw [Item.encode, item, bind_apply, hhead]
      exact congrArg (fun m => some (Item.unsigned m, rest)) n.ofNat_toNat
  | null =>
      exact fun _ => rfl
  | bytes h =>
      obtain ⟨info, hhead⟩ := reads_head .bytes (lt_of_le_maxLength h)
      rw [Item.encode, item]
      exact hhead.bind (reads_take _).map
  | text h =>
      rename_i s
      obtain ⟨info, hhead⟩ := reads_head .text (lt_of_le_maxLength h)
      rw [Item.encode, item]
      dsimp only
      rw [length_toUTF8]
      have htext := (reads_take s.toUTF8.toList).map (f := textOf)
      rw [textOf_toUTF8, length_toUTF8] at htext
      exact hhead.bind htext
  | array hlength h ih =>
      rename_i levels items
      obtain ⟨info, hhead⟩ := reads_head .array
        (Nat.lt_of_le_of_lt hlength (by decide : maxEntries < 2 ^ 64))
      have helement (i : Item) (hi : i ∈ items) : Reads (item fuel levels) i.encode i := by
        have hlt := length_lt_head_append .array items.length Item.encode hi
        rw [← encodeItems_eq, ← Item.encode] at hlt
        obtain ⟨fuel, rfl⟩ := Nat.exists_eq_succ_of_ne_zero (n := fuel) (by omega)
        exact ih i hi (by omega)
      rw [Item.encode, encodeItems_eq, item]
      refine hhead.bind ?_
      simp only [Nat.add_one_ne_zero, Nat.not_lt.mpr hlength, decide_false, Bool.or_false,
        Bool.false_eq_true, if_false]
      exact (reads_times helement).map
  | map hlength hkey hvalue ihkey ihvalue =>
      rename_i levels entries
      obtain ⟨info, hhead⟩ := reads_head .map
        (Nat.lt_of_le_of_lt hlength (by decide : maxEntries < 2 ^ 64))
      have hentry (e : Item × Item) (he : e ∈ entries) :
          Reads (do
            let key ← item fuel levels
            return (key, ← item fuel levels)) (e.1.encode ++ e.2.encode) e := by
        have hlt := length_lt_head_append .map entries.length
          (fun e => e.1.encode ++ e.2.encode) he
        rw [← encodeEntries_eq, ← Item.encode, List.length_append] at hlt
        obtain ⟨fuel, rfl⟩ := Nat.exists_eq_succ_of_ne_zero (n := fuel) (by omega)
        exact (ihkey e he (by omega)).bind (ihvalue e he (by omega)).map
      rw [Item.encode, encodeEntries_eq, item]
      refine hhead.bind ?_
      simp only [Nat.add_one_ne_zero, Nat.not_lt.mpr hlength, decide_false, Bool.or_false,
        Bool.false_eq_true, if_false]
      exact (reads_times hentry).map

theorem decode?_encode {i : Item} (h : i.Plain maxEntries maxLevels) :
    decode? i.encode = some i := by
  have hread := reads_item h le_rfl []
  rw [List.append_nil] at hread
  rw [decode?, hread]

/-! ## Bytes that tell their item -/

theorem flatMap_append_inj {f : α → List β} {xs ys : List α} (hlength : xs.length = ys.length)
    (h : ∀ x ∈ xs, ∀ y ∈ ys, ∀ as bs, f x ++ as = f y ++ bs → x = y ∧ as = bs)
    {as bs : List β} (heq : xs.flatMap f ++ as = ys.flatMap f ++ bs) : xs = ys ∧ as = bs := by
  induction xs generalizing ys with
  | nil =>
      obtain rfl := List.eq_nil_of_length_eq_zero hlength.symm
      exact ⟨rfl, heq⟩
  | cons x xs ih =>
      obtain ⟨y, ys, rfl⟩ := List.exists_cons_of_length_eq_add_one hlength.symm
      rw [List.flatMap_cons, List.flatMap_cons, List.append_assoc, List.append_assoc] at heq
      obtain ⟨rfl, hrest⟩ := h x List.mem_cons_self y List.mem_cons_self _ _ heq
      obtain ⟨rfl, has⟩ := ih (Nat.succ.inj hlength)
        (fun u hu v hv => h u (List.mem_cons_of_mem x hu) v (List.mem_cons_of_mem x hv)) hrest
      exact ⟨rfl, has⟩

theorem counted_append_inj {f : α → List UInt8} {m m' : Major} {xs ys : List α}
    (hx : xs.length ≤ maxLength) (hy : ys.length ≤ maxLength)
    (h : ∀ x ∈ xs, ∀ y ∈ ys, ∀ as bs, f x ++ as = f y ++ bs → x = y ∧ as = bs)
    {as bs : List UInt8}
    (heq : head m xs.length ++ xs.flatMap f ++ as = head m' ys.length ++ ys.flatMap f ++ bs) :
    xs = ys ∧ as = bs := by
  rw [List.append_assoc, List.append_assoc] at heq
  obtain ⟨-, hlength, hrest⟩ :=
    head_append_inj (lt_of_le_maxLength hx) (lt_of_le_maxLength hy) heq
  exact flatMap_append_inj hlength h hrest

theorem payload_append_inj {m m' : Major} {us vs : List UInt8} (hu : us.length ≤ maxLength)
    (hv : vs.length ≤ maxLength) {as bs : List UInt8}
    (heq : head m us.length ++ us ++ as = head m' vs.length ++ vs ++ bs) : us = vs ∧ as = bs := by
  rw [List.append_assoc, List.append_assoc] at heq
  obtain ⟨-, hlength, hrest⟩ :=
    head_append_inj (lt_of_le_maxLength hu) (lt_of_le_maxLength hv) heq
  exact List.append_inj hrest hlength

namespace Item

def major : Item → Major
  | .unsigned _ => .unsigned
  | .negative _ => .negative
  | .bytes _ => .bytes
  | .text _ | .badText _ => .text
  | .array _ => .array
  | .map _ => .map
  | .tagged _ _ => .tag
  | .simple _ | .float _ => .simple

theorem Plain.encode_eq {limit levels : Nat} {i : Item} (hlimit : limit ≤ maxLength)
    (h : i.Plain limit levels) : ∃ n bs, n < 2 ^ 64 ∧ i.encode = head i.major n ++ bs := by
  cases h with
  | unsigned n => exact ⟨_, [], n.toNat_lt, (List.append_nil _).symm⟩
  | null => exact ⟨22, [], by decide, rfl⟩
  | bytes h => exact ⟨_, _, lt_of_le_maxLength h, rfl⟩
  | text h => exact ⟨_, _, lt_of_le_maxLength (by rwa [length_toUTF8]), rfl⟩
  | array hlength h => exact ⟨_, _, lt_of_le_maxLength (hlength.trans hlimit), rfl⟩
  | map hlength hkey hvalue => exact ⟨_, _, lt_of_le_maxLength (hlength.trans hlimit), rfl⟩

theorem Plain.major_eq {limit levels levels' : Nat} {i j : Item} (hlimit : limit ≤ maxLength)
    (hi : i.Plain limit levels) (hj : j.Plain limit levels') {as bs : List UInt8}
    (h : i.encode ++ as = j.encode ++ bs) : i.major = j.major := by
  obtain ⟨n, us, hn, hus⟩ := hi.encode_eq hlimit
  obtain ⟨n', vs, hn', hvs⟩ := hj.encode_eq hlimit
  rw [hus, hvs, List.append_assoc, List.append_assoc] at h
  exact (head_append_inj hn hn' h).1

/-- Of plain items none is a proper beginning of another. -/
theorem Plain.encode_append_inj {limit levels levels' : Nat} {i j : Item}
    (hlimit : limit ≤ maxLength) (hi : i.Plain limit levels) (hj : j.Plain limit levels')
    {as bs : List UInt8} (h : i.encode ++ as = j.encode ++ bs) : i = j ∧ as = bs := by
  have hmajor := Plain.major_eq hlimit hi hj h
  -- the heads agree, so `j` is of the kind of `i`; texts and arrays then have one length
  induction hi generalizing j levels' as bs with
  | unsigned n =>
    cases hj with
    | unsigned n' =>
        obtain ⟨-, hn, has⟩ := head_append_inj n.toNat_lt n'.toNat_lt h
        exact ⟨congrArg Item.unsigned (UInt64.toNat_inj.mp hn), has⟩
    | _ => cases hmajor
  | null =>
    cases hj with
    | null => exact ⟨rfl, List.append_cancel_left h⟩
    | _ => cases hmajor
  | bytes hlength =>
    cases hj with
    | bytes hlength' =>
        rw [encode, encode] at h
        obtain ⟨rfl, has⟩ := payload_append_inj hlength hlength' h
        exact ⟨rfl, has⟩
    | _ => cases hmajor
  | text hlength =>
    cases hj with
    | text hlength' =>
        rename_i s t
        rw [encode, encode] at h
        obtain ⟨hst, has⟩ := payload_append_inj (by rwa [length_toUTF8])
          (by rwa [length_toUTF8]) h
        have htext : Item.text s = .text t := by
          rw [← textOf_toUTF8 s, hst, textOf_toUTF8]
        exact ⟨htext, has⟩
    | _ => cases hmajor
  | array hlength hitems ih =>
    cases hj with
    | array hlength' hitems' =>
        rw [encode, encode, encodeItems_eq, encodeItems_eq] at h
        obtain ⟨rfl, has⟩ := counted_append_inj (hlength.trans hlimit) (hlength'.trans hlimit)
          (fun u hu v hv us vs huv => ih u hu (hitems' v hv) huv
            (Plain.major_eq hlimit (hitems u hu) (hitems' v hv) huv)) h
        exact ⟨rfl, has⟩
    | _ => cases hmajor
  | map hlength hkey hvalue ihkey ihvalue =>
    cases hj with
    | map hlength' hkey' hvalue' =>
        rw [encode, encode, encodeEntries_eq, encodeEntries_eq] at h
        obtain ⟨rfl, has⟩ := counted_append_inj (hlength.trans hlimit) (hlength'.trans hlimit)
          (fun d hd e he us vs hde => by
            rw [List.append_assoc, List.append_assoc] at hde
            obtain ⟨hfst, hde⟩ := ihkey d hd (hkey' e he) hde
              (Plain.major_eq hlimit (hkey d hd) (hkey' e he) hde)
            obtain ⟨hsnd, hus⟩ := ihvalue d hd (hvalue' e he) hde
              (Plain.major_eq hlimit (hvalue d hd) (hvalue' e he) hde)
            exact ⟨Prod.ext hfst hsnd, hus⟩) h
        exact ⟨rfl, has⟩
    | _ => cases hmajor

theorem Plain.encode_inj {limit levels levels' : Nat} {i j : Item} (hlimit : limit ≤ maxLength)
    (hi : i.Plain limit levels) (hj : j.Plain limit levels') (h : i.encode = j.encode) : i = j :=
  (hi.encode_append_inj hlimit hj (congrArg (· ++ []) h)).1

end Item

end ClassEngine.Cbor
