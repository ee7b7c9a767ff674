import ClassEngine.Proofs.Cbor.Bounds
import ClassEngine.Proofs.Cbor.Shapes

/-!
# What libraries document

A library that writes the canonical form, and reads it as its documentation says, writes the values
of a regular shape without loss.  The library that is built in is one of them.
-/

namespace ClassEngine.Cbor

variable {L : Library} {limit : Nat} {s : Shape}

/-- The documented behaviour of a library that admits `limit` elements in an array or map, where
`maxLength` is no bound at all.  It writes canonically, reads every plain item by the laws, and
returns no more than it admits. -/
structure Library.Documented (L : Library) (limit : Nat) : Prop where
  least : 16 ≤ limit
  most : limit ≤ maxLength
  writes {s : Shape} {v : s.Value} (hs : s.Regular) (hrecord : s.isRecord)
    (hv : s.Within maxLength v) : L.marshal s v = some (s.item v).encode
  reads : Reading (fun s i => L.unmarshal s i.encode) (Item.Plain limit maxLevels)
  bounded {s : Shape} {bs : List UInt8} {v : s.Value} (hbs : bs.length ≤ maxLength)
    (h : L.unmarshal s bs = some v) : s.Within limit v

theorem Shape.Within.mono {limit limit' : Nat} (hle : limit ≤ limit') {v : s.Value}
    (h : s.Within limit v) : s.Within limit' v := by
  induction s with
  | bytes => cases v <;> exact h
  | list s ih => exact ⟨h.1.trans hle, fun x hx => ih (h.2 x hx)⟩
  | pointer s ih =>
      cases v with
      | none => trivial
      | some v => exact ih h
  | member key omitEmpty s rest ih ihrest => exact ⟨ih h.1, ihrest h.2⟩
  | _ => exact h

theorem Shape.within_zero (s : Shape) (limit : Nat) : s.Within limit s.zero := by
  induction s with
  | text => exact Nat.zero_le maxLength
  | list s => exact ⟨Nat.zero_le limit, fun _ h => absurd h List.not_mem_nil⟩
  | member key omitEmpty s rest ih ihrest => exact ⟨ih, ihrest⟩
  | _ => trivial

/-! ## The library that is built in -/

namespace Read

theorem word?_unsigned (n : UInt16) : word? (.unsigned n.toUInt64) = some n := by
  have hnat : n.toUInt64.toNat = n.toNat := UInt16.toNat_toUInt64 n
  have hle : n.toNat ≤ 65535 := Nat.le_of_lt_succ n.toNat_lt
  have hnumber : number? 65535 (.unsigned n.toUInt64) = some n.toNat := by
    show (if n.toUInt64.toNat ≤ 65535 then some n.toUInt64.toNat else none) = _
    rw [hnat, if_pos hle]
  rw [word?, hnumber, Option.map_some, UInt16.ofNat_toNat]

theorem entries?_keyed (es : List (UInt64 × Item)) : entries? (keyed es) = some es := by
  refine Option.bind_eq_some_iff.mpr ⟨es.map some, mapM_map_eq_some fun _ _ => rfl, ?_⟩
  simp

theorem value?_of_isRecord (hs : s.isRecord) (es : List (UInt64 × Item)) :
    value? s (keyed es) = members? s es := by
  cases s with
  | record => rw [value?, entries?_keyed]; rfl
  | member key omitEmpty s rest => rw [value?, entries?_keyed]; rfl
  | _ => cases hs

theorem reading_value? : Reading value? fun _ => True where
  word := word?_unsigned
  text _ := rfl
  bytes _ := rfl
  noBytes := rfl
  list _ := rfl
  pointer _ := rfl
  noPointer _ := rfl
  record {es} _ _ := by rw [value?_of_isRecord rfl]; rfl
  member {key omitEmpty s rest es} hrest _ _ := by
    rw [value?_of_isRecord rfl, value?_of_isRecord hrest]
    rfl

theorem bounded_of_untagged {size : Nat} {i j : Item} (hi : i.Bounded size)
    (h : untagged i = some j) : j.Bounded size := by
  fun_induction untagged i with
  | case1 tag content hallows hnumber =>
      cases h
      exact hi
  | case2 tag content hallows hnumber ih =>
      cases hi with
      | tagged hcontent => exact ih hcontent h
  | case3 tag content hallows => cases h
  | case4 i hplain =>
      cases h
      exact hi

theorem length_le_of_text? {i : Item} {t : String} (hi : i.Bounded maxLength)
    (h : text? i = some t) : t.utf8ByteSize ≤ maxLength := by
  obtain ⟨j, hj, h⟩ := Option.bind_eq_some_iff.mp h
  have hbounded := bounded_of_untagged hi hj
  split at h
  · cases h
    cases hbounded with
    | text ht => exact ht
  · split at h
    · cases h
      exact Nat.zero_le maxLength
    · cases h

theorem forall_of_mapM {α β : Type} {f : α → Option β} {P : β → Prop} {xs : List α} {ys : List β}
    (h : xs.mapM f = some ys) (heach : ∀ x ∈ xs, ∀ y, f x = some y → P y) :
    ys.length = xs.length ∧ ∀ y ∈ ys, P y := by
  induction xs generalizing ys with
  | nil =>
      cases h
      exact ⟨rfl, fun _ hy => absurd hy List.not_mem_nil⟩
  | cons x xs ih =>
      rw [List.mapM_cons] at h
      obtain ⟨y, hy, h⟩ := Option.bind_eq_some_iff.mp h
      obtain ⟨rest, hrest, h⟩ := Option.bind_eq_some_iff.mp h
      cases h
      obtain ⟨hlength, hall⟩ := ih hrest fun z hz => heach z (List.mem_cons_of_mem x hz)
      exact ⟨congrArg (· + 1) hlength,
        List.forall_mem_cons.mpr ⟨heach x List.mem_cons_self y hy, hall⟩⟩

theorem forall_of_array? {α : Type} {read? : Item → Option α} {P : α → Prop} {i : Item}
    {xs : List α} (hi : i.Bounded maxLength) (h : array? read? i = some xs)
    (hread : ∀ i x, i.Bounded maxLength → read? i = some x → P x) :
    xs.length ≤ maxEntries ∧ ∀ x ∈ xs, P x := by
  obtain ⟨j, hj, h⟩ := Option.bind_eq_some_iff.mp h
  have hbounded := bounded_of_untagged hi hj
  split at h
  · cases hbounded with
    | array hlength hitems =>
        obtain ⟨heq, hall⟩ := forall_of_mapM h fun i hi x hx => hread i x (hitems i hi) hx
        exact ⟨heq ▸ hlength, hall⟩
  · split at h
    · cases h
      exact ⟨Nat.zero_le _, fun _ hx => absurd hx List.not_mem_nil⟩
    · cases h

theorem length_le_of_bytes? {i : Item} {bs : List UInt8} (hi : i.Bounded maxLength)
    (h : bytes? i = some (some bs)) : bs.length ≤ maxLength := by
  obtain ⟨j, hj, h⟩ := Option.bind_eq_some_iff.mp h
  have hbounded := bounded_of_untagged hi hj
  split at h
  · cases h
    cases hbounded with
    | bytes hlength => exact hlength
  · cases h
    cases hbounded with
    | tagged hcontent =>
      cases hcontent with
      | bytes hlength => exact hlength
  · obtain ⟨numbers, hnumbers, h⟩ := Option.bind_eq_some_iff.mp h
    cases h
    cases hbounded with
    | array hlength hitems =>
        obtain ⟨heq, -⟩ := forall_of_mapM (P := fun _ => True) hnumbers fun _ _ _ _ => trivial
        rw [List.length_map, heq]
        exact hlength.trans (by decide)
  · split at h
    · cases h
    · cases h

theorem bounded_of_entries? {i : Item} {es : List (UInt64 × Item)} (hi : i.Bounded maxLength)
    (h : entries? i = some es) : ∀ e ∈ es, e.2.Bounded maxLength := by
  obtain ⟨j, hj, h⟩ := Option.bind_eq_some_iff.mp h
  have hbounded := bounded_of_untagged hi hj
  split at h
  · obtain ⟨keyed, hkeyed, h⟩ := Option.bind_eq_some_iff.mp h
    cases h
    cases hbounded with
    | map hlength hkey hvalue =>
        have hall := (forall_of_mapM
          (P := fun m : Option (UInt64 × Item) => ∀ e, m = some e → e.2.Bounded maxLength)
          hkeyed (by
            intro e he m hm p hp
            obtain ⟨key?, -, hm⟩ := Option.bind_eq_some_iff.mp hm
            cases hm
            obtain ⟨key, -, rfl⟩ := Option.map_eq_some_iff.mp hp
            exact hvalue e he)).2
        intro e he
        obtain ⟨m, hm, hme⟩ := List.mem_filterMap.mp he
        exact hall m hm e hme
  · split at h
    · cases h
      exact fun _ he => absurd he List.not_mem_nil
    · cases h

theorem within_of_member? {key : UInt64} {es : List (UInt64 × Item)} {v : s.Value}
    (hes : ∀ e ∈ es, e.2.Bounded maxLength)
    (hread : ∀ i v, i.Bounded maxLength → value? s i = some v → s.Within limit v)
    (h : member? es key (value? s) s.zero = some v) : s.Within limit v := by
  rw [member?] at h
  split at h
  · rename_i i hlookup
    obtain ⟨before, after, heq, -⟩ := List.lookup_eq_some_iff.mp hlookup
    have hmem : (key, i) ∈ es := heq ▸ List.mem_append_right before List.mem_cons_self
    exact hread i v (hes _ hmem) h
  · cases h
    exact s.within_zero limit

theorem within_of_value? (s : Shape) :
    (∀ i v, i.Bounded maxLength → value? s i = some v → s.Within maxEntries v) ∧
      ∀ es v, (∀ e ∈ es, e.2.Bounded maxLength) → members? s es = some v →
        s.Within maxEntries v := by
  induction s with
  | word => exact ⟨fun _ _ _ _ => trivial, fun _ _ _ _ => trivial⟩
  | record => exact ⟨fun _ _ _ _ => trivial, fun _ _ _ _ => trivial⟩
  | text =>
      exact ⟨fun i v hi h => length_le_of_text? hi h,
        fun es v _ h => Option.some.inj h ▸ Shape.within_zero .text maxEntries⟩
  | bytes =>
      refine ⟨fun i v hi h => ?_,
        fun es v _ h => Option.some.inj h ▸ Shape.within_zero .bytes maxEntries⟩
      cases v with
      | none => trivial
      | some bs => exact length_le_of_bytes? hi h
  | list s ih =>
      exact ⟨fun i v hi h => forall_of_array? hi h ih.1,
        fun es v _ h => Option.some.inj h ▸ Shape.within_zero (.list s) maxEntries⟩
  | pointer s ih =>
      refine ⟨fun i v hi h => ?_,
        fun es v _ h => Option.some.inj h ▸ Shape.within_zero (.pointer s) maxEntries⟩
      rw [value?] at h
      split at h
      · cases h
        trivial
      · obtain ⟨x, hx, rfl⟩ := Option.map_eq_some_iff.mp h
        exact ih.1 i x hi hx
  | member key omitEmpty s rest ih ihrest =>
      have hmembers : ∀ es v, (∀ e ∈ es, e.2.Bounded maxLength) →
          members? (.member key omitEmpty s rest) es = some v →
          (Shape.member key omitEmpty s rest).Within maxEntries v := by
        intro es v hes h
        obtain ⟨value, hvalue, h⟩ := Option.bind_eq_some_iff.mp h
        obtain ⟨values, hvalues, h⟩ := Option.bind_eq_some_iff.mp h
        cases h
        exact ⟨within_of_member? hes ih.1 hvalue, ihrest.2 es values hes hvalues⟩
      refine ⟨fun i v hi h => ?_, hmembers⟩
      obtain ⟨es, hes, h⟩ := Option.bind_eq_some_iff.mp h
      exact hmembers es v (bounded_of_entries? hi hes) h

end Read

theorem Item.Plain.mono {limit levels levels' : Nat} {i : Item} (hle : levels ≤ levels')
    (h : i.Plain limit levels) : i.Plain limit levels' := by
  induction h generalizing levels' with
  | unsigned n => exact .unsigned n
  | null => exact .null
  | bytes h => exact .bytes h
  | text h => exact .text h
  | array hlength h ih =>
      obtain ⟨levels', rfl⟩ := Nat.exists_eq_add_of_le' (Nat.le_of_add_left_le hle : 1 ≤ levels')
      exact .array hlength fun i hi => ih i hi (Nat.le_of_succ_le_succ hle)
  | map hlength hkey hvalue ihkey ihvalue =>
      obtain ⟨levels', rfl⟩ := Nat.exists_eq_add_of_le' (Nat.le_of_add_left_le hle : 1 ≤ levels')
      exact .map hlength (fun e he => ihkey e he (Nat.le_of_succ_le_succ hle))
        fun e he => ihvalue e he (Nat.le_of_succ_le_succ hle)

theorem unmarshal_standard (s : Shape) {i : Item} (h : i.Plain maxEntries maxLevels) :
    standard.unmarshal s i.encode = Read.value? s i := by
  show (decode? i.encode).bind (Read.value? s) = _
  rw [decode?_encode h]
  rfl

theorem mapM_congr {α β : Type} {f g : α → Option β} {xs : List α} (h : ∀ x ∈ xs, f x = g x) :
    xs.mapM f = xs.mapM g := by
  induction xs with
  | nil => rfl
  | cons x xs ih =>
      rw [List.mapM_cons, List.mapM_cons, h x List.mem_cons_self,
        ih fun y hy => h y (List.mem_cons_of_mem x hy)]

theorem reading_standard :
    Reading (fun s i => standard.unmarshal s i.encode) (Item.Plain maxEntries maxLevels) where
  word n := (unmarshal_standard .word (.unsigned _)).trans (Read.reading_value?.word n)
  text h := unmarshal_standard .text h
  bytes h := unmarshal_standard .bytes h
  noBytes := unmarshal_standard .bytes .null
  list {s items} h := by
    rw [unmarshal_standard (.list s) h, Read.reading_value?.list trivial]
    cases h with
    | array hlength h =>
        exact (mapM_congr fun i hi => unmarshal_standard s ((h i hi).mono (Nat.le_succ 31))).symm
  pointer {s es} h := by
    rw [unmarshal_standard (.pointer s) h, unmarshal_standard s h]
    exact Read.reading_value?.pointer trivial
  noPointer s := unmarshal_standard (.pointer s) .null
  record {es} h hkeys := by
    rw [unmarshal_standard .record h]
    exact Read.reading_value?.record trivial hkeys
  member {key omitEmpty s rest es} hrest h hkeys := by
    have hvalue : Read.member? es key (fun i => standard.unmarshal s i.encode) s.zero =
        Read.member? es key (Read.value? s) s.zero := by
      rw [Read.member?, Read.member?]
      split
      · rename_i i hlookup
        obtain ⟨before, after, hes, -⟩ := List.lookup_eq_some_iff.mp hlookup
        have hmem : (key, i) ∈ es := hes ▸ List.mem_append_right before List.mem_cons_self
        exact unmarshal_standard s (((plain_keyed_iff.mp h).2 _ hmem).mono (Nat.le_succ 31))
      · rfl
    rw [unmarshal_standard (.member key omitEmpty s rest) h, unmarshal_standard rest h, hvalue]
    exact Read.reading_value?.member hrest trivial hkeys

theorem documented_standard : standard.Documented maxEntries where
  least := by decide
  most := by decide
  writes _ _ _ := rfl
  reads := reading_standard
  bounded {s bs v} hbs h := by
    obtain ⟨i, hi, hv⟩ := Option.bind_eq_some_iff.mp h
    exact (Read.within_of_value? s).1 i v ((bounded_of_decode? hi).mono _ _ _ hbs) hv

/-! ## Writing and reading -/

namespace Library.Documented

variable (hL : L.Documented limit) (hs : s.Regular)
include hL hs

theorem unmarshal_encode (hlevels : s.depth ≤ maxLevels) {v : s.Value} (hv : s.Within limit v) :
    L.unmarshal s (s.item v).encode = some v :=
  hL.reads.read_item (fun _ _ hs hlevels hv => Shape.plain_item hL.least hs hlevels hv)
    hs hlevels hv

variable (hrecord : s.isRecord)
include hrecord

theorem marshal_inj {v v' : s.Value} (hv : s.Within maxLength v) (hv' : s.Within maxLength v')
    (h : L.marshal s v = L.marshal s v') : v = v' := by
  rw [hL.writes hs hrecord hv, hL.writes hs hrecord hv'] at h
  have hplain := Shape.plain_item (by decide) hs le_rfl hv
  have hplain' := Shape.plain_item (by decide) hs le_rfl hv'
  have hitem : s.item v = s.item v' := hplain.encode_inj le_rfl hplain' (Option.some.inj h)
  have hread {w : s.Value} (hw : s.Within maxLength w) : Read.value? s (s.item w) = some w :=
    Read.reading_value?.read_item (fun _ _ _ _ _ => trivial) hs le_rfl hw
  exact Option.some.inj ((hread hv).symm.trans ((congrArg (Read.value? s) hitem).trans (hread hv')))

end Library.Documented

end ClassEngine.Cbor
