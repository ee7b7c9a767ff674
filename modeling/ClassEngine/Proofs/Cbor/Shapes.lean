import ClassEngine.Cbor.Library
import ClassEngine.Proofs.Cbor.PlainItems

/-!
# Values told by their items

What a shape writes without loss, and the laws of a reader that makes the values of such a shape out
of their items again.
-/

namespace ClassEngine.Cbor

theorem plain_keyed_iff {limit levels : Nat} {es : List (UInt64 × Item)} :
    (keyed es).Plain limit (levels + 1) ↔ es.length ≤ limit ∧ ∀ e ∈ es, e.2.Plain limit levels := by
  constructor
  · intro h
    cases h with
    | map hlength hkey hvalue =>
        rw [List.length_map] at hlength
        exact ⟨hlength, fun e he => hvalue _ (List.mem_map_of_mem he)⟩
  · rintro ⟨hlength, h⟩
    refine .map (by rwa [List.length_map]) ?_ ?_
    all_goals
      intro e he
      obtain ⟨e, hmem, rfl⟩ := List.mem_map.mp he
    · exact .unsigned _
    · exact h e hmem

namespace Shape

/-! ## Regular shapes -/

def isRecord : Shape → Bool
  | .record | .member .. => true
  | _ => false

def isList : Shape → Bool
  | .list _ => true
  | _ => false

/-- The only empty value is the one of a member that is missing. -/
def isOptional : Shape → Bool
  | .word | .text | .list _ | .pointer _ => true
  | _ => false

def keys : Shape → List UInt64
  | .member key _ _ rest => key :: rest.keys
  | _ => []

/-- Records have at most sixteen members, by increasing keys.  Pointers lead to records.  Lists are
members that are left out when they are empty. -/
def Regular : Shape → Bool
  | .list s => s.Regular && !s.isList
  | .pointer s => s.Regular && s.isRecord
  | .member key omitEmpty s rest =>
    s.Regular && rest.Regular && rest.isRecord && rest.keys.all (key < ·) &&
      decide (rest.keys.length < 16) && (if omitEmpty then s.isOptional else !s.isList)
  | _ => true

def depth : Shape → Nat
  | .list s => s.depth + 1
  | .pointer s => s.depth
  | .record => 1
  | .member _ _ s rest => max (s.depth + 1) rest.depth
  | _ => 0

/-- No list has more than `limit` elements, and a head can tell every length. -/
def Within (limit : Nat) : (s : Shape) → s.Value → Prop
  | .text, t => t.utf8ByteSize ≤ maxLength
  | .bytes, some bs => bs.length ≤ maxLength
  | .list s, values => values.length ≤ limit ∧ ∀ v ∈ values, s.Within limit v
  | .pointer s, some value => s.Within limit value
  | .member _ _ s rest, (value, values) => s.Within limit value ∧ rest.Within limit values
  | .word, _ | .bytes, none | .pointer _, none | .record, _ => True

instance decidableWithin (limit : Nat) : (s : Shape) → (v : s.Value) → Decidable (s.Within limit v)
  | .text, t => inferInstanceAs (Decidable (t.utf8ByteSize ≤ maxLength))
  | .bytes, some bs => inferInstanceAs (Decidable (bs.length ≤ maxLength))
  | .list s, values =>
    have := s.decidableWithin limit
    inferInstanceAs (Decidable (values.length ≤ limit ∧ ∀ v ∈ values, s.Within limit v))
  | .pointer s, some value => s.decidableWithin limit value
  | .member _ _ s rest, (value, values) =>
    have := s.decidableWithin limit value
    have := rest.decidableWithin limit values
    inferInstanceAs (Decidable (s.Within limit value ∧ rest.Within limit values))
  | .word, _ | .bytes, none | .pointer _, none | .record, _ => .isTrue trivial

theorem item_eq_keyed {s : Shape} (h : s.isRecord) (v : s.Value) :
    s.item v = keyed (s.entries v) := by
  cases s with
  | record => rfl
  | member key omitEmpty s rest => rfl
  | _ => cases h

theorem keys_entries (s : Shape) (v : s.Value) : ((s.entries v).map Prod.fst).Sublist s.keys := by
  induction s with
  | member key omitEmpty s rest _ ih =>
      obtain ⟨value, values⟩ := v
      rw [entries, entry, keys]
      split
      · exact (ih values).cons key
      · exact (ih values).cons_cons key
  | _ => exact List.Sublist.refl []

theorem nodup_keys {s : Shape} (h : s.Regular) : s.keys.Nodup := by
  induction s with
  | member key omitEmpty s rest _ ih =>
      simp only [Regular, Bool.and_eq_true, List.all_eq_true, decide_eq_true_eq] at h
      obtain ⟨⟨⟨⟨⟨-, hrest⟩, -⟩, hkey⟩, -⟩, -⟩ := h
      refine List.nodup_cons.mpr ⟨fun hmem => ?_, ih hrest⟩
      exact absurd (hkey key hmem) (UInt64.lt_irrefl key)
  | _ => exact List.nodup_nil

theorem length_keys {s : Shape} (h : s.Regular) : s.keys.length ≤ 16 := by
  cases s with
  | member key omitEmpty s rest =>
      simp only [Regular, Bool.and_eq_true, decide_eq_true_eq] at h
      exact h.1.2
  | _ => exact Nat.zero_le 16

theorem eq_zero_of_isEmpty {s : Shape} (hs : s.isOptional) {v : s.Value} (h : s.isEmpty v) :
    v = s.zero := by
  cases s with
  | word => exact UInt16.toNat_inj.mp (beq_iff_eq.mp h)
  | text => exact String.isEmpty_iff.mp h
  | list s => exact List.isEmpty_iff.mp h
  | pointer s => exact Option.isNone_iff_eq_none.mp h
  | _ => cases hs

/-! ## What is written -/

theorem plain_item {limit levels : Nat} (hlimit : 16 ≤ limit) {s : Shape} {v : s.Value}
    (hs : s.Regular) (hlevels : s.depth ≤ levels) (hv : s.Within limit v) :
    (s.item v).Plain limit levels := by
  induction s generalizing levels with
  | word => exact .unsigned _
  | text => exact .text hv
  | bytes =>
      cases v with
      | none => exact .null
      | some bs => exact .bytes hv
  | list s ih =>
      simp only [Regular, Bool.and_eq_true] at hs
      obtain ⟨levels, rfl⟩ := Nat.exists_eq_add_of_le' (Nat.le_of_add_left_le hlevels : 1 ≤ levels)
      refine .array (by rw [List.length_map]; exact hv.1) fun i hi => ?_
      obtain ⟨v, hmem, rfl⟩ := List.mem_map.mp hi
      exact ih hs.1 (Nat.le_of_succ_le_succ hlevels) (hv.2 v hmem)
  | pointer s ih =>
      simp only [Regular, Bool.and_eq_true] at hs
      cases v with
      | none => exact .null
      | some v => exact ih hs.1 hlevels hv
  | record =>
      obtain ⟨levels, rfl⟩ := Nat.exists_eq_add_of_le' hlevels
      exact plain_keyed_iff.mpr ⟨Nat.zero_le limit, fun _ he => absurd he List.not_mem_nil⟩
  | member key omitEmpty s rest ih ihrest =>
      have hlength := length_keys hs
      simp only [Regular, Bool.and_eq_true] at hs
      obtain ⟨⟨⟨⟨⟨hs, hrest⟩, hrecord⟩, -⟩, -⟩, -⟩ := hs
      obtain ⟨value, values⟩ := v
      simp only [depth, Nat.max_le] at hlevels
      obtain ⟨levels, rfl⟩ :=
        Nat.exists_eq_add_of_le' (Nat.le_of_add_left_le hlevels.1 : 1 ≤ levels)
      have hvalues := ihrest hrest hlevels.2 hv.2
      rw [item_eq_keyed hrecord, plain_keyed_iff] at hvalues
      refine plain_keyed_iff.mpr ⟨?_, fun e he => ?_⟩
      · have hkeys := (keys_entries (.member key omitEmpty s rest) (value, values)).length_le
        rw [List.length_map] at hkeys
        exact (hkeys.trans hlength).trans hlimit
      · rw [List.mem_append] at he
        obtain he | he := he
        · rw [entry] at he
          split at he
          · cases he
          · obtain rfl := List.mem_singleton.mp he
            exact ih hs (Nat.le_of_succ_le_succ hlevels.1) hv.1
        · exact hvalues.2 e he

end Shape

/-! ## What is read -/

/-- The laws of a reader of the items that it admits.  A record is told by the entries of its keys
only: other keys are ignored, and a member without an entry gets its zero. -/
structure Reading (read : (s : Shape) → Item → Option s.Value) (admits : Item → Prop) : Prop where
  word (n : UInt16) : read .word (.unsigned n.toUInt64) = some n
  text {t : String} (h : admits (.text t)) : read .text (.text t) = some t
  bytes {bs : List UInt8} (h : admits (.bytes bs)) : read .bytes (.bytes bs) = some (some bs)
  noBytes : read .bytes null = some none
  list {s : Shape} {items : List Item} (h : admits (.array items)) :
    read (.list s) (.array items) = items.mapM (read s)
  pointer {s : Shape} {es : List (UInt64 × Item)} (h : admits (keyed es)) :
    read (.pointer s) (keyed es) = (read s (keyed es)).map some
  noPointer (s : Shape) : read (.pointer s) null = some none
  record {es : List (UInt64 × Item)} (h : admits (keyed es)) (hkeys : (es.map Prod.fst).Nodup) :
    read .record (keyed es) = some ()
  member {key : UInt64} {omitEmpty : Bool} {s rest : Shape} {es : List (UInt64 × Item)}
    (hrest : rest.isRecord) (h : admits (keyed es)) (hkeys : (es.map Prod.fst).Nodup) :
    read (.member key omitEmpty s rest) (keyed es) = do
      return (← Read.member? es key (read s) s.zero, ← read rest (keyed es))

theorem mapM_map_eq_some {α β γ : Type} {f : α → β} {g : β → Option γ} {h : α → γ} {xs : List α}
    (heach : ∀ x ∈ xs, g (f x) = some (h x)) : (xs.map f).mapM g = some (xs.map h) := by
  induction xs with
  | nil => rfl
  | cons x xs ih =>
      rw [List.map_cons, List.mapM_cons, heach x List.mem_cons_self,
        ih fun y hy => heach y (List.mem_cons_of_mem x hy)]
      rfl

theorem lookup_entry_append {key other : UInt64} (h : other ≠ key) (leftOut : Bool) (i : Item)
    (es : List (UInt64 × Item)) : (entry key leftOut i ++ es).lookup other = es.lookup other := by
  rw [entry]
  split
  · rfl
  · rw [List.singleton_append, List.lookup_cons, beq_false_of_ne h]

theorem lookup_eq_none {key : UInt64} {es : List (UInt64 × Item)} (h : key ∉ es.map Prod.fst) :
    es.lookup key = none := by
  refine List.lookup_eq_none_iff.mpr fun e he => bne_iff_ne.mpr fun hkey => ?_
  exact h (hkey ▸ List.mem_map_of_mem he)

theorem member?_of_lookup {key : UInt64} {leftOut : Bool} {s : Shape} {value : s.Value}
    {read? : Item → Option s.Value} {es later : List (UInt64 × Item)}
    (hread : read? (s.item value) = some value) (hzero : leftOut → value = s.zero)
    (hkey : key ∉ later.map Prod.fst)
    (hlookup : es.lookup key = (entry key leftOut (s.item value) ++ later).lookup key) :
    Read.member? es key read? s.zero = some value := by
  rw [Read.member?, hlookup]
  cases leftOut with
  | true =>
      rw [entry, if_pos rfl, List.nil_append, lookup_eq_none hkey]
      exact congrArg some (hzero rfl).symm
  | false =>
      rw [entry, if_neg Bool.false_ne_true, List.singleton_append, List.lookup_cons,
        beq_self_eq_true]
      exact hread

namespace Reading

variable {read : (s : Shape) → Item → Option s.Value} {admits : Item → Prop} {limit levels : Nat}
  (h : Reading read admits)
include h

/-- A record is read from any entries that agree with its own on its keys, so that the rest of its
members can be read from the entries of all. -/
theorem member_keyed {key : UInt64} {omitEmpty : Bool} {s rest : Shape} {value : s.Value}
    {values : rest.Value} {es : List (UInt64 × Item)}
    (hs : (Shape.member key omitEmpty s rest).Regular)
    (hadmits : admits (keyed es)) (hnodup : (es.map Prod.fst).Nodup)
    (hlookup : ∀ k ∈ (Shape.member key omitEmpty s rest).keys,
      es.lookup k = ((Shape.member key omitEmpty s rest).entries (value, values)).lookup k)
    (hread : read s (s.item value) = some value)
    (hrest : (∀ k ∈ rest.keys, es.lookup k = (rest.entries values).lookup k) →
      read rest (keyed es) = some values) :
    read (.member key omitEmpty s rest) (keyed es) = some (value, values) := by
  have hkey : key ∉ rest.keys := (List.nodup_cons.mp (Shape.nodup_keys hs)).1
  simp only [Shape.Regular, Bool.and_eq_true] at hs
  obtain ⟨⟨⟨⟨-, hrecord⟩, -⟩, -⟩, hoptional⟩ := hs
  have hvalue : Read.member? es key (read s) s.zero = some value := by
    refine member?_of_lookup hread (fun hleft => ?_)
      (fun hmem => hkey ((Shape.keys_entries rest values).subset hmem))
      (hlookup key List.mem_cons_self)
    rw [Bool.and_eq_true] at hleft
    rw [if_pos hleft.1] at hoptional
    exact Shape.eq_zero_of_isEmpty hoptional hleft.2
  have hvalues : read rest (keyed es) = some values := by
    refine hrest fun other hother => ?_
    have hne : other ≠ key := fun heq => hkey (heq ▸ hother)
    rw [hlookup other (List.mem_cons_of_mem key hother)]
    exact lookup_entry_append hne _ _ _
  rw [h.member hrecord hadmits hnodup, hvalue, hvalues]
  rfl

variable (hadmits : ∀ (s : Shape) (v : s.Value), s.Regular → s.depth ≤ levels →
  s.Within limit v → admits (s.item v))
include hadmits

theorem item_and_keyed (s : Shape) (hs : s.Regular) (hlevels : s.depth ≤ levels) :
    (∀ v, s.Within limit v → read s (s.item v) = some v) ∧
      (s.isRecord → ∀ v es, s.Within limit v → admits (keyed es) → (es.map Prod.fst).Nodup →
        (∀ k ∈ s.keys, es.lookup k = (s.entries v).lookup k) → read s (keyed es) = some v) := by
  induction s with
  | word => exact ⟨fun v _ => h.word v, nofun⟩
  | text => exact ⟨fun v hv => h.text (hadmits .text v hs hlevels hv), nofun⟩
  | bytes =>
      refine ⟨fun v hv => ?_, nofun⟩
      cases v with
      | none => exact h.noBytes
      | some bs => exact h.bytes (hadmits .bytes (some bs) hs hlevels hv)
  | list s ih =>
      refine ⟨fun v hv => ?_, nofun⟩
      have hown := hadmits (.list s) v hs hlevels hv
      simp only [Shape.Regular, Bool.and_eq_true] at hs
      have hread := (ih hs.1 (Nat.le_of_succ_le hlevels)).1
      have hall := mapM_map_eq_some (h := id) fun x hx => hread x (hv.2 x hx)
      rw [List.map_id] at hall
      exact (h.list hown).trans hall
  | pointer s ih =>
      refine ⟨fun v hv => ?_, nofun⟩
      have hown := hadmits (.pointer s) v hs hlevels hv
      simp only [Shape.Regular, Bool.and_eq_true] at hs
      cases v with
      | none => exact h.noPointer s
      | some v =>
          have hread := (ih hs.1 hlevels).1 v hv
          have hitem := Shape.item_eq_keyed hs.2 v
          show read (.pointer s) (s.item v) = _
          rw [hitem] at hread ⊢
          rw [h.pointer (hitem ▸ hown), hread]
          rfl
  | record =>
      exact ⟨fun v hv => h.record (hadmits .record v hs hlevels hv) List.nodup_nil,
        fun _ v es _ hes hnodup _ => h.record hes hnodup⟩
  | member key omitEmpty s rest ih ihrest =>
      have hregular := hs
      have hown := fun v => hadmits (.member key omitEmpty s rest) v hs hlevels
      simp only [Shape.Regular, Bool.and_eq_true] at hs
      obtain ⟨⟨⟨⟨⟨hs, hrest⟩, hrecord⟩, -⟩, -⟩, -⟩ := hs
      simp only [Shape.depth, Nat.max_le] at hlevels
      have hread := (ih hs (Nat.le_of_succ_le hlevels.1)).1
      have hreadrest := (ihrest hrest hlevels.2).2 hrecord
      refine ⟨fun (value, values) hv => ?_, fun _ (value, values) es hv hes hnodup hlookup => ?_⟩
      · have hsublist := Shape.keys_entries (.member key omitEmpty s rest) (value, values)
        have hnodup := hsublist.nodup (Shape.nodup_keys hregular)
        exact h.member_keyed hregular (hown _ hv) hnodup (fun _ _ => rfl) (hread value hv.1)
          (hreadrest values _ hv.2 (hown _ hv) hnodup)
      · exact h.member_keyed hregular hes hnodup hlookup (hread value hv.1)
          (hreadrest values es hv.2 hes hnodup)

theorem read_item {s : Shape} {v : s.Value} (hs : s.Regular) (hlevels : s.depth ≤ levels)
    (hv : s.Within limit v) : read s (s.item v) = some v :=
  (h.item_and_keyed hadmits s hs hlevels).1 v hv

end Reading

end ClassEngine.Cbor
