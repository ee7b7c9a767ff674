import ClassEngine.Proofs.Cbor.PlainItems
import Mathlib.Tactic.Common

/-!
# Bounds of what is read

A text or string of bytes is no longer than the bytes it was read from, and an array or map has no
more entries than the reader admits.
-/

namespace ClassEngine.Cbor

variable {α β : Type} {x : Decoder α} {P : α → Nat → Prop} {Q : β → Nat → Prop}

/-! ## Bytes taken -/

/-- What the reader returns and the number of bytes it took are so related. -/
def Spends (x : Decoder α) (P : α → Nat → Prop) : Prop :=
  ∀ bs a rest, x bs = some (a, rest) → ∃ n, bs.length = n + rest.length ∧ P a n

namespace Spends

theorem pure {a : α} (h : P a 0) : Spends (Pure.pure a) P := by
  intro bs b rest hx
  cases hx
  exact ⟨0, (Nat.zero_add _).symm, h⟩

theorem failure : Spends (failure : Decoder α) P := fun _ _ _ hx => nomatch hx

theorem mono {P' : α → Nat → Prop} (hx : Spends x P) (h : ∀ a n, P a n → P' a n) :
    Spends x P' := by
  intro bs a rest ha
  obtain ⟨n, hn, hP⟩ := hx bs a rest ha
  exact ⟨n, hn, h a n hP⟩

theorem bind {f : α → Decoder β} (hx : Spends x P)
    (hf : ∀ a n, P a n → Spends (f a) fun b m => Q b (n + m)) : Spends (x >>= f) Q := by
  intro bs b rest hbind
  obtain ⟨⟨a, mid⟩, ha, hb⟩ := Option.bind_eq_some_iff.mp hbind
  obtain ⟨n, hn, hP⟩ := hx bs a mid ha
  obtain ⟨m, hm, hQ⟩ := hf a n hP mid b rest hb
  exact ⟨n + m, by omega, hQ⟩

theorem map {f : α → β} (hx : Spends x P) (hf : ∀ a n, P a n → Q (f a) n) :
    Spends (do return f (← x)) Q :=
  hx.bind fun a n hP => pure (hf a n hP)

theorem get : Spends (get : Decoder (List UInt8)) fun _ n => n = 0 := by
  intro bs as rest h
  cases h
  exact ⟨0, (Nat.zero_add _).symm, rfl⟩

theorem byte : Spends byte fun _ n => n = 1 := by
  intro bs b rest h
  cases bs with
  | nil => cases h
  | cons c bs =>
      cases h
      exact ⟨1, by rw [List.length_cons, Nat.add_comm], rfl⟩

theorem take (count : Nat) : Spends (take count) fun as n => as.length = n := by
  intro bs as rest h
  rw [Cbor.take] at h
  split at h
  · cases h
  · cases h
    exact ⟨count, by rw [List.length_drop]; omega, List.length_take_of_le (by omega)⟩

theorem readHead : Spends readHead fun _ _ => True := by
  refine byte.bind fun b _ _ => ?_
  have hvalue (m : Major) (info : UInt8) (width : Nat) :
      Spends (do return ⟨m, info, .value (natOf (← Cbor.take width))⟩ : Decoder Head)
        fun _ _ => True :=
    (take width).map fun _ _ _ => trivial
  dsimp only
  split
  all_goals first | exact hvalue _ _ _ | exact failure | exact pure trivial

theorem forall_mem_cons (hmono : ∀ a n m, n ≤ m → P a n → P a m) {a : α} {as : List α} {n m : Nat}
    (ha : P a n) (has : ∀ b ∈ as, P b m) : ∀ b ∈ a :: as, P b (n + m) := by
  intro b hb
  obtain rfl | hb := List.mem_cons.mp hb
  · exact hmono b n (n + m) (Nat.le_add_right n m) ha
  · exact hmono b m (n + m) (Nat.le_add_left m n) (has b hb)

theorem times (hmono : ∀ a n m, n ≤ m → P a n → P a m) (hx : Spends x P) (count : Nat) :
    Spends (times x count) fun as n => as.length = count ∧ ∀ a ∈ as, P a n := by
  induction count with
  | zero => exact pure ⟨rfl, fun _ h => absurd h List.not_mem_nil⟩
  | succ count ih =>
      refine hx.bind fun a n ha => ih.map fun as m has => ?_
      exact ⟨congrArg (· + 1) has.1, forall_mem_cons hmono ha has.2⟩

theorem upToBreak {R : List α → Nat → Prop} (hx : Spends x P) (hnil : ∀ n, R [] n)
    (hcons : ∀ a as n m, P a n → R as m → R (a :: as) (n + m)) (count : Nat) :
    Spends (upToBreak x count) R := by
  induction count with
  | zero => exact failure
  | succ count ih =>
      refine get.bind fun bs n hn => ?_
      subst hn
      simp only [Nat.zero_add]
      split
      · exact byte.bind fun _ _ _ => pure (hnil _)
      · exact hx.bind fun a n ha => ih.map fun as m has => hcons a as n m ha has

theorem chunk (major : Major) : Spends (chunk major) fun bs n => bs.length ≤ n := by
  refine readHead.bind fun h n _ => ?_
  split
  · split
    · exact (take _).mono fun as m has => by omega
    · exact failure
  · exact failure

theorem chunks (major : Major) :
    Spends (chunks major) fun pieces n => pieces.flatten.length ≤ n := by
  refine get.bind fun bs n hn => ?_
  subst hn
  simp only [Nat.zero_add]
  refine (chunk major).upToBreak (fun n => Nat.zero_le n) (fun a as n m ha has => ?_) _
  rw [List.flatten_cons, List.length_append]
  omega

end Spends

/-! ## Items -/

/-- The texts and strings of bytes are no longer than `size`, and no array or map has more entries
than the reader admits. -/
inductive Item.Bounded (size : Nat) : Item → Prop
  | unsigned (n : UInt64) : Bounded size (.unsigned n)
  | negative (n : UInt64) : Bounded size (.negative n)
  | bytes {bs : List UInt8} (h : bs.length ≤ size) : Bounded size (.bytes bs)
  | text {s : String} (h : s.utf8ByteSize ≤ size) : Bounded size (.text s)
  | badText (bs : List UInt8) : Bounded size (.badText bs)
  | array {items : List Item} (hlength : items.length ≤ maxEntries)
      (h : ∀ i ∈ items, Bounded size i) : Bounded size (.array items)
  | map {entries : List (Item × Item)} (hlength : entries.length ≤ maxEntries)
      (hkey : ∀ e ∈ entries, Bounded size e.1) (hvalue : ∀ e ∈ entries, Bounded size e.2) :
      Bounded size (.map entries)
  | tagged {tag : UInt64} {content : Item} (h : Bounded size content) :
      Bounded size (.tagged tag content)
  | simple (value : UInt8) : Bounded size (.simple value)
  | float (bs : List UInt8) : Bounded size (.float bs)

namespace Item.Bounded

theorem mono (i : Item) (size size' : Nat) (hsize : size ≤ size') (h : i.Bounded size) :
    i.Bounded size' := by
  induction h with
  | unsigned n => exact .unsigned n
  | negative n => exact .negative n
  | bytes h => exact .bytes (h.trans hsize)
  | text h => exact .text (h.trans hsize)
  | badText bs => exact .badText bs
  | array hlength h ih => exact .array hlength ih
  | map hlength hkey hvalue ihkey ihvalue => exact .map hlength ihkey ihvalue
  | tagged h ih => exact .tagged ih
  | simple value => exact .simple value
  | float bs => exact .float bs

theorem textOf {bs : List UInt8} {size : Nat} (h : bs.length ≤ size) :
    (textOf bs).Bounded size := by
  cases ht : Cbor.textOf bs with
  | text s => exact .text (utf8ByteSize_of_textOf ht ▸ h)
  | badText bs => exact .badText bs
  | _ =>
      rw [Cbor.textOf] at ht
      split at ht <;> cases ht

end Item.Bounded

theorem spends_simpleItem (info : UInt8) (n : Nat) :
    Spends (simpleItem info n) fun i m => i.Bounded m := by
  rw [simpleItem]
  split
  all_goals try split
  all_goals first | exact .pure (.float _) | exact .pure (.simple _) | exact .failure

theorem bounded_of_pairUp {size : Nat} :
    ∀ {items : List Item} {entries : List (Item × Item)}, pairUp items = some entries →
      (∀ i ∈ items, i.Bounded size) → ∀ e ∈ entries, e.1.Bounded size ∧ e.2.Bounded size
  | [], _, h, _, e, he => by
      cases h
      cases he
  | [_], _, h, _, _, _ => by cases h
  | key :: value :: rest, _, h, hitems, e, he => by
      obtain ⟨entries, hrest, rfl⟩ := Option.map_eq_some_iff.mp h
      obtain rfl | he := List.mem_cons.mp he
      · exact ⟨hitems key List.mem_cons_self, hitems value (by simp)⟩
      · exact bounded_of_pairUp hrest
          (fun i hi => hitems i (List.mem_cons_of_mem _ (List.mem_cons_of_mem _ hi))) e he

section Nested

/-! Arrays and maps of what a bounded reader reads. -/

variable {x : Decoder Item} (hx : Spends x fun i n => i.Bounded n)
include hx

theorem spends_array {n : Nat} (hn : n ≤ maxEntries) :
    Spends (do return Item.array (← times x n)) fun i m => i.Bounded m :=
  (hx.times Item.Bounded.mono n).map fun _ _ h => .array (h.1 ▸ hn) h.2

theorem spends_map {n : Nat} (hn : n ≤ maxEntries) :
    Spends (do
      let entry : Decoder (Item × Item) := do
        let key ← x
        return (key, ← x)
      return Item.map (← times entry n)) fun i m => i.Bounded m := by
  have hentry : Spends (do
      let key ← x
      return (key, ← x)) fun e n => e.1.Bounded n ∧ e.2.Bounded n :=
    hx.bind fun _ n hkey => hx.map fun _ m hvalue =>
      ⟨hkey.mono _ _ _ (Nat.le_add_right n m), hvalue.mono _ _ _ (Nat.le_add_left m n)⟩
  have hentries := hentry.times
    (fun _ _ _ hle h => ⟨h.1.mono _ _ _ hle, h.2.mono _ _ _ hle⟩) n
  exact hentries.map fun _ _ h =>
    .map (h.1 ▸ hn) (fun e he => (h.2 e he).1) fun e he => (h.2 e he).2

theorem spends_upToBreak_bind {f : List Item → Decoder Item}
    (hf : ∀ items n, (∀ i ∈ items, i.Bounded n) → Spends (f items) fun i m => i.Bounded (n + m)) :
    Spends (do
      let items ← upToBreak x ((← get).length + 1)
      f items) fun i m => i.Bounded m := by
  refine Spends.get.bind fun bs n hn => ?_
  subst hn
  simp only [Nat.zero_add]
  have hitems := hx.upToBreak (R := fun items n => ∀ i ∈ items, i.Bounded n)
    (fun _ _ h => absurd h List.not_mem_nil)
    (fun _ _ _ _ hi his => Spends.forall_mem_cons Item.Bounded.mono hi his) (bs.length + 1)
  exact hitems.bind hf

theorem spends_arrayUpToBreak :
    Spends (do
      let items ← upToBreak x ((← get).length + 1)
      if maxEntries < items.length then failure else return Item.array items)
      fun i m => i.Bounded m := by
  refine spends_upToBreak_bind hx fun items m hitems => ?_
  split
  · exact .failure
  · exact .pure (.array (Nat.le_of_not_lt ‹_›) hitems)

theorem spends_mapUpToBreak :
    Spends (do
      let items ← upToBreak x ((← get).length + 1)
      match pairUp items with
      | some entries => if maxEntries < entries.length then failure else return Item.map entries
      | none => failure)
      fun i m => i.Bounded m := by
  refine spends_upToBreak_bind hx fun items m hitems => ?_
  split
  · rename_i entries hentries
    have hbounded := bounded_of_pairUp hentries hitems
    split
    · exact .failure
    · exact .pure (.map (Nat.le_of_not_lt ‹_›) (fun e he => (hbounded e he).1)
        fun e he => (hbounded e he).2)
  · exact .failure

end Nested

/-- Whatever is read is bounded by the bytes that were taken for it. -/
theorem spends_item (fuel levels : Nat) : Spends (item fuel levels) fun i n => i.Bounded n := by
  induction fuel generalizing levels with
  | zero => exact .failure
  | succ fuel ih =>
      refine Spends.readHead.bind fun ⟨major, info, argument⟩ k _ => ?_
      have hmore (i : Item) (m : Nat) (h : i.Bounded m) : i.Bounded (k + m) :=
        h.mono _ _ _ (Nat.le_add_left m k)
      cases argument with
      | value n =>
        cases major with
        | unsigned => exact .pure (.unsigned _)
        | negative => exact .pure (.negative _)
        | bytes => exact (Spends.take n).map fun bs m h => .bytes (by omega)
        | text => exact (Spends.take n).map fun bs m h => .textOf (by omega)
        | array =>
            dsimp only
            split
            · exact .failure
            · rename_i hlimit
              simp only [Bool.or_eq_true, decide_eq_true_eq, not_or, Nat.not_lt] at hlimit
              exact (spends_array (ih (levels - 1)) hlimit.2).mono hmore
        | map =>
            dsimp only
            split
            · exact .failure
            · rename_i hlimit
              simp only [Bool.or_eq_true, decide_eq_true_eq, not_or, Nat.not_lt] at hlimit
              exact (spends_map (ih (levels - 1)) hlimit.2).mono hmore
        | tag =>
            refine Spends.get.bind fun bs m hm => ?_
            subst hm
            split
            · split
              · exact .failure
              · exact (ih (levels - 1)).map fun i m h => .tagged (by simpa using hmore i m h)
            · exact (ih levels).map fun i m h => .tagged (by simpa using hmore i m h)
        | simple => exact (spends_simpleItem info n).mono hmore
      | untilBreak =>
        cases major with
        | bytes => exact (Spends.chunks .bytes).map fun bs m h => .bytes (by omega)
        | text =>
            refine (Spends.chunks .text).map fun pieces m h => ?_
            rw [joinTexts]
            split
            · exact .textOf (by omega)
            · exact .badText _
        | array =>
            dsimp only
            split
            · exact .failure
            · exact (spends_arrayUpToBreak (ih (levels - 1))).mono hmore
        | map =>
            dsimp only
            split
            · exact .failure
            · exact (spends_mapUpToBreak (ih (levels - 1))).mono hmore
        | _ => exact .failure

theorem bounded_of_decode? {bs : List UInt8} {i : Item} (h : decode? bs = some i) :
    i.Bounded bs.length := by
  rw [decode?] at h
  split at h
  · rename_i hread
    cases h
    obtain ⟨n, hn, hbounded⟩ := spends_item _ _ _ _ _ hread
    exact hbounded.mono _ _ _ (by omega)
  · cases h

end ClassEngine.Cbor
