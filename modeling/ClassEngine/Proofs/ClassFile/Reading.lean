import ClassEngine.ClassFile.Parse
import ClassEngine.Proofs.ClassFile.Words
import Mathlib.Data.List.Basic

/-!
# What parsers make of bytes

A parser reads some bytes at the front of its input to a value, or it refuses them, whatever
follows.  Parsers that are put together read bytes that are put together.
-/

namespace ClassEngine.ClassFile.Parser

variable {α β σ : Type} {p : Parser α} {xs ys bs : List UInt8} {a : α} {r : Option β}

/-- All the bytes are read, to the value; or the parser fails, without a value. -/
def Reads (p : Parser α) (bs : List UInt8) : Option α → Prop
  | some a => ∀ offset rest, p ⟨offset, bs ++ rest⟩ = .ok (a, ⟨offset + bs.length, rest⟩)
  | none => ∀ offset rest, ∃ e, p ⟨offset, bs ++ rest⟩ = .error e

theorem bind_apply (p : Parser α) (f : α → Parser β) (input : Input) :
    (p >>= f) input =
      match p input with
      | .ok (a, input) => f a input
      | .error e => .error e := by
  show (p input >>= fun (a, input) => f a input) = _
  cases p input <;> rfl

theorem reads_pure (a : α) : Reads (pure a : Parser α) [] (some a) := fun _ _ => rfl

theorem reads_fail (e : ParseError) : Reads (fail e : Parser α) [] none := fun _ _ => ⟨e, rfl⟩

theorem Reads.bind {f : α → Parser β} (hp : Reads p xs (some a)) (hf : Reads (f a) ys r) :
    Reads (p >>= f) (xs ++ ys) r := by
  cases r with
  | some b =>
      intro offset rest
      rw [bind_apply, List.append_assoc, hp, List.length_append, ← Nat.add_assoc]
      exact hf (offset + xs.length) rest
  | none =>
      intro offset rest
      rw [bind_apply, List.append_assoc, hp]
      exact hf (offset + xs.length) rest

/-- What a parser refuses it refuses with anything after it. -/
theorem Reads.append (hp : Reads p xs none) (ys : List UInt8) : Reads p (xs ++ ys) none := by
  intro offset rest
  rw [List.append_assoc]
  exact hp offset (ys ++ rest)

theorem Reads.bind_none {f : α → Parser β} (hp : Reads p xs none) : Reads (p >>= f) xs none := by
  intro offset rest
  obtain ⟨e, he⟩ := hp offset rest
  exact ⟨e, by rw [bind_apply, he]⟩

theorem Reads.bind_skip {f : α → Parser β} (hp : Reads p [] (some a)) (hf : Reads (f a) ys r) :
    Reads (p >>= f) ys r := by
  simpa using hp.bind hf

theorem Reads.bind_last {f : α → Parser β} (hp : Reads p xs (some a)) (hf : Reads (f a) [] r) :
    Reads (p >>= f) xs r := by
  simpa using hp.bind hf

theorem Reads.map {f : α → β} (hp : Reads p xs (some a)) :
    Reads (do return f (← p)) xs (some (f a)) :=
  hp.bind_last (reads_pure (f a))

theorem Reads.within {outcome : Option α} (place : Place) (h : Reads p bs outcome) :
    Reads (Parser.within place p) bs outcome := by
  cases outcome with
  | some a =>
      intro offset rest
      rw [Parser.within, h]
  | none =>
      intro offset rest
      obtain ⟨e, he⟩ := h offset rest
      exact ⟨.within place e, by rw [Parser.within, he]⟩

theorem reads_lift {x : Except ParseError α} (h : x = .ok a) : Reads (lift x) [] (some a) := by
  subst h
  exact fun _ _ => rfl

theorem reads_fromPool {x : Except PoolError α} (h : x = .ok a) :
    Reads (fromPool x) [] (some a) := by
  subst h
  exact fun _ _ => rfl

theorem Reads.guard {c : Prop} [Decidable c] {e : ParseError} {p : Parser β}
    (h : ¬ c → Reads p bs r) :
    Reads (do
      if c then Parser.fail e
      p) bs (if c then none else r) := by
  by_cases hc : c
  · rw [if_pos hc, if_pos hc]
    exact (reads_fail e).bind_none.append bs
  · rw [if_neg hc, if_neg hc]
    exact h hc

theorem Reads.bind_guard {f : α → Parser β} {P : Prop} [Decidable P]
    (hp : Reads p xs (if P then some a else none)) (hf : P → Reads (f a) ys r) :
    Reads (p >>= f) (xs ++ ys) (if P then r else none) := by
  by_cases h : P
  · rw [if_pos h] at hp ⊢
    exact hp.bind (hf h)
  · rw [if_neg h] at hp ⊢
    exact hp.bind_none.append ys

/-! ## Words -/

theorem reads_u1 (b : UInt8) : Reads u1 [b] (some b) := fun _ _ => rfl

theorem reads_u2 (w : UInt16) : Reads u2 (BigEndian.bytes16 w) (some w) := by
  intro offset rest
  show Except.ok (BigEndian.join16 _ _, _) = _
  rw [BigEndian.join16_bytes16]
  rfl

theorem reads_u4 (w : UInt32) : Reads u4 (BigEndian.bytes32 w) (some w) := by
  intro offset rest
  show Except.ok (BigEndian.join32 _ _ _ _, _) = _
  rw [BigEndian.join32_bytes32]
  rfl

theorem reads_u8 (w : UInt64) : Reads u8 (BigEndian.bytes64 w) (some w) := by
  intro offset rest
  show Except.ok (BigEndian.join64 (BigEndian.join32 _ _ _ _) (BigEndian.join32 _ _ _ _), _) = _
  rw [BigEndian.join32_bytes32, BigEndian.join32_bytes32, BigEndian.join64_halves]
  rfl

theorem reads_bytes (bs : List UInt8) : Reads (bytes bs.length) bs (some bs) := by
  intro offset rest
  simp [Parser.bytes]

/-! ## Repetition -/

theorem reads_rounds {parse : Nat → Parser α} {encode : β → List UInt8} {outcome : β → Option α}
    {items : List β} (h : ∀ item ∈ items, ∀ i, Reads (parse i) (encode item) (outcome item))
    (index : Nat) :
    Reads (rounds parse index items.length) (items.flatMap encode) (items.mapM outcome) := by
  induction items generalizing index with
  | nil => exact reads_pure []
  | cons item rest ih =>
      have hitem := h item List.mem_cons_self index
      have hrest := ih (fun item' h' => h item' (List.mem_cons_of_mem item h')) (index + 1)
      rw [List.flatMap_cons, List.length_cons, List.mapM_cons, rounds]
      cases hout : outcome item with
      | none =>
          rw [hout] at hitem
          exact hitem.bind_none.append _
      | some a =>
          rw [hout] at hitem
          refine hitem.bind ?_
          cases hout : rest.mapM outcome with
          | none =>
              rw [hout] at hrest
              exact hrest.bind_none
          | some as =>
              rw [hout] at hrest
              exact hrest.map

theorem mapM_some (f : β → α) (items : List β) :
    items.mapM (fun item => some (f item)) = some (items.map f) := by
  induction items with
  | nil => rfl
  | cons item rest ih =>
      rw [List.mapM_cons, ih]
      rfl

theorem mapM_guard {P : β → Prop} [DecidablePred P] (f : β → α) (items : List β) :
    items.mapM (fun item => if P item then some (f item) else none) =
      if ∀ item ∈ items, P item then some (items.map f) else none := by
  induction items with
  | nil => rw [if_pos nofun, List.mapM_nil, List.map_nil]; rfl
  | cons item rest ih =>
      rw [List.mapM_cons, ih]
      simp only [List.mem_cons, forall_eq_or_imp]
      by_cases hitem : P item
      · by_cases hrest : ∀ item' ∈ rest, P item'
        · rw [if_pos hitem, if_pos hrest, if_pos ⟨hitem, hrest⟩]
          rfl
        · have hnot : ¬ (P item ∧ ∀ item' ∈ rest, P item') := fun h => hrest h.2
          rw [if_pos hitem, if_neg hrest, if_neg hnot]
          rfl
      · have hnot : ¬ (P item ∧ ∀ item' ∈ rest, P item') := fun h => hitem h.1
        rw [if_neg hitem, if_neg hnot]
        rfl

theorem reads_table {f : Nat → Parser α} {encode : β → List UInt8} {outcome : β → Option α}
    {items : List β} (hcount : items.length < 65536)
    (h : ∀ item ∈ items, ∀ i, Reads (f i) (encode item) (outcome item)) :
    Reads (table f)
      (BigEndian.bytes16 (UInt16.ofNat items.length) ++ items.flatMap encode)
      (items.mapM outcome) := by
  refine (reads_u2 _).bind ?_
  rw [UInt16.toNat_ofNat_of_lt' hcount]
  exact reads_rounds h 0

/-! ## Whole inputs -/

theorem runOn_of_reads {extra : Nat → ParseError} (h : Reads p bs (some a)) :
    runOn p bs extra = .ok a := by
  have := h 0 []
  rw [List.append_nil] at this
  rw [runOn, this]
  rfl

theorem runOn_of_refused {extra : Nat → ParseError} (h : Reads p bs none) :
    ∃ e, runOn p bs extra = .error e := by
  obtain ⟨e, he⟩ := h 0 []
  rw [List.append_nil] at he
  exact ⟨e, by rw [runOn, he]⟩

end ClassEngine.ClassFile.Parser
