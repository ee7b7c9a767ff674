import ClassEngine.Proofs.ClassFile.Attributes

/-!
# What parsers take

A parser that succeeds takes some bytes off the front of its input.  What it takes and the value
that it returns are related, and the relation of parsers put together comes from those of the parts.
-/

namespace ClassEngine

namespace BigEndian

theorem bytes16_join16 (a b : UInt8) : bytes16 (join16 a b) = [a, b] := by
  have ha := a.toNat_lt
  have hb := b.toNat_lt
  have hhigh : (join16 a b >>> 8).toUInt8 = a := by
    apply UInt8.toNat_inj.mp
    rw [UInt16.toNat_toUInt8, UInt16.toNat_shiftRight, toNat_join16, Nat.shiftRight_eq_div_pow]
    show (a.toNat * 256 + b.toNat) / 2 ^ 8 % 2 ^ 8 = a.toNat
    omega
  have hlow : (join16 a b).toUInt8 = b := by
    apply UInt8.toNat_inj.mp
    rw [UInt16.toNat_toUInt8, toNat_join16]
    omega
  rw [bytes16, hhigh, hlow]

theorem bytes32_join32 (a b c d : UInt8) : bytes32 (join32 a b c d) = [a, b, c, d] := by
  have ha := a.toNat_lt
  have hb := b.toNat_lt
  have hc := c.toNat_lt
  have hd := d.toNat_lt
  have hword : (join32 a b c d).toNat =
      (a.toNat * 256 + b.toNat) * 65536 + (c.toNat * 256 + d.toNat) := by
    rw [toNat_join32, toNat_join16, toNat_join16]
  have hbyte (shift : UInt32) (x : UInt8)
      (h : (join32 a b c d).toNat / 2 ^ (shift.toNat % 32) % 256 = x.toNat) :
      (join32 a b c d >>> shift).toUInt8 = x := by
    apply UInt8.toNat_inj.mp
    rw [UInt32.toNat_toUInt8, UInt32.toNat_shiftRight, Nat.shiftRight_eq_div_pow]
    exact h
  have hlow : (join32 a b c d).toUInt8 = d := by
    apply UInt8.toNat_inj.mp
    rw [UInt32.toNat_toUInt8, hword]
    omega
  rw [bytes32, hbyte 24 a (by rw [hword]; show _ / 2 ^ 24 % 256 = _; omega),
    hbyte 16 b (by rw [hword]; show _ / 2 ^ 16 % 256 = _; omega),
    hbyte 8 c (by rw [hword]; show _ / 2 ^ 8 % 256 = _; omega), hlow]

end BigEndian

namespace ClassFile.Parser

open BigEndian

variable {α β : Type} {p : Parser α} {Q Q' : List UInt8 → α → Prop}

/-- Whatever the parser returns, it took the bytes before the rest, and they are as told. -/
structure Takes (p : Parser α) (Q : List UInt8 → α → Prop) : Prop where
  takes : ∀ {input : Input} {a : α} {input' : Input}, p input = .ok (a, input') →
    ∃ used, input.rest = used ++ input'.rest ∧ Q used a

theorem bind_eq_ok {f : α → Parser β} {input input' : Input} {b : β}
    (h : (p >>= f) input = .ok (b, input')) :
    ∃ a next, p input = .ok (a, next) ∧ f a next = .ok (b, input') := by
  rw [bind_apply] at h
  cases hp : p input with
  | error e =>
      rw [hp] at h
      contradiction
  | ok r =>
      rw [hp] at h
      exact ⟨r.1, r.2, rfl, h⟩

theorem Takes.mono (h : Takes p Q) (hQ : ∀ used a, Q used a → Q' used a) : Takes p Q' := by
  refine ⟨fun {_ a _} hok => ?_⟩
  obtain ⟨used, hrest, hused⟩ := h.takes hok
  exact ⟨used, hrest, hQ used a hused⟩

theorem takes_pure {a : α} (h : Q [] a) : Takes (pure a) Q := by
  refine ⟨fun hok => ?_⟩
  cases hok
  exact ⟨[], rfl, h⟩

theorem takes_fail (e : ParseError) : Takes (fail e) Q := ⟨nofun⟩

theorem Takes.bind {f : α → Parser β} {R : List UInt8 → β → Prop} (hp : Takes p Q)
    (hf : ∀ used a, Q used a → Takes (f a) fun more b => R (used ++ more) b) :
    Takes (p >>= f) R := by
  refine ⟨fun hok => ?_⟩
  obtain ⟨a, next, hfirst, hsecond⟩ := bind_eq_ok hok
  obtain ⟨used, hused, hQ⟩ := hp.takes hfirst
  obtain ⟨more, hmore, hR⟩ := (hf used a hQ).takes hsecond
  exact ⟨used ++ more, by rw [hused, hmore, List.append_assoc], hR⟩

theorem takes_lift {r : Except ParseError α} (h : ∀ a, r = .ok a → Q [] a) : Takes (lift r) Q := by
  refine ⟨fun hok => ?_⟩
  cases r with
  | error e => cases hok
  | ok a =>
      cases hok
      exact ⟨[], rfl, h _ rfl⟩

theorem takes_lift_mapError {ε : Type} {g : ε → ParseError} {r : Except ε α}
    (h : ∀ a, r = .ok a → Q [] a) : Takes (lift (r.mapError g)) Q := by
  refine takes_lift fun a ha => ?_
  cases r with
  | error e => cases ha
  | ok a =>
      cases ha
      exact h _ rfl

theorem takes_fromPool {r : Except PoolError α} (h : ∀ a, r = .ok a → Q [] a) :
    Takes (fromPool r) Q :=
  takes_lift_mapError h

theorem Takes.within {place : Place} (h : Takes p Q) : Takes (Parser.within place p) Q := by
  refine ⟨fun {input _ _} hok => ?_⟩
  rw [Parser.within] at hok
  cases hp : p input with
  | error e =>
      rw [hp] at hok
      cases hok
  | ok r =>
      rw [hp] at hok
      cases hok
      exact h.takes hp

theorem Takes.ite {c : Prop} [Decidable c] {q : Parser α} (hp : c → Takes p Q)
    (hq : ¬ c → Takes q Q) : Takes (if c then p else q) Q := by
  split
  · rename_i hc
    exact hp hc
  · rename_i hc
    exact hq hc

theorem Takes.of_runOn (h : Takes p Q) {bs : List UInt8} {extra : Nat → ParseError} {a : α}
    (hok : runOn p bs extra = .ok a) : Q bs a := by
  rw [runOn] at hok
  cases hread : p ⟨0, bs⟩ with
  | error e =>
      rw [hread] at hok
      cases hok
  | ok r =>
      rw [hread] at hok
      dsimp only at hok
      split at hok
      · rename_i hend
        cases hok
        obtain ⟨used, hused, hQ⟩ := h.takes hread
        rw [List.isEmpty_iff.mp hend, List.append_nil] at hused
        subst hused
        exact hQ
      · cases hok

/-! ## Words -/

theorem takes_u1 : Takes u1 fun used b => used = [b] := by
  refine ⟨fun {input _ _} hok => ?_⟩
  obtain ⟨offset, rest⟩ := input
  rcases rest with _ | ⟨b, rest⟩
  · cases hok
  · cases hok
    exact ⟨[_], rfl, rfl⟩

theorem takes_u2 : Takes u2 fun used w => used = bytes16 w := by
  refine ⟨fun {input _ _} hok => ?_⟩
  obtain ⟨offset, rest⟩ := input
  rcases rest with _ | ⟨b, _ | ⟨c, rest⟩⟩
  · cases hok
  · cases hok
  · cases hok
    exact ⟨[b, c], rfl, (bytes16_join16 b c).symm⟩

theorem takes_u4 : Takes u4 fun used w => used = bytes32 w := by
  refine ⟨fun {input _ _} hok => ?_⟩
  obtain ⟨offset, rest⟩ := input
  rcases rest with _ | ⟨b, _ | ⟨c, _ | ⟨d, _ | ⟨e, rest⟩⟩⟩⟩
  · cases hok
  · cases hok
  · cases hok
  · cases hok
  · cases hok
    exact ⟨[b, c, d, e], rfl, (bytes32_join32 b c d e).symm⟩

theorem takes_bytes (count : Nat) :
    Takes (bytes count) fun used bs => used = bs ∧ bs.length = count := by
  refine ⟨fun {input _ _} hok => ?_⟩
  obtain ⟨offset, rest⟩ := input
  rw [Parser.bytes] at hok
  dsimp only at hok
  split at hok
  · cases hok
  · rename_i hlong
    cases hok
    refine ⟨rest.take count, (List.take_append_drop count rest).symm, rfl, ?_⟩
    rw [List.length_take] at hlong ⊢
    omega

/-! ## Repetition -/

theorem takes_rounds {parse : Nat → Parser α} (h : ∀ i, Takes (parse i) Q) (index count : Nat) :
    Takes (rounds parse index count) fun used as => as.length = count ∧
      ∃ parts, List.Forall₂ Q parts as ∧ used = parts.flatten := by
  induction count generalizing index with
  | zero => exact takes_pure ⟨rfl, [], .nil, rfl⟩
  | succ count ih =>
      refine (h index).bind fun used a hused => (ih (index + 1)).bind fun more as hmore => ?_
      obtain ⟨hlength, parts, hparts, rfl⟩ := hmore
      refine takes_pure ⟨by rw [List.length_cons, hlength], used :: parts, .cons hused hparts, ?_⟩
      rw [List.append_nil, List.flatten_cons]

theorem takes_table {parse : Nat → Parser α} (h : ∀ i, Takes (parse i) Q) :
    Takes (table parse) fun used as => as.length < 65536 ∧ ∃ parts, List.Forall₂ Q parts as ∧
      used = bytes16 (UInt16.ofNat as.length) ++ parts.flatten := by
  refine takes_u2.bind fun _ count hcount => (takes_rounds h 0 count.toNat).mono ?_
  rintro more as ⟨hlength, parts, hparts, rfl⟩
  have hword : UInt16.ofNat as.length = count := by rw [hlength, UInt16.ofNat_toNat]
  exact ⟨hlength ▸ count.toNat_lt, parts, hparts, by rw [hcount, hword]⟩

theorem takes_table_forall {P : α → Prop} {parse : Nat → Parser α}
    (h : ∀ i, Takes (parse i) fun _ => P) : Takes (table parse) fun _ as => ∀ a ∈ as, P a := by
  refine (takes_table h).mono fun _ as ⟨_, parts, hparts, _⟩ => ?_
  clear * - hparts
  induction hparts with
  | nil => nofun
  | cons hhead _ ih => exact List.forall_mem_cons.mpr ⟨hhead, ih⟩

/-! ## Attributes -/

variable {σ : Type} {pool : Pool} {interpret : String → List UInt8 → σ → Except ParseError σ}

theorem sized_apply (name : String) (length : Nat) (input : Input) :
    (do
      let left ← remaining
      if left < length then fail (.attributeOverrun name length left)
      return (name, ← bytes length) : Parser (String × List UInt8)) input =
      if input.rest.length < length then
        .error (.attributeOverrun name length input.rest.length)
      else .ok ((name, input.rest.take length),
        ⟨input.offset + length, input.rest.drop length⟩) := by
  show (do
    if input.rest.length < length then fail (.attributeOverrun name length input.rest.length)
    return (name, ← bytes length) : Parser (String × List UInt8)) input = _
  by_cases hleft : input.rest.length < length
  · rw [if_pos hleft, if_pos hleft]
    rfl
  · have hlong : ¬ (input.rest.take length).length < length := by
      rw [List.length_take]
      omega
    rw [if_neg hleft, if_neg hleft]
    show (bytes length >>= fun bs => pure (name, bs) : Parser (String × List UInt8)) input = _
    rw [bind_apply, Parser.bytes, if_neg hlong]
    rfl

theorem takes_rawAttribute : Takes (rawAttribute pool) fun used r =>
    ∃ a : Attribute, a.Fits pool ∧ used = a.encode ∧ r = (a.name, a.body) := by
  have hname (index : UInt16) : Takes (Parser.within .attributeName (fromPool (pool.utf8 index)))
      fun used name => used = [] ∧ pool.utf8 index = .ok name :=
    (takes_fromPool fun name h => ⟨rfl, h⟩).within
  refine takes_u2.bind fun _ index hindex => (hname index).bind fun _ name ⟨hnone, hname⟩ =>
    takes_u4.bind fun _ length hlength => ⟨fun {input r _} hok => ?_⟩
  rw [sized_apply] at hok
  split at hok
  · cases hok
  · rename_i hlong
    cases hok
    have hcount : (input.rest.take length.toNat).length = length.toNat := by
      rw [List.length_take]
      omega
    refine ⟨_, (List.take_append_drop length.toNat input.rest).symm,
      ⟨index, name, input.rest.take length.toNat⟩, ⟨hname, ?_⟩, ?_, rfl⟩
    · show (input.rest.take length.toNat).length < 4294967296
      rw [hcount]
      exact length.toNat_lt
    · rw [hindex, hnone, hlength, Attribute.encode, Builder.encodeAttribute, MethodDraft.count32,
        hcount, UInt32.ofNat_toNat, List.nil_append, List.append_assoc]

theorem takes_attributeRounds (s : σ) (count : Nat) :
    Takes (attributeRounds pool interpret s count) fun used s' =>
      ∃ as : List Attribute, as.length = count ∧ (∀ a ∈ as, a.Fits pool) ∧
        used = as.flatMap Attribute.encode ∧
          as.foldlM (fun s a => interpret a.name a.body s) s = .ok s' := by
  induction count generalizing s with
  | zero => exact takes_pure ⟨[], rfl, nofun, rfl, rfl⟩
  | succ count ih =>
      refine takes_rawAttribute.bind ?_
      rintro _ _ ⟨a, hfits, rfl, rfl⟩
      refine (Takes.within (takes_lift fun s₁ h => ⟨rfl, h⟩)).bind
        (Q := fun used s₁ => used = [] ∧ interpret a.name a.body s = .ok s₁) ?_
      rintro _ s₁ ⟨rfl, hs₁⟩
      refine (ih s₁).mono ?_
      rintro _ s' ⟨as, hlength, has, rfl, hs'⟩
      refine ⟨a :: as, by rw [List.length_cons, hlength], List.forall_mem_cons.mpr ⟨hfits, has⟩,
        by rw [List.nil_append, List.flatMap_cons], ?_⟩
      rw [List.foldlM_cons, hs₁]
      exact hs'

theorem takes_attributes (s : σ) : Takes (attributes pool interpret s) fun used s' =>
    ∃ as : List Attribute, as.length < 65536 ∧ (∀ a ∈ as, a.Fits pool) ∧
      used = MethodDraft.count16 as ++ as.flatMap Attribute.encode ∧
        as.foldlM (fun s a => interpret a.name a.body s) s = .ok s' := by
  refine takes_u2.bind fun _ count hcount => (takes_attributeRounds s count.toNat).mono ?_
  rintro _ s' ⟨as, hlength, has, rfl, hs'⟩
  refine ⟨as, hlength ▸ count.toNat_lt, has, ?_, hs'⟩
  rw [hcount, MethodDraft.count16, hlength, UInt16.ofNat_toNat]

theorem takes_attributes_invariant {P : σ → Prop}
    (h : ∀ {name body s s'}, interpret name body s = .ok s' → P s → P s') {s : σ} (hs : P s) :
    Takes (attributes pool interpret s) fun _ => P := by
  refine (takes_attributes s).mono fun _ s' ⟨as, _, _, _, hfold⟩ => ?_
  clear * - h hs hfold
  induction as generalizing s with
  | nil =>
      cases hfold
      exact hs
  | cons a as ih =>
      rw [List.foldlM_cons] at hfold
      cases hfirst : interpret a.name a.body s with
      | error e =>
          rw [hfirst] at hfold
          cases hfold
      | ok s₁ =>
          rw [hfirst] at hfold
          exact ih (h hfirst hs) hfold

end ClassFile.Parser

end ClassEngine
