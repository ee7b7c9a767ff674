import ClassEngine.Proofs.ClassFile.Attributes

/-!
# The pool of a builder

A builder's pool only grows, and the index it gives for a constant holds that constant from then
on.  What an action does is told of the builder that it leaves, if that has no error, and of any
pool that has the entries of that builder's pool: what is told stays true when more is added.
-/

namespace ClassEngine.ClassFile

namespace Pool

variable {p p' p'' : Pool} {i : UInt16}

def Extends (p p' : Pool) : Prop := ∀ i c, p.get? i = some c → p'.get? i = some c

theorem Extends.refl (p : Pool) : p.Extends p := fun _ _ h => h

theorem Extends.trans (h : p.Extends p') (h' : p'.Extends p'') : p.Extends p'' :=
  fun i c hc => h' i c (h i c hc)

theorem get?_eq_some {c : Constant} :
    p.get? i = some c ↔ i ≠ 0 ∧ p.slots[i.toNat]? = some (some c) := by
  rw [get?]
  split
  · rename_i hzero
    exact ⟨nofun, fun h => absurd hzero h.1⟩
  · rename_i hne
    rw [Option.join_eq_some_iff]
    exact ⟨fun h => ⟨hne, h⟩, fun h => h.2⟩

theorem utf8_of_get {text : String} (h : p.get? i = some (.utf8 text)) : p.utf8 i = .ok text := by
  rw [utf8, get, h]
  rfl

theorem className_of_get {n : UInt16} {name : String} (h : p.get? i = some (.classRef n))
    (hname : p.utf8 n = .ok name) : p.className i = .ok name := by
  rw [className, get, h]
  exact hname

theorem stringValue_of_get {n : UInt16} {text : String} (h : p.get? i = some (.string n))
    (htext : p.utf8 n = .ok text) : p.stringValue i = .ok text := by
  rw [stringValue, get, h]
  exact htext

theorem ne_zero_of_utf8 {text : String} (h : p.utf8 i = .ok text) : i ≠ 0 := by
  rintro rfl
  nomatch h

theorem ne_zero_of_className {name : String} (h : p.className i = .ok name) : i ≠ 0 := by
  rintro rfl
  nomatch h

def Holds (p : Pool) (i : UInt16) : Literal → Prop
  | .int value => p.get? i = some (.integer value)
  | .long value => p.get? i = some (.long value)
  | .float bits => p.get? i = some (.float bits)
  | .double bits => p.get? i = some (.double bits)
  | .string text => p.stringValue i = .ok text
  | .unsupported _ => False

end Pool

namespace Builder

variable {α β : Type} {b b' b'' : Builder}

def pool (b : Builder) : Pool := ⟨b.slots⟩

/-- The slots are laid out as in a file, and the index tells where each constant is. -/
structure Sound (b : Builder) : Prop where
  layout : ∃ cs : List Constant, b.slots.toList = none :: cs.flatMap Constant.slots ∧
    ∀ c ∈ cs, c.Encodable
  size : b.slots.size ≤ maxSlots
  indexed : ∀ c i, b.index[c]? = some i → b.pool.get? i = some c
  keyed : ∀ i c, b.pool.get? i = some c → b.index[c]? = some i

/-- Nothing but the pool and the error may have changed. -/
def Keeps (b b' : Builder) : Prop :=
  b' = { b with slots := b'.slots, index := b'.index, error? := b'.error? }

theorem Keeps.refl (b : Builder) : b.Keeps b := rfl

theorem Keeps.trans (h : b.Keeps b') (h' : b'.Keeps b'') : b.Keeps b'' := by
  rw [Keeps] at h h' ⊢
  rw [h', h]

/-- The builder is sound, has the entries and any error of the first, and if it has no error its
pool is as said, in whatever way it grows. -/
structure Leaves (b b' : Builder) (Q : Pool → Prop) : Prop where
  sound : b'.Sound
  grows : b.pool.Extends b'.pool
  error : b'.error? = none → b.error? = none
  post : b'.error? = none → ∀ p, b'.pool.Extends p → Q p

def Performs (m : Build α) (Q : Pool → Builder → α → Builder → Prop) : Prop :=
  ∀ b : Builder, b.Sound → Leaves b (m b).2 fun p => Q p b (m b).1 (m b).2

theorem bind_apply (m : Build α) (f : α → Build β) (b : Builder) :
    (m >>= f) b = f (m b).1 (m b).2 := rfl

theorem get_apply (b : Builder) : (get : Build Builder) b = (b, b) := rfl

theorem Performs.mono {m : Build α} {Q R : Pool → Builder → α → Builder → Prop}
    (hm : Performs m Q) (h : ∀ p b a b', Q p b a b' → R p b a b') : Performs m R :=
  fun b hb => { hm b hb with post := fun hok p hp => h _ _ _ _ ((hm b hb).post hok p hp) }

theorem performs_pure {a : α} {Q : Pool → Builder → α → Builder → Prop} (h : ∀ p b, Q p b a b) :
    Performs (pure a) Q :=
  fun b hb => ⟨hb, .refl _, id, fun _ p _ => h p b⟩

theorem Performs.bind {m : Build α} {f : α → Build β} {Q : Pool → Builder → α → Builder → Prop}
    {R : Pool → Builder → β → Builder → Prop} (hm : Performs m Q)
    (hf : ∀ a, Performs (f a) fun p b r b' => ∀ b₀, Q p b₀ a b → R p b₀ r b') :
    Performs (m >>= f) R := by
  intro b hb
  have hfirst := hm b hb
  have hsecond := hf (m b).1 (m b).2 hfirst.sound
  exact {
    sound := hsecond.sound
    grows := hfirst.grows.trans hsecond.grows
    error := fun hok => hfirst.error (hsecond.error hok)
    post := fun hok p hp =>
      hsecond.post hok p hp b (hfirst.post (hsecond.error hok) p (hsecond.grows.trans hp)) }

theorem performs_fail (e : BuildError) (Q : Pool → Builder → Unit → Builder → Prop) :
    Performs (fail e) Q := by
  intro b hb
  have herror : (fail e b).2.error? ≠ none := by
    show b.error?.or (some e) ≠ none
    cases b.error? <;> exact Option.some_ne_none _
  exact ⟨⟨hb.layout, hb.size, hb.indexed, hb.keyed⟩, .refl _, fun h => absurd h herror,
    fun h => absurd h herror⟩

theorem performs_failed (e : BuildError) (a : α) (Q : Pool → Builder → α → Builder → Prop) :
    Performs (do fail e; return a) Q :=
  (performs_fail e fun _ _ _ _ => False).bind fun _ => performs_pure fun _ _ _ h => h.elim

theorem performs_get : Performs get fun _ b r b' => r = b ∧ b' = b :=
  fun _ hb => ⟨hb, .refl _, id, fun _ _ _ => ⟨rfl, rfl⟩⟩

theorem performs_modify (f : Builder → Builder)
    (hf : ∀ b, f b = { f b with slots := b.slots, index := b.index, error? := b.error? }) :
    Performs (modify f) fun _ b _ b' => b' = f b := by
  intro b hb
  have hpool : (f b).pool = b.pool := (congrArg pool (hf b)).trans rfl
  have hindex : (f b).index = b.index := (congrArg index (hf b)).trans rfl
  have hslots : (f b).slots = b.slots := (congrArg slots (hf b)).trans rfl
  have hsound : (f b).Sound :=
    ⟨hslots ▸ hb.layout, hslots ▸ hb.size, fun c i hi => hpool ▸ hb.indexed c i (hindex ▸ hi),
      fun i c hc => hindex ▸ hb.keyed i c (hpool ▸ hc)⟩
  exact ⟨hsound, fun i c h => hpool ▸ h, fun h => ((congrArg error? (hf b)).trans rfl).symm.trans h,
    fun _ _ _ => rfl⟩

/-! ## Adding to the pool -/

/-- Only the pool is changed, and the result is as said of the pool. -/
def Adds (m : Build α) (Q : Pool → α → Prop) : Prop :=
  Performs m fun p b a b' => b.Keeps b' ∧ Q p a

theorem adds_pure {a : α} {Q : Pool → α → Prop} (h : ∀ p, Q p a) : Adds (pure a) Q :=
  performs_pure fun p b => ⟨.refl b, h p⟩

theorem Adds.mono {m : Build α} {Q R : Pool → α → Prop} (hm : Adds m Q)
    (h : ∀ p a, Q p a → R p a) : Adds m R :=
  Performs.mono hm fun p _ a _ ⟨hkeeps, hq⟩ => ⟨hkeeps, h p a hq⟩

theorem Adds.bind {m : Build α} {f : α → Build β} {Q : Pool → α → Prop} {R : Pool → β → Prop}
    (hm : Adds m Q) (hf : ∀ a, Adds (f a) fun p r => Q p a → R p r) : Adds (m >>= f) R :=
  Performs.bind hm fun a => Performs.mono (hf a) fun _ _ _ _ ⟨hkeeps, hr⟩ _ ⟨hkeeps₀, hq⟩ =>
    ⟨hkeeps₀.trans hkeeps, hr hq⟩

theorem Adds.map {m : Build α} {f : α → β} {Q : Pool → α → Prop} {R : Pool → β → Prop}
    (hm : Adds m Q) (h : ∀ p a, Q p a → R p (f a)) : Adds (f <$> m) R :=
  hm.bind fun a => adds_pure fun p => h p a

/-- A constant that is not there yet takes the next slots. -/
def withConstant (b : Builder) (c : Constant) : Builder :=
  { b with
    slots := if c.isWide then (b.slots.push (some c)).push none else b.slots.push (some c)
    index := b.index.insert c (UInt16.ofNat b.slots.size) }

theorem withConstant_toList (b : Builder) (c : Constant) :
    (b.withConstant c).slots.toList = b.slots.toList ++ c.slots := by
  rw [withConstant, Constant.slots]
  dsimp only
  split <;> simp

theorem withConstant_getElem? (b : Builder) (c : Constant) :
    (b.withConstant c).slots[b.slots.size]? = some (some c) := by
  rw [← Array.getElem?_toList, withConstant_toList,
    List.getElem?_append_right (Nat.le_of_eq Array.length_toList), Array.length_toList,
    Nat.sub_self, Constant.slots]
  split <;> rfl

/-- Nothing else is new among the slots. -/
theorem withConstant_cases {c c' : Constant} {n : Nat}
    (h : (b.withConstant c).slots[n]? = some (some c')) :
    b.slots[n]? = some (some c') ∨ n = b.slots.size ∧ c' = c := by
  rw [← Array.getElem?_toList, withConstant_toList] at h
  by_cases hlt : n < b.slots.size
  · rw [List.getElem?_append_left (by simpa using hlt), Array.getElem?_toList] at h
    exact .inl h
  · rw [List.getElem?_append_right (by simpa using hlt), Array.length_toList, Constant.slots] at h
    right
    cases hn : n - b.slots.size with
    | zero =>
        rw [hn] at h
        split at h <;> exact ⟨by omega, by simpa using h.symm⟩
    | succ k =>
        rw [hn] at h
        split at h <;> cases k <;> simp at h

theorem extends_withConstant (b : Builder) (c : Constant) :
    b.pool.Extends (b.withConstant c).pool := by
  intro i c' h
  obtain ⟨hne, hslot⟩ := Pool.get?_eq_some.mp h
  refine Pool.get?_eq_some.mpr ⟨hne, ?_⟩
  have hlt : i.toNat < b.slots.toList.length := by
    rw [Array.length_toList]
    exact (Array.getElem?_eq_some_iff.mp hslot).1
  show (b.withConstant c).slots[i.toNat]? = _
  rw [← Array.getElem?_toList, withConstant_toList, List.getElem?_append_left hlt,
    Array.getElem?_toList]
  exact hslot

theorem Sound.size_pos (h : b.Sound) : 0 < b.slots.size := by
  obtain ⟨cs, hslots, -⟩ := h.layout
  rw [← Array.length_toList, hslots]
  exact Nat.succ_pos _

theorem Sound.get?_withConstant (h : b.Sound) {c : Constant}
    (hroom : b.slots.size + (if c.isWide then 2 else 1) ≤ maxSlots) :
    (b.withConstant c).pool.get? (UInt16.ofNat b.slots.size) = some c := by
  have hpos := h.size_pos
  have hlt : b.slots.size < 65536 := by
    rw [maxSlots] at hroom
    omega
  have hnat : (UInt16.ofNat b.slots.size).toNat = b.slots.size := UInt16.toNat_ofNat_of_lt' hlt
  refine Pool.get?_eq_some.mpr ⟨fun hzero => ?_, ?_⟩
  · rw [hzero] at hnat
    exact Nat.ne_of_lt hpos hnat
  · rw [hnat]
    exact withConstant_getElem? b c

theorem Sound.withConstant (h : b.Sound) {c : Constant} (hc : c.Encodable)
    (hnew : b.index[c]? = none)
    (hroom : b.slots.size + (if c.isWide then 2 else 1) ≤ maxSlots) :
    (b.withConstant c).Sound := by
  obtain ⟨cs, hslots, hcs⟩ := h.layout
  refine ⟨⟨cs ++ [c], ?_, ?_⟩, ?_, fun c' i hi => ?_, fun i c' hi => ?_⟩
  · rw [withConstant_toList, hslots, List.flatMap_append, List.flatMap_singleton]
    rfl
  · intro c' hc'
    rcases List.mem_append.mp hc' with hold | hnew
    · exact hcs c' hold
    · exact List.mem_singleton.mp hnew ▸ hc
  · rw [← Array.length_toList, withConstant_toList, List.length_append, length_slots,
      Array.length_toList]
    exact hroom
  · have hlookup : (b.index.insert c (UInt16.ofNat b.slots.size))[c']? = some i := hi
    rw [Std.HashMap.getElem?_insert] at hlookup
    split at hlookup
    · rename_i hsame
      cases hlookup
      exact eq_of_beq hsame ▸ h.get?_withConstant hroom
    · exact extends_withConstant b c i c' (h.indexed c' i hlookup)
  · show (b.index.insert c (UInt16.ofNat b.slots.size))[c']? = some i
    rw [Std.HashMap.getElem?_insert]
    obtain ⟨hne, hslot⟩ := Pool.get?_eq_some.mp hi
    rcases withConstant_cases hslot with hold | ⟨hlast, rfl⟩
    · have hfound := h.keyed i c' (Pool.get?_eq_some.mpr ⟨hne, hold⟩)
      have hother : ¬ (c == c') = true := fun hsame => by
        rw [eq_of_beq hsame, hfound] at hnew
        nomatch hnew
      rw [if_neg hother]
      exact hfound
    · rw [if_pos (beq_self_eq_true c'), ← hlast, UInt16.ofNat_toNat]

theorem add_found {c : Constant} {i : UInt16} (h : b.index[c]? = some i) : add c b = (i, b) := by
  rw [add, bind_apply, get_apply, h]
  rfl

theorem add_new {c : Constant} (h : b.index[c]? = none) :
    add c b =
      if maxSlots < b.slots.size + (if c.isWide then 2 else 1) then
        (do fail .poolOverflow; return 0 : Build UInt16) b
      else (UInt16.ofNat b.slots.size, b.withConstant c) := by
  rw [add, bind_apply, get_apply, h]
  show (if maxSlots < b.slots.size + (if c.isWide then 2 else 1) then _ else _ : Build UInt16) b = _
  by_cases hroom : maxSlots < b.slots.size + (if c.isWide then 2 else 1)
  · rw [if_pos hroom, if_pos hroom]
  · rw [if_neg hroom, if_neg hroom]
    rfl

theorem adds_add (c : Constant) (hc : c.Encodable) :
    Adds (add c) fun p i => p.get? i = some c := by
  intro b hb
  cases hfound : b.index[c]? with
  | some i =>
      rw [add_found hfound]
      exact ⟨hb, .refl _, id, fun _ p hp => ⟨.refl b, hp i c (hb.indexed c i hfound)⟩⟩
  | none =>
      rw [add_new hfound]
      by_cases hroom : b.slots.size + (if c.isWide then 2 else 1) ≤ maxSlots
      · rw [if_neg (Nat.not_lt_of_le hroom)]
        exact ⟨hb.withConstant hc hfound hroom, extends_withConstant b c, id,
          fun _ p hp => ⟨rfl, hp _ c (hb.get?_withConstant hroom)⟩⟩
      · rw [if_pos (Nat.lt_of_not_le hroom)]
        exact performs_failed .poolOverflow 0
          (fun p b i b' => b.Keeps b' ∧ p.get? i = some c) b hb

theorem adds_utf8 (text : String) : Adds (utf8 text) fun p i => p.utf8 i = .ok text := by
  rw [utf8]
  split
  · exact performs_failed .textTooLong 0 _
  · rename_i hshort
    have hencodable : (Constant.utf8 text).Encodable := Nat.lt_succ_of_le (Nat.le_of_not_lt hshort)
    exact (adds_add (.utf8 text) hencodable).mono fun _ _ => Pool.utf8_of_get

theorem adds_classRef (name : String) :
    Adds (classRef name) fun p i => p.className i = .ok name :=
  (adds_utf8 name).bind fun n => (adds_add (.classRef n) trivial).mono fun _ _ h hname =>
    Pool.className_of_get h hname

theorem adds_string (text : String) :
    Adds (string text) fun p i => p.stringValue i = .ok text :=
  (adds_utf8 text).bind fun n => (adds_add (.string n) trivial).mono fun _ _ h htext =>
    Pool.stringValue_of_get h htext

theorem adds_nameAndType (name descriptor : String) :
    Adds (nameAndType name descriptor) fun p i => p.nameAndType i = .ok (name, descriptor) :=
  (adds_utf8 name).bind fun n => (adds_utf8 descriptor).bind fun d =>
    (adds_add (.nameAndType n d) trivial).mono fun p i h hdescriptor hname => by
      rw [Pool.nameAndType, Pool.get, h]
      show (do return (← p.utf8 n, ← p.utf8 d)) = _
      rw [hname, hdescriptor]
      rfl

theorem adds_member (kind : MemberKind) (owner name descriptor : String) :
    Adds (member kind owner name descriptor) fun p i => ∀ wanted, kind.tag ∈ wanted →
      p.member i wanted = .ok ⟨kind, owner, name, descriptor⟩ :=
  (adds_classRef owner).bind fun c => (adds_nameAndType name descriptor).bind fun n =>
    (adds_add (.member kind c n) trivial).mono fun p i h hname howner wanted hwanted => by
      rw [Pool.member, Pool.get, h]
      show (if kind.tag ∈ wanted then _ else _) = _
      rw [if_pos hwanted, howner, hname]
      rfl

theorem adds_literal (value : Literal) :
    Adds (literal value) fun p i? => match i? with
      | some i => p.Holds i value
      | none => ∃ type, value = .unsupported type := by
  cases value with
  | int value => exact (adds_add (.integer value) trivial).map fun _ _ h => h
  | long value => exact (adds_add (.long value) trivial).map fun _ _ h => h
  | float bits => exact (adds_add (.float bits) trivial).map fun _ _ h => h
  | double bits => exact (adds_add (.double bits) trivial).map fun _ _ h => h
  | string text => exact (adds_string text).map fun _ _ h => h
  | unsupported type => exact adds_pure fun _ => ⟨type, rfl⟩

end Builder

end ClassEngine.ClassFile
