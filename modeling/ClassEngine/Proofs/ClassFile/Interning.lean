import ClassEngine.Proofs.ClassFile.Writable

/-!
# A pool holds each constant once

A constant that is asked for again is found again, so no two entries are equal, and an index that
was given stays good.  Writing the class adds the names of its attributes to the pool; when it is
written again they are found, or the pool is as full as it was.
-/

namespace ClassEngine.ClassFile

open Builder (Performs Adds)

/-! ## Entries -/

theorem Pool.get_eq_ok {p : Pool} {i : UInt16} {c : Constant} :
    p.get i = .ok c ↔ p.get? i = some c := by
  unfold get
  cases p.get? i <;> simp

theorem getElem?_after_wide {cs : List Constant} {n : Nat} {c : Constant}
    (h : (cs.flatMap Constant.slots)[n]? = some (some c)) (hwide : c.isWide = true) :
    (cs.flatMap Constant.slots)[n + 1]? = some none := by
  induction cs generalizing n with
  | nil => cases h
  | cons c' cs ih =>
      rw [List.flatMap_cons, Constant.slots] at h ⊢
      cases hc' : c'.isWide with
      | true =>
          rw [hc'] at h
          rw [if_pos rfl] at h ⊢
          cases n with
          | zero => rfl
          | succ n =>
              cases n with
              | zero => cases h
              | succ n => exact ih h
      | false =>
          rw [hc'] at h
          rw [if_neg Bool.false_ne_true] at h ⊢
          cases n with
          | zero =>
              cases h
              cases hwide.symm.trans hc'
          | succ n => exact ih h

namespace Builder

variable {α β : Type} {b b' b'' : Builder}

theorem Sound.unique (h : b.Sound) {i j : UInt16} {c : Constant} (hi : b.pool.get? i = some c)
    (hj : b.pool.get? j = some c) : i = j :=
  Option.some.inj ((h.keyed i c hi).symm.trans (h.keyed j c hj))

theorem Sound.empty_after_wide (h : b.Sound) {i : UInt16} {c : Constant}
    (hi : b.pool.get? i = some c) (hwide : c.isWide = true) :
    b.slots[i.toNat + 1]? = some none := by
  obtain ⟨hne, hslot⟩ := Pool.get?_eq_some.mp hi
  have hslot : b.slots[i.toNat]? = some (some c) := hslot
  obtain ⟨cs, hslots, -⟩ := h.layout
  rw [← Array.getElem?_toList, hslots] at hslot ⊢
  cases hn : i.toNat with
  | zero => exact absurd (UInt16.toNat_inj.mp hn) hne
  | succ n =>
      rw [hn] at hslot
      exact getElem?_after_wide hslot hwide

/-! ## What was added is found again -/

/-- The second builder is reached from the first by adding to the pool. -/
structure Later (b b' : Builder) : Prop where
  keeps : b.Keeps b'
  index : ∀ (c : Constant) (i : UInt16), b.index[c]? = some i → b'.index[c]? = some i
  full : maxSlots ≤ b.slots.size →
    maxSlots ≤ b'.slots.size ∧ ∀ c : Constant, b.index[c]? = none → b'.index[c]? = none
  error : ∀ e, b.error? = some e → b'.error? = some e

theorem Later.refl (b : Builder) : b.Later b :=
  ⟨.refl b, fun _ _ h => h, fun h => ⟨h, fun _ h => h⟩, fun _ h => h⟩

theorem Later.trans (h : b.Later b') (h' : b'.Later b'') : b.Later b'' where
  keeps := h.keeps.trans h'.keeps
  index c i hi := h'.index c i (h.index c i hi)
  full hfull := ⟨(h'.full (h.full hfull).1).1,
    fun c hc => (h'.full (h.full hfull).1).2 c ((h.full hfull).2 c hc)⟩
  error e he := h'.error e (h.error e he)

/-- Nothing but the pool is changed, and when it is done again nothing is changed and the result
is the same. -/
structure Repeats (m : Build α) : Prop where
  later : ∀ b : Builder, b.Later (m b).2
  again : ∀ b b' : Builder, (m b).2.Later b' → m b' = ((m b).1, b')

theorem repeats_pure (a : α) : Repeats (pure a) := ⟨.refl, fun _ _ _ => rfl⟩

theorem Repeats.bind {m : Build α} {f : α → Build β} (hm : Repeats m) (hf : ∀ a, Repeats (f a)) :
    Repeats (m >>= f) where
  later b := (hm.later b).trans ((hf _).later _)
  again b b' h := by
    have hfirst := hm.again b b' (((hf _).later _).trans h)
    rw [bind_apply, hfirst]
    exact (hf (m b).1).again (m b).2 b' h

theorem later_fail (e : BuildError) (b : Builder) : b.Later (fail e b).2 where
  keeps := rfl
  index _ _ h := h
  full h := ⟨h, fun _ h => h⟩
  error e' he' := by
    show b.error?.or (some e) = some e'
    rw [he']
    rfl

theorem fail_again {e e' : BuildError} (h : b.error? = some e') : fail e b = ((), b) := by
  obtain ⟨version, flags, slots, index, this, super, interfaces, fields, methods, sourceFile,
    error?⟩ := b
  cases h
  rfl

theorem repeats_failed (e : BuildError) (a : α) : Repeats (do fail e; return a) where
  later b := later_fail e b
  again b b' h := by
    obtain ⟨e', he'⟩ : ∃ e', (fail e b).2.error? = some e' := by
      show ∃ e', b.error?.or (some e) = some e'
      cases b.error? <;> exact ⟨_, rfl⟩
    rw [bind_apply, fail_again (h.error e' he')]
    rfl

theorem later_withConstant {c : Constant} (hnew : b.index[c]? = none)
    (hroom : b.slots.size < maxSlots) : b.Later (b.withConstant c) where
  keeps := rfl
  index c' i hi := by
    show (b.index.insert c _)[c']? = some i
    rw [Std.HashMap.getElem?_insert, if_neg, hi]
    intro hsame
    rw [eq_of_beq hsame, hi] at hnew
    nomatch hnew
  full hfull := absurd hroom (Nat.not_lt_of_le hfull)
  error _ h := h

theorem add_narrow {c : Constant} (hc : c.isWide = false) (hnew : b.index[c]? = none) :
    maxSlots ≤ b.slots.size ∧ add c b = (do fail .poolOverflow; return 0 : Build UInt16) b ∨
      b.slots.size < maxSlots ∧ add c b = (UInt16.ofNat b.slots.size, b.withConstant c) := by
  have hwidth : (if c.isWide = true then 2 else 1) = 1 := by rw [hc]; rfl
  rw [add_new hnew, hwidth]
  by_cases hfull : maxSlots ≤ b.slots.size
  · exact .inl ⟨hfull, if_pos (Nat.lt_succ_of_le hfull)⟩
  · have hroom := Nat.lt_of_not_le hfull
    exact .inr ⟨hroom, if_neg (Nat.not_lt_of_le hroom)⟩

theorem repeats_add {c : Constant} (hc : c.isWide = false) : Repeats (add c) := by
  constructor
  · intro b
    cases hfound : b.index[c]? with
    | some i =>
        rw [add_found hfound]
        exact .refl b
    | none =>
        obtain ⟨-, heq⟩ | ⟨hroom, heq⟩ := add_narrow hc hfound
        · rw [heq]
          exact (repeats_failed .poolOverflow 0).later b
        · rw [heq]
          exact later_withConstant hfound hroom
  · intro b b' h
    cases hfound : b.index[c]? with
    | some i =>
        rw [add_found hfound] at h ⊢
        exact add_found (h.index c i hfound)
    | none =>
        obtain ⟨hfull, heq⟩ | ⟨hroom, heq⟩ := add_narrow hc hfound
        · rw [heq] at h ⊢
          have hlater := ((repeats_failed .poolOverflow (0 : UInt16)).later b).trans h
          obtain ⟨hfull', hnone⟩ := hlater.full hfull
          obtain ⟨-, heq'⟩ | ⟨hroom', -⟩ := add_narrow hc (hnone c hfound)
          · rw [heq']
            exact (repeats_failed .poolOverflow 0).again b b' h
          · exact absurd hroom' (Nat.not_lt_of_le hfull')
        · rw [heq] at h ⊢
          apply add_found
          apply h.index
          show (b.index.insert c _)[c]? = _
          rw [Std.HashMap.getElem?_insert, if_pos (beq_self_eq_true c)]

theorem repeats_utf8 (text : String) : Repeats (utf8 text) := by
  unfold utf8
  split
  · exact repeats_failed .textTooLong 0
  · exact repeats_add rfl

theorem repeats_encodeBody (m : MethodDraft) : Repeats m.encodeBody := by
  unfold MethodDraft.encodeBody
  extract_lets head
  clear_value head
  split
  · exact repeats_pure _
  · exact repeats_pure _
  · split
    · exact repeats_pure _
    · exact (repeats_utf8 _).bind fun _ => repeats_pure _

theorem repeats_encodeBodies (ms : List MethodDraft) : Repeats (encodeBodies ms) := by
  induction ms with
  | nil => exact repeats_pure _
  | cons m ms ih =>
      refine (repeats_encodeBody m).bind fun r => ?_
      cases r with
      | error e => exact repeats_pure _
      | ok body? => exact ih.bind fun _ => repeats_pure _

theorem repeats_nameIf (used : Bool) (name : String) : Repeats (nameIf used name) := by
  cases used with
  | false => exact repeats_pure 0
  | true => exact repeats_utf8 name

theorem repeats_namesUsed (b : Builder) : Repeats (namesUsed b) :=
  (repeats_utf8 _).bind fun _ => (repeats_nameIf _ _).bind fun _ =>
    (repeats_nameIf _ _).bind fun _ => (repeats_nameIf _ _).bind fun _ => repeats_pure _

theorem namesUsed_keeps (h : b.Keeps b') : namesUsed b' = namesUsed b := by
  rw [h]
  rfl

theorem methods_keeps (h : b.Keeps b') : b'.methods = b.methods := by
  rw [h]

/-- Once the bodies are there they are found again, in whatever the pool grows to. -/
theorem encodeBodies_again (h : (encodeBodies b.methods b).2.Later b') :
    encodeBodies b'.methods b' = ((encodeBodies b.methods b).1, b') := by
  have hbodies := repeats_encodeBodies b.methods
  rw [methods_keeps ((hbodies.later b).trans h).keeps]
  exact hbodies.again b b' h

theorem attributeNames_apply (b : Builder) : attributeNames b = namesUsed b b := rfl

theorem attributeNames_again (b : Builder) :
    attributeNames (attributeNames b).2 = attributeNames b := by
  have hnames := repeats_namesUsed b
  rw [attributeNames_apply, attributeNames_apply, namesUsed_keeps (hnames.later b).keeps]
  exact hnames.again b _ (.refl _)

/-- When the class is written again nothing is changed and the outcome is the same. -/
theorem bytes_again (b : Builder) : bytes (bytes b).2 = bytes b := by
  cases hr : (encodeBodies b.methods b).1 with
  | error e =>
      have hagain := encodeBodies_again (.refl (encodeBodies b.methods b).2)
      rw [hr] at hagain
      rw [bytes_refused hr]
      dsimp only
      rw [bytes_refused (congrArg Prod.fst hagain), hagain]
  | ok bodies =>
      have hlater : (encodeBodies b.methods b).2.Later
          (attributeNames (encodeBodies b.methods b).2).2 := (repeats_namesUsed _).later _
      have hagain := encodeBodies_again hlater
      have hnames := attributeNames_again (encodeBodies b.methods b).2
      rw [hr] at hagain
      have hbytes := bytes_finished (congrArg Prod.fst hagain)
      rw [bytes_finished hr]
      dsimp only
      rw [hbytes, hagain]
      dsimp only
      rw [hnames]

end Builder

/-! ## Indices that are given -/

namespace Call

/-- The index that the call gives, if it asks for one. -/
def index? : Call → Build (Option UInt16)
  | .utf8 text => some <$> Builder.utf8 text
  | .classRef name => some <$> Builder.classRef name
  | .string text => some <$> Builder.string text
  | .nameAndType name descriptor => some <$> Builder.nameAndType name descriptor
  | .member kind owner name descriptor => some <$> Builder.member kind owner name descriptor
  | .literal value => Builder.literal value
  | _ => return none

/-- In the pool the index leads to what the call asks for. -/
def Denotes (p : Pool) (i : UInt16) : Call → Prop
  | .utf8 text => p.utf8 i = .ok text
  | .classRef name => p.className i = .ok name
  | .string text | .literal (.string text) => p.stringValue i = .ok text
  | .nameAndType name descriptor => p.nameAndType i = .ok (name, descriptor)
  | .member kind owner name descriptor => ∀ wanted, kind.tag ∈ wanted →
      p.member i wanted = .ok ⟨kind, owner, name, descriptor⟩
  | .literal (.int value) => p.get i = .ok (.integer value)
  | .literal (.long value) => p.get i = .ok (.long value)
  | .literal (.float bits) => p.get i = .ok (.float bits)
  | .literal (.double bits) => p.get i = .ok (.double bits)
  | _ => False

theorem snd_discard {α : Type} (m : Build α) (b : Builder) :
    ((m >>= fun _ => pure ()) b).2 = (m b).2 := rfl

theorem snd_map {α β : Type} (f : α → β) (m : Build α) (b : Builder) :
    ((f <$> m) b).2 = (m b).2 := rfl

theorem perform_of_index? {call : Call} {b : Builder} {i : UInt16}
    (h : (call.index? b).1 = some i) : (call.perform b).2 = (call.index? b).2 := by
  cases call with
  | utf8 | classRef | string | nameAndType | member =>
      dsimp only [perform, index?]
      rw [snd_discard, snd_map]
  | literal =>
      dsimp only [perform, index?]
      rw [snd_discard]
  | setFlags | setVersion | setSourceFile | addInterface | addField | addConstantField | addMethod
  | changeMethod | bytes => cases h

theorem denotes_literal {p : Pool} {i : UInt16} {value : Literal} (h : p.Holds i value) :
    (literal value).Denotes p i := by
  cases value with
  | int | long | float | double => exact Pool.get_eq_ok.mpr h
  | string text => exact h
  | unsupported type => exact h.elim

theorem performs_index? (call : Call) :
    Performs call.index? fun p _ i? _ => ∀ i, i? = some i → call.Denotes p i := by
  have hgiven {m : Build UInt16} {Q : Pool → UInt16 → Prop} (hm : Adds m Q)
      (hdenotes : ∀ p i, Q p i → call.Denotes p i) :
      Performs (some <$> m) fun p _ i? _ => ∀ i, i? = some i → call.Denotes p i := by
    have hsome : Adds (some <$> m) fun p i? => ∀ i, i? = some i → call.Denotes p i :=
      hm.map fun p i h i' hi => Option.some.inj hi ▸ hdenotes p i h
    exact Performs.mono hsome fun _ _ _ _ h => h.2
  cases call with
  | utf8 text => exact hgiven (Builder.adds_utf8 text) fun _ _ h => h
  | classRef name => exact hgiven (Builder.adds_classRef name) fun _ _ h => h
  | string text => exact hgiven (Builder.adds_string text) fun _ _ h => h
  | nameAndType name descriptor =>
      exact hgiven (Builder.adds_nameAndType name descriptor) fun _ _ h => h
  | member kind owner name descriptor =>
      exact hgiven (Builder.adds_member kind owner name descriptor) fun _ _ h => h
  | literal value =>
      refine Performs.mono (Builder.adds_literal value) fun p _ i? _ ⟨_, h⟩ i hi => ?_
      subst hi
      exact denotes_literal h
  | setFlags | setVersion | setSourceFile | addInterface | addField | addConstantField | addMethod
  | changeMethod | bytes =>
      exact Builder.performs_pure fun _ _ => nofun

end Call

namespace Builder

variable {name super : String}

theorem build_append (name super : String) (calls more : List Call) :
    build name super (calls ++ more) = (more.forM Call.perform (build name super calls)).2 := by
  unfold build
  generalize start name super = b
  induction calls generalizing b with
  | nil => rfl
  | cons call calls ih => exact ih _

theorem forM_perform_single (call : Call) (b : Builder) :
    ([call].forM Call.perform b).2 = (call.perform b).2 := by
  generalize Call.perform = perform
  rfl

theorem leaves_more (name super : String) (calls more : List Call) :
    Leaves (build name super calls) (build name super (calls ++ more)) fun _ => True := by
  rw [build_append]
  have hmore := performs_calls more _ (build_models name super calls).sound
  exact { hmore with post := fun _ _ _ => trivial }

theorem denotes_index? {before after : List Call} {call : Call} {i : UInt16}
    (hi : (call.index? (build name super before)).1 = some i)
    (hok : (build name super (before ++ call :: after)).error? = none) :
    call.Denotes (build name super (before ++ call :: after)).pool i := by
  have hcall := call.performs_index? _ (build_models name super before).sound
  have hafter := leaves_more name super (before ++ [call]) after
  have hstep : build name super (before ++ [call]) = (call.index? (build name super before)).2 := by
    rw [build_append, forM_perform_single]
    exact Call.perform_of_index? hi
  rw [hstep, List.append_assoc] at hafter
  exact hcall.post (hafter.error hok) _ hafter.grows i hi

theorem error?_of_run {bs : List UInt8} (hb : b.Sound) (h : bytes.run b = (.ok bs, b')) :
    b.error? = none :=
  (performs_bytes b hb).error (error?_of_bytes (congrArg Prod.fst h))

/-- The pool of a builder that holds each constant once, and what the builder writes. -/
structure Interned (b : Builder) : Prop where
  unique : ∀ i j c, b.pool.get? i = some c → b.pool.get? j = some c → i = j
  padded : ∀ i c, b.pool.get? i = some c → c.isWide = true → b.slots[i.toNat + 1]? = some none
  bounded : b.pool.size ≤ 65535
  settled : (bytes (bytes b).2).1 = (bytes b).1

/-- Whatever a builder is called with, its pool holds each constant once and the indices that it
gave stay good.  While there is no error they lead to what was asked for; once there is an error
the class is never written. -/
theorem build_interns (name super : String) :
    (∀ calls, (build name super calls).Interned) ∧
    (∀ calls more, (build name super calls).pool.Extends
      (build name super (calls ++ more)).pool) ∧
    (∀ before call after i, (call.index? (build name super before)).1 = some i →
      (build name super (before ++ call :: after)).error? = none →
        call.Denotes (build name super (before ++ call :: after)).pool i) ∧
    ∀ calls e, (build name super calls).error? = some e →
      ∀ more bs, (bytes (build name super (calls ++ more))).1 ≠ .ok bs := by
  refine ⟨fun calls => ?_, fun calls more => (leaves_more name super calls more).grows,
    fun _ _ _ _ => denotes_index?, fun calls e he more bs hbs => ?_⟩
  · have hsound := (build_models name super calls).sound
    exact {
      unique := fun _ _ _ => hsound.unique
      padded := fun _ _ => hsound.empty_after_wide
      bounded := hsound.size
      settled := congrArg Prod.fst (bytes_again _) }
  · have hmore := leaves_more name super calls more
    have hnone := hmore.error (error?_of_run hmore.sound (Prod.ext hbs rfl))
    nomatch hnone.symm.trans he

end Builder

namespace LongAndMember

def calls : List Call :=
  [.literal (.long 7), .member .method "Shape" "sides" "()I", .literal (.long 7)]

theorem error?_calls : (Builder.build "Shape" rootClassName calls).error? = none := by
  obtain ⟨bs, b, hbytes⟩ : ∃ bs b,
      Builder.bytes.run (Builder.build "Shape" rootClassName calls) = (.ok bs, b) :=
    Builder.bytes_ok (by decide) (by decide) (by decide +kernel) (by decide) (by decide)
  exact Builder.error?_of_run (Builder.build_models _ _ calls).sound hbytes

/-- A long is followed by an empty slot, and the member that is asked for after it is found in the
pool to which another call has added nothing. -/
theorem build_interns_member :
    (Builder.build "Shape" rootClassName calls).error? = none ∧
    (∃ i, ((Call.literal (.long 7)).index? (Builder.build "Shape" rootClassName [])).1 = some i ∧
      (Builder.build "Shape" rootClassName calls).pool.get i = .ok (.long 7) ∧
      (Builder.build "Shape" rootClassName calls).slots[i.toNat + 1]? = some none) ∧
    ∃ i, ((Call.member .method "Shape" "sides" "()I").index?
        (Builder.build "Shape" rootClassName [.literal (.long 7)])).1 = some i ∧
      (Builder.build "Shape" rootClassName calls).pool.member i [.methodRef] =
        .ok ⟨.method, "Shape", "sides", "()I"⟩ := by
  obtain ⟨hinterned, -, hdenotes, -⟩ := Builder.build_interns "Shape" rootClassName
  have hlong := hdenotes [] (.literal (.long 7)) calls.tail _ rfl error?_calls
  have hmember := hdenotes [.literal (.long 7)] (.member .method "Shape" "sides" "()I")
    [.literal (.long 7)] _ rfl error?_calls
  exact ⟨error?_calls,
    ⟨_, rfl, hlong, (hinterned calls).padded _ _ (Pool.get_eq_ok.mp hlong) rfl⟩,
    _, rfl, hmember [.methodRef] List.mem_cons_self⟩

end LongAndMember

end ClassEngine.ClassFile
