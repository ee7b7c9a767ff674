import ClassEngine.ClassFile.Descriptor
import Mathlib.Algebra.Ring.Nat
import Mathlib.Data.List.Forall2
import Mathlib.Data.List.TakeWhile

/-!
# The grammar of descriptors

The derivation of a field descriptor is the type that it names.  Reading finds the derivation of
what it accepts and accepts whatever has one, up to the limit on array dimensions.
-/

namespace ClassEngine.ClassFile

/-! ## The grammar -/

/-- `T ::= B | C | D | F | I | J | S | Z | L name ; | [ T`, with the type that the text names. -/
inductive FieldType.Spelled : FieldType → List Char → Prop
  | base (t : BaseType) : Spelled (.base t (String.singleton t.letter)) [t.letter]
  | object {name : List Char} (named : name ≠ []) (closed : ';' ∉ name) :
      Spelled (.object (String.ofList name) (String.ofList ('L' :: (name ++ [';']))))
        ('L' :: (name ++ [';']))
  | array {element : FieldType} {cs : List Char} (h : Spelled element cs) :
      Spelled (.array element (String.ofList ('[' :: cs))) ('[' :: cs)

def leadingBrackets (cs : List Char) : Nat := (cs.takeWhile (· = '[')).length

theorem leadingBrackets_bracket (cs : List Char) :
    leadingBrackets ('[' :: cs) = leadingBrackets cs + 1 := by
  rw [leadingBrackets, List.takeWhile_cons_of_pos (by rfl)]
  rfl

structure FieldType.Described (t : FieldType) (cs : List Char) : Prop where
  spelled : t.Spelled cs
  brackets : leadingBrackets cs ≤ 255

inductive MethodDescriptor.Returns : Option FieldType → List Char → Prop
  | void : Returns none ['V']
  | value {t : FieldType} {cs : List Char} (h : t.Described cs) : Returns (some t) cs

structure MethodDescriptor.Described (d : MethodDescriptor) (cs : List Char) : Prop where
  text : d.text.toList = cs
  exists_parts : ∃ (params : List (List Char)) (result : List Char),
    List.Forall₂ FieldType.Described d.params params ∧ Returns d.result? result ∧
      cs = '(' :: (params.flatten ++ ')' :: result)

/-! ## Spelled types -/

namespace BaseType

theorem ofLetter?_letter (t : BaseType) : ofLetter? t.letter = some t := by
  cases t <;> rfl

theorem letter_of_ofLetter? {c : Char} {t : BaseType} (h : ofLetter? c = some t) :
    t.letter = c := by
  unfold ofLetter? at h
  split at h <;> cases h <;> rfl

theorem exists_letter_iff (c : Char) : (∃ t : BaseType, t.letter = c) ↔ c ∈ "BCDFIJSZ".toList := by
  constructor
  · rintro ⟨t, rfl⟩
    cases t <;> decide
  · intro h
    have hcases : c ∈ ['B', 'C', 'D', 'F', 'I', 'J', 'S', 'Z'] := h
    simp only [List.mem_cons, List.not_mem_nil, or_false] at hcases
    obtain rfl | rfl | rfl | rfl | rfl | rfl | rfl | rfl := hcases
    exacts [⟨.byte, rfl⟩, ⟨.char, rfl⟩, ⟨.double, rfl⟩, ⟨.float, rfl⟩, ⟨.int, rfl⟩, ⟨.long, rfl⟩,
      ⟨.short, rfl⟩, ⟨.boolean, rfl⟩]

end BaseType

namespace FieldType

theorem Spelled.head {t : FieldType} {cs : List Char} (h : t.Spelled cs) :
    ∃ rest, cs = t.kind :: rest := by
  cases h with
  | base t => exact ⟨[], rfl⟩
  | object => exact ⟨_, rfl⟩
  | array => exact ⟨_, rfl⟩

theorem Spelled.render {t : FieldType} {cs : List Char} (h : t.Spelled cs) :
    t.render.toList = cs := by
  induction h with
  | base t => exact String.toList_singleton _
  | @object name =>
      simp [FieldType.render, String.toList_append, String.toList_ofList]
  | array h ih =>
      rw [FieldType.render, String.toList_append, ih]
      rfl

theorem Spelled.text {t : FieldType} {cs : List Char} (h : t.Spelled cs) : t.text.toList = cs := by
  cases h with
  | base t => exact String.toList_singleton _
  | object | array => exact String.toList_ofList

theorem Spelled.leadingBrackets_append {t : FieldType} {cs : List Char} (h : t.Spelled cs)
    (rest : List Char) : leadingBrackets (cs ++ rest) = leadingBrackets cs := by
  induction h with
  | base t => cases t <;> rfl
  | object => rfl
  | array h ih => rw [List.cons_append, leadingBrackets_bracket, leadingBrackets_bracket, ih]

/-! ## Reading a type -/

theorem textBefore_append (cs rest : List Char) :
    textBefore (cs ++ rest) rest = String.ofList cs := by
  rw [textBefore, List.length_append, Nat.add_sub_cancel, List.take_left]

theorem Described.read {t : FieldType} {cs : List Char} (h : t.Described cs) (text : String)
    (rest : List Char) : FieldType.read text (cs ++ rest) = .ok (t, rest) := by
  obtain ⟨hspelled, hbrackets⟩ := h
  induction hspelled with
  | base t =>
      rw [List.singleton_append, FieldType.read, BaseType.ofLetter?_letter]
  | @object name named closed =>
      have hplain : ∀ c ∈ name, decide (c ≠ ';') = true := by
        intro c hc
        rw [decide_eq_true_eq]
        rintro rfl
        exact closed hc
      have htake : (name ++ ';' :: rest).takeWhile (· ≠ ';') = name := by
        rw [List.takeWhile_append_of_pos hplain]
        simp
      have hdrop : (name ++ ';' :: rest).dropWhile (· ≠ ';') = ';' :: rest := by
        rw [List.dropWhile_append_of_pos hplain]
        simp
      obtain ⟨first, name, rfl⟩ := List.exists_cons_of_ne_nil named
      have hcs : 'L' :: (first :: name ++ [';']) ++ rest =
          'L' :: (first :: name ++ ';' :: rest) := by
        simp
      have hletter : BaseType.ofLetter? 'L' = none := rfl
      rw [hcs, FieldType.read, hletter]
      dsimp only
      rw [if_pos rfl, htake, hdrop]
      dsimp only
      rw [← hcs, textBefore_append]
  | @array element cs h ih =>
      rw [leadingBrackets_bracket] at hbrackets
      have hcounted : leadingBrackets ('[' :: (cs ++ rest)) ≤ 255 := by
        rw [leadingBrackets_bracket, h.leadingBrackets_append]
        exact hbrackets
      have hlimit : ¬ maxDimensions < (('[' :: (cs ++ rest)).takeWhile (· = '[')).length :=
        Nat.not_lt.mpr hcounted
      have hletter : BaseType.ofLetter? '[' = none := rfl
      rw [List.cons_append, FieldType.read, hletter]
      dsimp only
      rw [if_neg (by decide), if_pos rfl, if_neg hlimit, ih (by omega)]
      show Except.ok (FieldType.array element (textBefore ('[' :: cs ++ rest) rest), rest) = _
      rw [textBefore_append]

theorem closed_of_takeWhile {cs name after : List Char} {last : Char}
    (htake : cs.takeWhile (· ≠ ';') = name) (hdrop : cs.dropWhile (· ≠ ';') = last :: after) :
    ';' ∉ name ∧ cs = name ++ ';' :: after := by
  constructor
  · intro hmem
    rw [← htake] at hmem
    simpa using List.mem_takeWhile_imp hmem
  · have hlast : last = ';' := by
      have hhead := List.head?_dropWhile_not (· ≠ ';') cs
      rw [hdrop] at hhead
      simpa using hhead
    rw [← hlast, ← hdrop, ← htake, List.takeWhile_append_dropWhile]

theorem described_of_read {text : String} {cs rest : List Char} {t : FieldType}
    (h : FieldType.read text cs = .ok (t, rest)) :
    ∃ spelled, cs = spelled ++ rest ∧ t.Described spelled := by
  induction cs generalizing t rest with
  | nil => cases h
  | cons c cs ih =>
      rw [FieldType.read] at h
      split at h
      · rename_i base hbase
        cases h
        refine ⟨[c], rfl, ?_, ?_⟩
        · rw [← BaseType.letter_of_ofLetter? hbase]
          exact .base base
        · exact Nat.le_trans (List.takeWhile_prefix _).length_le (by simp)
      · split at h
        · rename_i hclass
          subst hclass
          split at h
          · rename_i first name last after htake hdrop
            cases h
            obtain ⟨hplain, hsplit⟩ := closed_of_takeWhile htake hdrop
            have hcs : 'L' :: cs = 'L' :: (first :: name ++ [';']) ++ rest := by simp [hsplit]
            refine ⟨'L' :: (first :: name ++ [';']), hcs, ?_, Nat.zero_le 255⟩
            rw [hcs, textBefore_append]
            exact .object (List.cons_ne_nil _ _) hplain
          · cases h
        · split at h
          · rename_i hbracket
            subst hbracket
            split at h
            · cases h
            · rename_i hcount
              cases hread : FieldType.read text cs with
              | error e =>
                  rw [hread] at h
                  cases h
              | ok p =>
                  obtain ⟨element, after⟩ := p
                  rw [hread] at h
                  cases h
                  obtain ⟨spelled, hspelledEq, hspelled, -⟩ := ih hread
                  have hcs : '[' :: cs = '[' :: spelled ++ rest := by
                    rw [hspelledEq, List.cons_append]
                  refine ⟨'[' :: spelled, hcs, ?_, ?_⟩
                  · rw [hcs, textBefore_append]
                    exact .array hspelled
                  · rw [← (Spelled.array hspelled).leadingBrackets_append rest, ← hcs]
                    exact Nat.not_lt.mp hcount
          · cases h

end FieldType

theorem FieldType.kind_ne (t : FieldType) : t.kind ≠ ')' ∧ t.kind ≠ 'V' := by
  cases t with
  | base b => cases b <;> simp [kind, BaseType.letter]
  | object | array => simp [kind]

/-! ## Reading a method -/

namespace MethodDescriptor

open List (Forall₂)

theorem readParams_close (text : String) (rest : List Char) :
    readParams text (')' :: rest) = .ok ([], rest) := by
  rw [readParams]

theorem readParams_cons {text : String} {c : Char} {cs after : List Char} {t : FieldType}
    (hne : c ≠ ')') (hread : FieldType.read text (c :: cs) = .ok (t, after)) :
    readParams text (c :: cs) = (readParams text after).map fun p => (t :: p.1, p.2) := by
  rw [readParams]
  · split
    · rename_i e he
      rw [hread] at he
      cases he
    · rename_i t' after' hok
      rw [hread] at hok
      cases hok
      cases readParams text after <;> rfl
  · exact hne

theorem readParams_of_described {params : List FieldType} {texts : List (List Char)}
    (h : Forall₂ FieldType.Described params texts) (text : String) (rest : List Char) :
    readParams text (texts.flatten ++ ')' :: rest) = .ok (params, rest) := by
  induction h with
  | nil => exact readParams_close text rest
  | @cons t cs params texts ht _ ih =>
      have hread := ht.read text (texts.flatten ++ ')' :: rest)
      obtain ⟨tail, rfl⟩ := ht.spelled.head
      rw [List.cons_append] at hread
      rw [List.flatten_cons, List.append_assoc, List.cons_append,
        readParams_cons t.kind_ne.1 hread, ih]
      rfl

theorem described_of_readParams {text : String} {cs rest : List Char} {params : List FieldType}
    (h : readParams text cs = .ok (params, rest)) :
    ∃ texts, Forall₂ FieldType.Described params texts ∧ cs = texts.flatten ++ ')' :: rest := by
  fun_induction readParams text cs generalizing params rest with
  | case1 => cases h
  | case2 rest =>
      cases h
      exact ⟨[], .nil, rfl⟩
  | case3 => cases h
  | case4 c cs hne t after hread ih =>
      cases hrest : readParams text after with
      | error e =>
          rw [hrest] at h
          cases h
      | ok p =>
          obtain ⟨ts, rest'⟩ := p
          rw [hrest] at h
          cases h
          obtain ⟨spelled, hcs, ht⟩ := FieldType.described_of_read hread
          obtain ⟨texts, hts, rfl⟩ := ih hrest
          exact ⟨spelled :: texts, .cons ht hts, by rw [hcs, List.flatten_cons, List.append_assoc]⟩

theorem Returns.ne_nil {t : Option FieldType} {cs : List Char} (h : Returns t cs) : cs ≠ [] := by
  cases h with
  | void => exact List.cons_ne_nil _ _
  | value ht =>
      obtain ⟨rest, rfl⟩ := ht.spelled.head
      exact List.cons_ne_nil _ _

theorem Returns.render {t : Option FieldType} {cs : List Char} (h : Returns t cs) :
    (t.elim "V" (·.render)).toList = cs := by
  cases h with
  | void => exact String.toList_ofList
  | value ht => exact ht.spelled.render

theorem toList_join_render {params : List FieldType} {texts : List (List Char)}
    (h : Forall₂ FieldType.Described params texts) :
    (String.join (params.map (·.render))).toList = texts.flatten := by
  induction h with
  | nil => rfl
  | cons ht _ ih =>
      rw [List.map_cons, String.join_cons, String.toList_append, ht.spelled.render, ih,
        List.flatten_cons]

theorem Described.parts {d : MethodDescriptor} {text : String} (h : d.Described text.toList) :
    "(" ++ String.join (d.params.map (·.render)) ++ ")" ++ d.result?.elim "V" (·.render) =
      text := by
  obtain ⟨-, texts, result, hparams, hresult, hcs⟩ := h
  apply String.toList_injective
  rw [hcs, String.toList_append, String.toList_append, String.toList_append,
    toList_join_render hparams, hresult.render]
  simp

theorem render_eq (d : MethodDescriptor) :
    d.render = "(" ++ String.join (d.params.map (·.render)) ++ ")" ++
      d.result?.elim "V" (·.render) := by
  unfold MethodDescriptor.render
  cases d.result? <;> rfl

theorem length_le_utf8ByteSize (text : String) : text.toList.length ≤ text.utf8ByteSize := by
  have h : ∀ cs : List Char, cs.length ≤ (String.ofList cs).utf8ByteSize := by
    intro cs
    induction cs with
    | nil => simp
    | cons c cs ih =>
        have hpos := c.utf8Size_pos
        rw [String.ofList_cons, String.utf8ByteSize_append, String.utf8ByteSize_singleton,
          List.length_cons]
        omega
  simpa using h text.toList

/-- The shortest texts have the two parentheses and a result. -/
theorem Described.le_utf8ByteSize {d : MethodDescriptor} {text : String}
    (h : d.Described text.toList) : 3 ≤ text.utf8ByteSize := by
  obtain ⟨-, texts, result, -, hresult, hcs⟩ := h
  have hsize := length_le_utf8ByteSize text
  have hpos := List.length_pos_of_ne_nil hresult.ne_nil
  rw [hcs] at hsize
  simp only [List.length_cons, List.length_append] at hsize
  omega

end MethodDescriptor

/-! ## Whole descriptors -/

namespace FieldType

theorem read_eq_ok_nil_iff (text : String) {cs : List Char} {t : FieldType} :
    FieldType.read text cs = .ok (t, []) ↔ t.Described cs := by
  constructor
  · intro h
    obtain ⟨spelled, hcs, ht⟩ := described_of_read h
    rwa [hcs, List.append_nil]
  · intro h
    have hread := h.read text []
    rwa [List.append_nil] at hread

theorem parse_eq_ok_iff (text : String) (t : FieldType) :
    FieldType.parse text = .ok t ↔ t.Described text.toList := by
  rw [← read_eq_ok_nil_iff text, FieldType.parse]
  constructor
  · intro h
    cases hread : FieldType.read text text.toList with
    | error e =>
        rw [hread] at h
        cases h
    | ok p =>
        obtain ⟨t', rest⟩ := p
        rw [hread] at h
        cases rest with
        | cons => cases h
        | nil =>
            cases h
            rfl
  · intro h
    rw [h]
    rfl

end FieldType

namespace MethodDescriptor

theorem described_of_parse {text : String} {d : MethodDescriptor}
    (h : MethodDescriptor.parse text = .ok d) : d.Described text.toList := by
  unfold MethodDescriptor.parse at h
  split at h
  · rename_i body hbody
    rw [hbody]
    split at h
    · cases h
    · cases hparams : readParams text body with
      | error e =>
          rw [hparams] at h
          cases h
      | ok p =>
          obtain ⟨params, rest⟩ := p
          obtain ⟨texts, htexts, rfl⟩ := described_of_readParams hparams
          rw [hparams] at h
          simp only [bind, Except.bind] at h
          split at h
          · cases h
            rename_i hp
            cases hp
            exact ⟨hbody, texts, ['V'], htexts, .void, rfl⟩
          · cases h
          · rename_i hp
            cases hp
            cases hread : FieldType.read text rest with
            | error e =>
                rw [hread] at h
                cases h
            | ok q =>
                obtain ⟨t, after⟩ := q
                rw [hread] at h
                cases after with
                | cons => cases h
                | nil =>
                    cases h
                    have ht := (FieldType.read_eq_ok_nil_iff _).mp hread
                    exact ⟨hbody, texts, rest, htexts, .value ht, rfl⟩
  · cases h

theorem Described.parse {text : String} {d : MethodDescriptor} (h : d.Described text.toList) :
    MethodDescriptor.parse text = .ok d := by
  have hlong := h.le_utf8ByteSize
  obtain ⟨params, returned, stored⟩ := d
  obtain ⟨hstored, texts, result, hparams, hresult, hcs⟩ := h
  obtain rfl : stored = text := String.toList_injective hstored
  have hread := readParams_of_described hparams stored result
  unfold MethodDescriptor.parse
  rw [hcs]
  simp only [if_neg (Nat.not_lt.mpr hlong), hread, bind, Except.bind]
  cases hresult with
  | void => rfl
  | @value t _ ht =>
      have hother : ∀ cs, result ≠ 'V' :: cs := by
        intro cs heq
        obtain ⟨tail, htail⟩ := ht.spelled.head
        exact t.kind_ne.2 (List.head_eq_of_cons_eq (htail.symm.trans heq))
      split
      · rename_i hp
        exact absurd (congrArg Prod.snd hp) (hother [])
      · rename_i hp
        exact absurd (congrArg Prod.snd hp) (hother _)
      · rename_i hp
        cases hp
        rw [(FieldType.read_eq_ok_nil_iff _).mpr ht]
        rfl

theorem parse_eq_ok_iff (text : String) (d : MethodDescriptor) :
    MethodDescriptor.parse text = .ok d ↔ d.Described text.toList :=
  ⟨described_of_parse, Described.parse⟩

end MethodDescriptor

/-! ## What the results say -/

namespace FieldType

theorem Described.unique {t t' : FieldType} {cs : List Char} (h : t.Described cs)
    (h' : t'.Described cs) : t' = t := by
  have hread := h.read "" []
  rw [h'.read "" []] at hread
  cases hread
  rfl

theorem Described.render {t : FieldType} {text : String} (h : t.Described text.toList) :
    t.render = text :=
  String.toList_injective h.spelled.render

theorem Described.text {t : FieldType} {text : String} (h : t.Described text.toList) :
    t.text = text :=
  String.toList_injective h.spelled.text

theorem Described.element?_eq_some_iff {t e : FieldType} {cs : List Char} (h : t.Described cs) :
    t.element? = some e ↔ ∃ inner, cs = '[' :: inner ∧ e.Described inner := by
  constructor
  · intro he
    obtain ⟨hspelled, hbrackets⟩ := h
    cases hspelled with
    | base | object => cases he
    | @array _ inner hinner =>
        cases he
        rw [leadingBrackets_bracket] at hbrackets
        exact ⟨inner, rfl, hinner, Nat.le_of_succ_le hbrackets⟩
  · rintro ⟨inner, rfl, he⟩
    generalize hcs : '[' :: inner = cs at h
    obtain ⟨hspelled, hbrackets⟩ := h
    cases hspelled with
    | base b => cases b <;> simp [BaseType.letter] at hcs
    | object => simp at hcs
    | array hinner =>
        cases hcs
        exact congrArg some (Described.unique ⟨hinner, he.brackets⟩ he).symm

theorem Described.className_eq_iff {t : FieldType} {text name : String}
    (h : t.Described text.toList) (named : name ≠ "") :
    t.className = name ↔ text = "L" ++ name ++ ";" := by
  constructor
  · intro hname
    have hrender := h.render
    cases t with
    | base | array => exact absurd hname.symm named
    | object =>
        rw [← hrender, ← hname]
        rfl
  · rintro rfl
    have hrender := h.render
    have hkind : t.kind = 'L' := by
      obtain ⟨rest, hrest⟩ := h.spelled.head
      rw [String.toList_append, String.toList_append] at hrest
      exact (List.head_eq_of_cons_eq hrest).symm
    cases t with
    | base b => cases b <;> simp [kind, BaseType.letter] at hkind
    | array => simp [kind] at hkind
    | object => simpa [FieldType.render, className] using hrender

theorem slots_eq (t : FieldType) : t.slots = if t.kind = 'J' ∨ t.kind = 'D' then 2 else 1 := by
  cases t with
  | base b => cases b <;> rfl
  | object | array => rfl

end FieldType

namespace MethodDescriptor

theorem argSlots_eq_sum (d : MethodDescriptor) : d.argSlots = (d.params.map (·.slots)).sum := by
  rw [argSlots, List.sum_eq_foldr, List.foldr_map]

theorem Described.unique {d d' : MethodDescriptor} {text : String} (h : d.Described text.toList)
    (h' : d'.Described text.toList) : d' = d := by
  have hparse := (parse_eq_ok_iff text d).2 h
  rw [(parse_eq_ok_iff text d').2 h'] at hparse
  cases hparse
  rfl

end MethodDescriptor

/-- Both readers accept exactly what has a derivation, and return the derivation. -/
theorem descriptors_exact (text : String) :
    (∀ c, (∃ t : BaseType, t.letter = c) ↔ c ∈ "BCDFIJSZ".toList) ∧
    (∀ t, FieldType.parse text = .ok t ↔ t.Described text.toList) ∧
    (∀ d, MethodDescriptor.parse text = .ok d ↔ d.Described text.toList) ∧
    (∀ t : FieldType, t.Described text.toList →
      (∀ t' : FieldType, t'.Described text.toList → t' = t) ∧ t.text = text ∧ t.render = text ∧
      (∃ rest, text.toList = t.kind :: rest) ∧
      (∀ e : FieldType,
        t.element? = some e ↔ ∃ inner, text.toList = '[' :: inner ∧ e.Described inner) ∧
      ∀ name, name ≠ "" → (t.className = name ↔ text = "L" ++ name ++ ";")) ∧
    (∀ d : MethodDescriptor, d.Described text.toList →
      (∀ d' : MethodDescriptor, d'.Described text.toList → d' = d) ∧ d.text = text ∧
      d.render = text ∧
      "(" ++ String.join (d.params.map (·.render)) ++ ")" ++ d.result?.elim "V" (·.render) =
        text ∧
      d.argSlots = (d.params.map fun p => if p.kind = 'J' ∨ p.kind = 'D' then 2 else 1).sum) := by
  refine ⟨BaseType.exists_letter_iff, FieldType.parse_eq_ok_iff text,
    MethodDescriptor.parse_eq_ok_iff text, ?_, ?_⟩
  · intro t ht
    exact ⟨fun t' ht' => ht.unique ht', ht.text, ht.render, ht.spelled.head,
      fun e => ht.element?_eq_some_iff, fun name named => ht.className_eq_iff named⟩
  · intro d hd
    refine ⟨fun d' hd' => hd.unique hd', String.toList_injective hd.text,
      d.render_eq.trans hd.parts, hd.parts, ?_⟩
    simp only [MethodDescriptor.argSlots_eq_sum, FieldType.slots_eq]

def mixedParams : List FieldType :=
  [.array (.array (.base .long "J") "[J") "[[J", .object "a" "La;", .base .double "D"]

theorem descriptors_exact_mixed :
    MethodDescriptor.parse "([[JLa;D)I" =
      .ok ⟨mixedParams, some (.base .int "I"), "([[JLa;D)I"⟩ ∧
    MethodDescriptor.argSlots ⟨mixedParams, some (.base .int "I"), "([[JLa;D)I"⟩ = 4 := by
  have hdescribed : MethodDescriptor.Described
      ⟨mixedParams, some (.base .int "I"), "([[JLa;D)I"⟩ "([[JLa;D)I".toList :=
    ⟨rfl, ["[[J".toList, "La;".toList, "D".toList], "I".toList,
      .cons ⟨.array (.array (.base .long)), by decide⟩
        (.cons ⟨@FieldType.Spelled.object ['a'] (by decide) (by decide), by decide⟩
          (.cons ⟨.base .double, by decide⟩ .nil)),
      .value ⟨.base .int, by decide⟩, by decide⟩
  obtain ⟨-, -, hparse, -, hmethod⟩ := descriptors_exact "([[JLa;D)I"
  exact ⟨(hparse _).2 hdescribed, (hmethod _ hdescribed).2.2.2.2⟩

end ClassEngine.ClassFile
