import ClassEngine.Proofs.ClassFile.Layouts

/-!
# Attributes that are not interpreted are inert

Bytes can be put in place of others if a parser that reads the others reads them to the same value.
A table of attributes can be replaced by the same table with one more attribute, provided that
nothing interprets its name there, and this replacement is passed on to the member, the code and
the file that hold the table.
-/

namespace ClassEngine.ClassFile

open BigEndian
open ClassFile.Parser

namespace Parser

variable {α β ι σ : Type} {p : Parser α} {used xs xs' ys ys' : List UInt8} {a : α}

/-- The first bytes are read or refused, and if they are read then the second are, to the same
value. -/
def Replaces (p : Parser α) (ys xs : List UInt8) : Prop :=
  ∃ r, Reads p xs r ∧ ∀ a, r = some a → Reads p ys (some a)

theorem Reads.replaces (h : Reads p xs (some a)) (h' : Reads p ys (some a)) :
    Replaces p ys xs := by
  refine ⟨some a, h, fun b hb => ?_⟩
  cases hb
  exact h'

theorem Reads.replaces_none (h : Reads p xs none) : Replaces p ys xs := ⟨none, h, nofun⟩

theorem Replaces.bind {f : α → Parser β} (hp : Replaces p ys xs)
    (hf : ∀ a, Replaces (f a) ys' xs') : Replaces (p >>= f) (ys ++ ys') (xs ++ xs') := by
  obtain ⟨r, hxs, hys⟩ := hp
  cases r with
  | none => exact (hxs.bind_none.append xs').replaces_none
  | some a =>
      obtain ⟨r', hxs', hys'⟩ := hf a
      exact ⟨r', hxs.bind hxs', fun b hb => (hys a rfl).bind (hys' b hb)⟩

theorem Replaces.bind_last {f : α → Parser β} (hp : Replaces p ys xs)
    (hf : ∀ a, Replaces (f a) [] []) : Replaces (p >>= f) ys xs := by
  simpa using hp.bind hf

theorem Replaces.bind_skip {f : α → Parser β} (hp : Replaces p [] [])
    (hf : ∀ a, Replaces (f a) ys xs) : Replaces (p >>= f) ys xs :=
  hp.bind hf

theorem Reads.bind_replaces {f : α → Parser β} (hp : Reads p used (some a))
    (hf : Replaces (f a) ys xs) : Replaces (p >>= f) (used ++ ys) (used ++ xs) := by
  obtain ⟨r, hxs, hys⟩ := hf
  exact ⟨r, hp.bind hxs, fun b hb => hp.bind (hys b hb)⟩

theorem replaces_u2 (w : UInt16) {f : UInt16 → Parser β} (hf : Replaces (f w) ys xs) :
    Replaces (u2 >>= f) (bytes16 w ++ ys) (bytes16 w ++ xs) :=
  (reads_u2 w).bind_replaces hf

theorem Replaces.within {place : Place} (h : Replaces p ys xs) :
    Replaces (Parser.within place p) ys xs := by
  obtain ⟨r, hxs, hys⟩ := h
  exact ⟨r, hxs.within place, fun a ha => (hys a ha).within place⟩

theorem replaces_pure (a : α) : Replaces (pure a) [] [] := (reads_pure a).replaces (reads_pure a)

theorem replaces_fail (e : ParseError) : Replaces (fail e : Parser α) ys xs :=
  ((reads_fail e).append xs).replaces_none

theorem replaces_lift (r : Except ParseError α) : Replaces (lift r) [] [] := by
  cases r with
  | error e => exact replaces_fail e
  | ok a => exact replaces_pure a

theorem replaces_fromPool (r : Except PoolError α) : Replaces (fromPool r) [] [] :=
  replaces_lift _

theorem Replaces.ite {c : Prop} [Decidable c] {q : Parser α} (hp : Replaces p ys xs)
    (hq : Replaces q ys xs) : Replaces (if c then p else q) ys xs := by
  split
  · exact hp
  · exact hq

theorem Replaces.check {c : Prop} [Decidable c] {e : ParseError} {f : Unit → Parser α}
    (h : Replaces (f ()) ys xs) : Replaces (if c then fail e >>= f else f ()) ys xs :=
  .ite ((((reads_fail e).bind_none).append xs).replaces_none) h

theorem Replaces.runOn {extra : Nat → ParseError} (h : Replaces p ys xs)
    (hok : runOn p xs extra = .ok a) : Parser.runOn p ys extra = .ok a := by
  obtain ⟨r, hxs, hys⟩ := h
  cases r with
  | none =>
      obtain ⟨e, he⟩ : ∃ e, Parser.runOn p xs extra = .error e := runOn_of_refused hxs
      rw [he] at hok
      cases hok
  | some b =>
      rw [runOn_of_reads hxs] at hok
      cases hok
      exact runOn_of_reads (hys _ rfl)

/-! ## Tables -/

theorem replaces_rounds {parse : Nat → Parser α} {encode : ι → List UInt8} {items' items : List ι}
    (h : List.Forall₂ (fun y x => ∀ i, Replaces (parse i) (encode y) (encode x)) items' items)
    (index : Nat) :
    Replaces (rounds parse index items.length) (items'.flatMap encode) (items.flatMap encode) := by
  induction h generalizing index with
  | nil => exact replaces_pure []
  | cons hhead _ ih =>
      exact (hhead index).bind fun a => (ih (index + 1)).bind_last fun as => replaces_pure _

theorem replaces_table {parse : Nat → Parser α} {encode : ι → List UInt8} {items' items : List ι}
    (hcount : items.length < 65536)
    (h : List.Forall₂ (fun y x => ∀ i, Replaces (parse i) (encode y) (encode x)) items' items) :
    Replaces (table parse) (encodeTable encode items') (encodeTable encode items) := by
  rw [encodeTable, encodeTable, MethodDraft.count16, MethodDraft.count16, h.length_eq]
  refine replaces_u2 _ ?_
  rw [UInt16.toNat_ofNat_of_lt' hcount]
  exact replaces_rounds h 0

theorem forall₂_replaced {R : ι → ι → Prop} {before after : List ι} {item' item : ι}
    (hsame : ∀ x ∈ before ++ item :: after, R x x) (h : R item' item) :
    List.Forall₂ R (before ++ item' :: after) (before ++ item :: after) := by
  have hbefore : List.Forall₂ R before before :=
    List.forall₂_same.mpr fun x hx => hsame x (List.mem_append_left _ hx)
  have hafter : List.Forall₂ R after after :=
    List.forall₂_same.mpr fun x hx =>
      hsame x (List.mem_append_right _ (List.mem_cons_of_mem item hx))
  exact List.rel_append hbefore (.cons h hafter)

/-! ## Attributes -/

variable {pool : Pool} {interpret : String → List UInt8 → σ → Except ParseError σ}

theorem reads_attributeRounds_or {as : List Attribute} (h : ∀ a ∈ as, a.Fits pool) (s : σ) :
    Reads (attributeRounds pool interpret s as.length) (as.flatMap Attribute.encode)
      (as.foldlM (fun s a => interpret a.name a.body s) s).toOption := by
  induction as generalizing s with
  | nil => exact reads_pure s
  | cons a as ih =>
      obtain ⟨ha, has⟩ := List.forall_mem_cons.mp h
      rw [List.flatMap_cons, List.length_cons, attributeRounds, List.foldlM_cons]
      cases hfirst : interpret a.name a.body s with
      | error e =>
          refine (reads_rawAttribute ha).bind ?_
          have hrefused : Reads (lift (interpret a.name a.body s)) [] none := by
            rw [hfirst]
            exact reads_fail e
          exact ((hrefused.within _).bind_none).append _
      | ok s' =>
          refine (reads_rawAttribute ha).bind ?_
          exact ((reads_lift hfirst).within _).bind_skip (ih has s')

theorem replaces_attributes {as' as : List Attribute} (htable : Attribute.Table pool as)
    (htable' : Attribute.Table pool as') {s : σ}
    (h : ∀ s', as.foldlM (fun s a => interpret a.name a.body s) s = .ok s' →
      as'.foldlM (fun s a => interpret a.name a.body s) s = .ok s') :
    Replaces (attributes pool interpret s) (encodeTable Attribute.encode as')
      (encodeTable Attribute.encode as) := by
  have hread {as : List Attribute} (htable : Attribute.Table pool as) :
      Reads (attributes pool interpret s) (encodeTable Attribute.encode as)
        (as.foldlM (fun s a => interpret a.name a.body s) s).toOption := by
    refine (reads_u2 _).bind ?_
    rw [UInt16.toNat_ofNat_of_lt' htable.count]
    exact reads_attributeRounds_or htable.fits s
  refine ⟨_, hread htable, fun s' hs' => ?_⟩
  have hread' := hread htable'
  cases hold : as.foldlM (fun s a => interpret a.name a.body s) s with
  | error e =>
      rw [hold] at hs'
      cases hs'
  | ok t =>
      rw [hold] at hs'
      cases hs'
      rw [h s' hold] at hread'
      exact hread'

theorem replaces_attributes_self {as : List Attribute} (h : Attribute.Table pool as) (s : σ) :
    Replaces (attributes pool interpret s) (encodeTable Attribute.encode as)
      (encodeTable Attribute.encode as) :=
  replaces_attributes h h fun _ hs => hs

end Parser

/-! ## One more attribute -/

/-- One more attribute is in the table, at any place, and its name is not among those that are
interpreted there. -/
structure Attribute.Grows (p : Pool) (known : List String) (as as' : List Attribute) : Prop where
  count : as'.length < 65536
  inserted : ∃ before a after, as = before ++ after ∧ as' = before ++ a :: after ∧ a.Fits p ∧
    a.name ∉ known

section

variable {σ : Type} {p : Pool} {interpret : String → List UInt8 → σ → Except ParseError σ}
  {known : List String} {as as' : List Attribute}

theorem Attribute.Grows.table (h : Attribute.Grows p known as as') (htable : Attribute.Table p as) :
    Attribute.Table p as' := by
  refine ⟨h.count, ?_⟩
  obtain ⟨before, a, after, rfl, rfl, ha, _⟩ := h.inserted
  intro a' ha'
  rcases List.mem_append.mp ha' with hbefore | hrest
  · exact htable.fits a' (List.mem_append_left _ hbefore)
  · rcases List.mem_cons.mp hrest with rfl | hafter
    · exact ha
    · exact htable.fits a' (List.mem_append_right _ hafter)

theorem Attribute.Grows.gathers (h : Attribute.Grows p known as as')
    (hinert : ∀ name ∉ known, ∀ body s, interpret name body s = .ok s) (s : σ) :
    as'.foldlM (fun s a => interpret a.name a.body s) s =
      as.foldlM (fun s a => interpret a.name a.body s) s := by
  obtain ⟨before, a, after, rfl, rfl, _, hname⟩ := h.inserted
  rw [List.foldlM_append, List.foldlM_append]
  congr 1
  funext s'
  rw [List.foldlM_cons, hinert a.name hname]
  rfl

theorem Attribute.Grows.replaces (h : Attribute.Grows p known as as')
    (htable : Attribute.Table p as)
    (hinert : ∀ name ∉ known, ∀ body s, interpret name body s = .ok s) (s : σ) :
    Replaces (attributes p interpret s) (encodeTable Attribute.encode as')
      (encodeTable Attribute.encode as) :=
  replaces_attributes htable (h.table htable) fun s' hs' => by rw [h.gathers hinert, hs']

end

theorem fieldAttribute_inert : ∀ name ∉ ["ConstantValue"], ∀ bs f,
    fieldAttribute name bs f = .ok f :=
  fun _ h _ _ => if_neg fun heq => h (List.mem_singleton.mpr heq)

theorem bodyAttribute_inert : ∀ name ∉ ["LineNumberTable"], ∀ bs lines,
    bodyAttribute name bs lines = .ok lines :=
  fun _ h _ _ => if_neg fun heq => h (List.mem_singleton.mpr heq)

theorem methodAttribute_inert {p : Pool} : ∀ name ∉ ["Code", "Exceptions"], ∀ bs m,
    methodAttribute p name bs m = .ok m := by
  intro name h bs m
  have hcode : name ≠ "Code" := fun heq => h (heq ▸ List.mem_cons_self)
  have hthrows : name ≠ "Exceptions" := fun heq =>
    h (List.mem_cons_of_mem _ (List.mem_singleton.mpr heq))
  rw [methodAttribute, if_neg hcode, if_neg hthrows]
  rfl

theorem classAttribute_inert {p : Pool} : ∀ name ∉ ["SourceFile"], ∀ bs text,
    classAttribute p name bs text = .ok text :=
  fun _ h _ _ => if_neg fun heq => h (List.mem_singleton.mpr heq)

/-! ## Members -/

variable {p : Pool}

theorem replaces_memberHeader (flags name descriptor : UInt16) :
    Replaces (memberHeader p) (bytes16 flags ++ (bytes16 name ++ bytes16 descriptor))
      (bytes16 flags ++ (bytes16 name ++ bytes16 descriptor)) := by
  refine replaces_u2 flags (replaces_u2 name ?_)
  rw [← List.append_nil (bytes16 descriptor)]
  refine replaces_u2 descriptor ?_
  exact (replaces_fromPool _).bind_skip fun _ => (replaces_fromPool _).bind_skip fun _ =>
    replaces_pure _

theorem MemberLayout.encode_attributes (m : MemberLayout) (as : List Attribute) :
    ({ m with attributes := as } : MemberLayout).encode =
      bytes16 m.flags ++ (bytes16 m.name ++ bytes16 m.descriptor) ++
        encodeTable Attribute.encode as := by
  rw [MemberLayout.encode, List.append_assoc, List.append_assoc]

theorem replaces_field {f : MemberLayout} {as : List Attribute}
    (h : ∀ s, Replaces (attributes p fieldAttribute s) (encodeTable Attribute.encode as)
      (encodeTable Attribute.encode f.attributes)) (index : Nat) :
    Replaces (field p index) ({ f with attributes := as } : MemberLayout).encode f.encode := by
  have hf := f.encode_attributes f.attributes
  rw [show ({ f with attributes := f.attributes } : MemberLayout) = f from rfl] at hf
  rw [f.encode_attributes as, hf]
  refine (replaces_memberHeader f.flags f.name f.descriptor).within.bind fun header => ?_
  exact ((replaces_lift _).bind_skip fun _ => h _).within

theorem replaces_method {m : MemberLayout} {as : List Attribute}
    (h : ∀ s, Replaces (attributes p (methodAttribute p) s) (encodeTable Attribute.encode as)
      (encodeTable Attribute.encode m.attributes)) (index : Nat) :
    Replaces (method p index) ({ m with attributes := as } : MemberLayout).encode m.encode := by
  have hm := m.encode_attributes m.attributes
  rw [show ({ m with attributes := m.attributes } : MemberLayout) = m from rfl] at hm
  rw [m.encode_attributes as, hm]
  refine (replaces_memberHeader m.flags m.name m.descriptor).within.bind fun header => ?_
  refine (replaces_lift _).within.bind_skip fun _ => (h _).within.bind_last fun m' => ?_
  exact .check (replaces_pure m')

theorem replaces_handler (length : Nat) (h : Handler) (index : Nat) :
    Replaces (handler length index) (MethodDraft.encodeHandler h) (MethodDraft.encodeHandler h) :=
  ⟨_, reads_handler h length index, fun _ hr => hr ▸ reads_handler h length index⟩

theorem replaces_body {c : CodeLayout} (hfits : c.Fits p) {as : List Attribute}
    (h : Replaces (attributes p bodyAttribute []) (encodeTable Attribute.encode as)
      (encodeTable Attribute.encode c.attributes)) :
    Replaces (body p) ({ c with attributes := as } : CodeLayout).encode c.encode := by
  have hlength : (UInt32.ofNat c.code.length).toNat = c.code.length :=
    UInt32.toNat_ofNat_of_lt' hfits.short
  refine replaces_u2 c.maxStack (replaces_u2 c.maxLocals ((reads_u4 _).bind_replaces ?_))
  refine .check ?_
  rw [hlength]
  refine (reads_bytes c.code).bind_replaces ?_
  refine (replaces_table hfits.handlers ?_).bind fun rows => h.bind_last fun lines =>
    replaces_pure _
  exact List.forall₂_same.mpr fun row _ => replaces_handler c.code.length row

theorem replaces_interfaceName (index : Nat) (entry : UInt16) :
    Replaces (interfaceName p index) (bytes16 entry) (bytes16 entry) := by
  rw [← List.append_nil (bytes16 entry)]
  exact replaces_u2 entry (replaces_fromPool _).within

theorem replaces_superName (name : String) (index : UInt16) :
    Replaces (Parser.superName p name) (bytes16 index) (bytes16 index) := by
  rw [← List.append_nil (bytes16 index)]
  refine replaces_u2 index (.ite (.ite (replaces_pure _) (replaces_fail _)) ?_)
  exact (replaces_fromPool _).within

/-! ## Whole files -/

/-- A file takes up replacements of its members and of its attributes. -/
theorem replaces_classFile {l : Layout} (hfits : l.Fits) {fields methods : List MemberLayout}
    {as : List Attribute}
    (hfields : List.Forall₂ (fun f' f => ∀ i, Replaces (field l.pool i) f'.encode f.encode)
      fields l.fields)
    (hmethods : List.Forall₂ (fun m' m => ∀ i, Replaces (method l.pool i) m'.encode m.encode)
      methods l.methods)
    (has : Replaces (attributes l.pool (classAttribute l.pool) "")
      (encodeTable Attribute.encode as) (encodeTable Attribute.encode l.attributes)) :
    Replaces classFile ({ l with fields, methods, attributes := as } : Layout).encode l.encode := by
  refine (reads_u4 _).bind_replaces (.check ?_)
  refine replaces_u2 l.minor (replaces_u2 l.major (.check ?_))
  refine hfits.pool.bind_replaces ?_
  refine replaces_u2 l.flags (replaces_u2 l.thisClass ?_)
  refine (replaces_fromPool _).within.bind_skip fun name => ?_
  refine (replaces_superName name l.superClass).bind fun super => ?_
  refine (replaces_table hfits.interfaces ?_).bind fun interfaces => ?_
  · exact List.forall₂_same.mpr fun entry _ i => replaces_interfaceName i entry
  · refine (replaces_table hfits.fieldCount hfields).bind fun fields => ?_
    refine (replaces_table hfits.methodCount hmethods).bind fun methods => ?_
    exact has.bind_last fun sourceFile => replaces_pure _

/-- The second file is the first one with one more attribute in one of its tables, whose name is
not interpreted there. -/
inductive Layout.Inserts (l : Layout) : Layout → Prop where
  | inClass {as : List Attribute} (h : Attribute.Grows l.pool ["SourceFile"] l.attributes as) :
    Inserts l { l with attributes := as }
  | inField {before after : List MemberLayout} {f : MemberLayout} {as : List Attribute}
    (hf : l.fields = before ++ f :: after)
    (h : Attribute.Grows l.pool ["ConstantValue"] f.attributes as) :
    Inserts l { l with fields := before ++ { f with attributes := as } :: after }
  | inMethod {before after : List MemberLayout} {m : MemberLayout} {as : List Attribute}
    (hm : l.methods = before ++ m :: after)
    (h : Attribute.Grows l.pool ["Code", "Exceptions"] m.attributes as) :
    Inserts l { l with methods := before ++ { m with attributes := as } :: after }
  | inCode {before after : List MemberLayout} {m : MemberLayout} {front back : List Attribute}
    {a : Attribute} {c : CodeLayout} {as : List Attribute}
    (hm : l.methods = before ++ m :: after) (ha : m.attributes = front ++ a :: back)
    (hname : a.name = "Code") (hc : c.Fits l.pool) (hbody : a.body = c.encode)
    (h : Attribute.Grows l.pool ["LineNumberTable"] c.attributes as)
    (hlength : ({ c with attributes := as } : CodeLayout).encode.length < 4294967296) :
    Inserts l { l with methods := before ++ { m with attributes := front ++
      { a with body := ({ c with attributes := as } : CodeLayout).encode } :: back } :: after }

theorem Attribute.Table.replaced {front back : List Attribute} {a : Attribute} {bs : List UInt8}
    (h : Attribute.Table p (front ++ a :: back)) (hlength : bs.length < 4294967296) :
    Attribute.Table p (front ++ { a with body := bs } :: back) := by
  refine ⟨?_, fun a' ha' => ?_⟩
  · have hcount := h.count
    rw [List.length_append, List.length_cons] at hcount ⊢
    exact hcount
  · rcases List.mem_append.mp ha' with hfront | hrest
    · exact h.fits a' (List.mem_append_left _ hfront)
    · rcases List.mem_cons.mp hrest with rfl | hback
      · exact ⟨(h.fits a (List.mem_append_right _ List.mem_cons_self)).named, hlength⟩
      · exact h.fits a' (List.mem_append_right _ (List.mem_cons_of_mem a hback))

theorem gathers_code {front back : List Attribute} {a : Attribute} {bs : List UInt8}
    (hname : a.name = "Code") (hbody : Replaces (body p) bs a.body) {m m' : Method}
    (h : (front ++ a :: back).foldlM (fun m a => methodAttribute p a.name a.body m) m = .ok m') :
    (front ++ { a with body := bs } :: back).foldlM
      (fun m a => methodAttribute p a.name a.body m) m = .ok m' := by
  rw [List.foldlM_append] at h ⊢
  obtain ⟨m₁, hfront, h⟩ := ok_of_bind h
  rw [List.foldlM_cons] at h
  obtain ⟨m₂, hcode, hback⟩ := ok_of_bind h
  have hcode' : methodAttribute p a.name bs m₁ = .ok m₂ := by
    rw [hname, methodAttribute, if_pos rfl] at hcode ⊢
    obtain ⟨b, hb, hcode⟩ := ok_of_bind hcode
    rw [hbody.runOn hb]
    exact hcode
  rw [hfront]
  show ({ a with body := bs } :: back).foldlM
    (fun m a => methodAttribute p a.name a.body m) m₁ = .ok m'
  rw [List.foldlM_cons]
  show (methodAttribute p a.name bs m₁ >>= _) = _
  rw [hcode']
  exact hback

theorem Layout.Inserts.replaces {l l' : Layout} (hfits : l.Fits) (h : l.Inserts l') :
    Replaces classFile l'.encode l.encode := by
  have hfields : ∀ f ∈ l.fields, ∀ i, Replaces (field l.pool i) f.encode f.encode :=
    fun f hf => replaces_field fun s => replaces_attributes_self (hfits.fields f hf) s
  have hmethods : ∀ m ∈ l.methods, ∀ i, Replaces (method l.pool i) m.encode m.encode :=
    fun m hm => replaces_method fun s => replaces_attributes_self (hfits.methods m hm) s
  have hsameFields : List.Forall₂ (fun f' f => ∀ i, Replaces (field l.pool i) f'.encode f.encode)
      l.fields l.fields := List.forall₂_same.mpr hfields
  have hsameMethods : List.Forall₂
      (fun m' m => ∀ i, Replaces (method l.pool i) m'.encode m.encode) l.methods l.methods :=
    List.forall₂_same.mpr hmethods
  have hsame : Replaces (Parser.attributes l.pool (classAttribute l.pool) "")
      (encodeTable Attribute.encode l.attributes) (encodeTable Attribute.encode l.attributes) :=
    replaces_attributes_self hfits.attributes ""
  cases h with
  | inClass h =>
      exact replaces_classFile hfits hsameFields hsameMethods
        (h.replaces hfits.attributes classAttribute_inert "")
  | @inField before after f as hf h =>
      have htable := hfits.fields f (by rw [hf]; exact List.mem_append_right _ List.mem_cons_self)
      have hgrown := replaces_field fun s => h.replaces htable fieldAttribute_inert s
      refine replaces_classFile hfits ?_ hsameMethods hsame
      rw [hf] at hfields ⊢
      exact forall₂_replaced hfields hgrown
  | @inMethod before after m as hm h =>
      have htable := hfits.methods m (by rw [hm]; exact List.mem_append_right _ List.mem_cons_self)
      have hgrown := replaces_method fun s => h.replaces htable methodAttribute_inert s
      refine replaces_classFile hfits hsameFields ?_ hsame
      rw [hm] at hmethods ⊢
      exact forall₂_replaced hmethods hgrown
  | @inCode before after m front back a c as hm ha hname hc hbody h hlength =>
      have htable := hfits.methods m (by rw [hm]; exact List.mem_append_right _ List.mem_cons_self)
      have hcode : Replaces (body l.pool) ({ c with attributes := as } : CodeLayout).encode
          a.body := by
        rw [hbody]
        exact replaces_body hc (h.replaces hc.attributes bodyAttribute_inert [])
      have htable' : Attribute.Table l.pool (front ++
          { a with body := ({ c with attributes := as } : CodeLayout).encode } :: back) := by
        rw [ha] at htable
        exact htable.replaced hlength
      have hgrown := replaces_method fun s => replaces_attributes htable htable'
        fun m' hm' => gathers_code hname hcode (ha ▸ hm')
      refine replaces_classFile hfits hsameFields ?_ hsame
      rw [hm] at hmethods ⊢
      exact forall₂_replaced hmethods hgrown

/-- Every file that is read has a layout, down to the code of its methods, and with one more
attribute that is not interpreted it is read to the same contents. -/
theorem parse_inserted {bs : List UInt8} {file : ClassFile} (h : parse bs = .ok file) :
    (∃ l : Layout, l.Fits ∧ (∀ m ∈ l.methods, m.CodeFits l.pool) ∧ bs = l.encode) ∧
      ∀ l l' : Layout, l.Fits → bs = l.encode → l.Inserts l' → parse l'.encode = .ok file := by
  refine ⟨exists_layout h, fun l l' hfits hbs hinserts => ?_⟩
  rw [hbs] at h
  exact (hinserts.replaces hfits).runOn h

/-! ## A note in the code of a method -/

namespace NotedCode

def constants : List Constant :=
  [.utf8 rootClassName, .classRef 1, .utf8 "Code", .utf8 "run", .utf8 "()V"]

def pool : Pool := ⟨#[none, some (.utf8 rootClassName), some (.classRef 1), some (.utf8 "Code"),
  some (.utf8 "run"), some (.utf8 "()V")]⟩

def code : CodeLayout := ⟨0, 0, [0xb1], [], []⟩

/-- An attribute of three bytes under the name of the method. -/
def note : Attribute := ⟨4, "run", [1, 2, 3]⟩

def layout : Layout where
  minor := 0
  major := 52
  poolBytes := MethodDraft.count16 pool.slots.toList ++ constants.flatMap Constant.encode
  pool
  flags := 0x0021
  thisClass := 2
  superClass := 0
  interfaces := []
  fields := []
  methods := [⟨0x0009, 4, 5, [⟨3, "Code", code.encode⟩]⟩]
  attributes := []

def noted : Layout := { layout with
  methods :=
    [⟨0x0009, 4, 5, [⟨3, "Code", ({ code with attributes := [note] } : CodeLayout).encode⟩]⟩] }

def file : ClassFile where
  version := ⟨52, 0⟩
  pool
  flags := 0x0021
  name := rootClassName
  superName := ""
  interfaces := []
  fields := []
  methods := [⟨0x0009, "run", "()V", some ⟨0, 0, #[0xb1], [], []⟩, []⟩]
  sourceFile := ""

theorem encodable_constants : ∀ c ∈ constants, c.Encodable := by
  have hshort : ∀ text ∈ [rootClassName, "Code", "run", "()V"],
      (ModifiedUtf8.encode text).length < 65536 := by decide
  simp only [List.forall_mem_cons, List.not_mem_nil, false_imp_iff, implies_true, and_true]
    at hshort
  obtain ⟨hroot, hcode, hrun, hdescriptor⟩ := hshort
  simp only [constants, List.forall_mem_cons, List.not_mem_nil, false_imp_iff, implies_true,
    and_true]
  exact ⟨hroot, trivial, hcode, hrun, hdescriptor⟩

theorem fits_code : Attribute.Fits pool ⟨3, "Code", code.encode⟩ := ⟨by decide, by decide⟩

theorem fits_layout : layout.Fits where
  pool := reads_pool rfl (by decide) encodable_constants
  interfaces := by decide
  fieldCount := by decide
  methodCount := by decide
  fields := nofun
  methods m hm := by
    obtain rfl := List.mem_singleton.mp hm
    exact ⟨by decide, fun a ha => List.mem_singleton.mp ha ▸ fits_code⟩
  attributes := ⟨by decide, nofun⟩

theorem inserts_noted : layout.Inserts noted := by
  have hcode : code.Fits pool := ⟨by decide, by decide, ⟨by decide, nofun⟩⟩
  have hnote : note.Fits pool := ⟨by decide, by decide⟩
  have hgrows : Attribute.Grows pool ["LineNumberTable"] code.attributes [note] :=
    ⟨by decide, [], note, [], rfl, rfl, hnote, by decide⟩
  have hmethods : layout.methods = [] ++ ⟨0x0009, 4, 5, [⟨3, "Code", code.encode⟩]⟩ :: [] := rfl
  have hattributes : [⟨3, "Code", code.encode⟩] =
      [] ++ (⟨3, "Code", code.encode⟩ : Attribute) :: [] := rfl
  exact .inCode hmethods hattributes rfl hcode rfl hgrows (by decide)

theorem parse_inserted_noted :
    parse layout.encode = .ok file ∧ layout.Inserts noted ∧ parse noted.encode = .ok file := by
  have hparse : parse layout.encode = .ok file := by decide +kernel
  exact ⟨hparse, inserts_noted,
    (parse_inserted hparse).2 layout noted fits_layout rfl inserts_noted⟩

end NotedCode

end ClassEngine.ClassFile
