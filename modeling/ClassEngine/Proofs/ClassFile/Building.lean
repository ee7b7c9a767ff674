import ClassEngine.Proofs.ClassFile.Declared

/-!
# A builder holds what it was told

Every call changes the builder as it changes the declarations: the indices that the builder holds
are those of the declared names and values in its pool, and in whatever the pool grows to.
-/

namespace ClassEngine.ClassFile

open Builder (Performs Adds)

/-! ## Lists of one shape -/

section

variable {α β γ : Type} {R : α → β → Prop} {S : α → γ → Prop} {T : β → γ → Prop}
  {xs : List α} {ys : List β} {zs : List γ}

theorem forall₂_of_common (h : List.Forall₂ R xs ys) (h' : List.Forall₂ S xs zs)
    (hT : ∀ x y z, R x y → S x z → T y z) : List.Forall₂ T ys zs := by
  induction h generalizing zs with
  | nil =>
      cases h'
      exact .nil
  | cons hxy _ ih =>
      cases h' with
      | cons hxz hrest => exact .cons (hT _ _ _ hxy hxz) (ih hrest)

theorem map_eq_of_forall₂ {f : α → γ} {g : β → γ}
    (h : List.Forall₂ (fun x y => f x = g y) xs ys) : xs.map f = ys.map g := by
  induction h with
  | nil => rfl
  | cons hxy _ ih => rw [List.map_cons, List.map_cons, hxy, ih]

theorem forall₂_exists (h : List.Forall₂ R xs ys) {x : α} (hx : x ∈ xs) : ∃ y ∈ ys, R x y := by
  induction h with
  | nil => nomatch hx
  | @cons a b xs ys hab _ ih =>
      rcases List.mem_cons.mp hx with rfl | hrest
      · exact ⟨b, List.mem_cons_self, hab⟩
      · obtain ⟨y, hy, hxy⟩ := ih hrest
        exact ⟨y, List.mem_cons_of_mem b hy, hxy⟩

theorem forall₂_forall_iff {P : α → Prop} {Q : β → Prop}
    (h : List.Forall₂ (fun x y => P x ↔ Q y) xs ys) : (∀ x ∈ xs, P x) ↔ ∀ y ∈ ys, Q y := by
  induction h with
  | nil => exact ⟨fun _ => nofun, fun _ => nofun⟩
  | cons hxy _ ih => rw [List.forall_mem_cons, List.forall_mem_cons, hxy, ih]

theorem forall₂_and_right {Q : β → Prop} (h : List.Forall₂ R xs ys) (hQ : ∀ y ∈ ys, Q y) :
    List.Forall₂ (fun x y => Q y ∧ R x y) xs ys :=
  ((List.forall₂_and_left ys xs).mpr ⟨hQ, List.Forall₂.flip h⟩).flip

theorem forall₂_concat {x : α} {y : β} (h : List.Forall₂ R xs ys) (hlast : R x y) :
    List.Forall₂ R (xs ++ [x]) (ys ++ [y]) :=
  List.rel_append h (.cons hlast .nil)

theorem forall₂_set (h : List.Forall₂ R xs ys) {index : Nat} {x x' : α} {change : β → β}
    (hx : xs[index]? = some x) (hchange : ∀ y, R x y → R x' (change y)) :
    List.Forall₂ R (xs.set index x') (ys.modify index change) := by
  induction h generalizing index with
  | nil => nomatch hx
  | @cons a b xs ys hab hrest ih =>
      cases index with
      | zero =>
          cases hx
          exact .cons (hchange b hab) hrest
      | succ index => exact .cons hab (ih hx)

end

/-! ## Indices and names -/

variable {p : Pool}

def DeclaredField.Models (p : Pool) (f : FieldDraft) (d : DeclaredField) : Prop :=
  f.flags = d.flags ∧ p.utf8 f.name = .ok d.name ∧ p.utf8 f.descriptor = .ok d.descriptor ∧
    (∃ t, FieldType.parse d.descriptor = .ok t) ∧
      match d.value? with
      | none => f.constant = 0
      | some value => p.Holds f.constant value

inductive DeclaredHandler.Models (p : Pool) : HandlerDraft → DeclaredHandler → Prop where
  | all (start stop target : Code.LabelId) :
    Models p (.labels start stop target 0) (.labels start stop target "")
  | named {start stop target : Code.LabelId} {catchType : UInt16} {catchName : String}
    (hne : catchName ≠ "") (h : p.className catchType = .ok catchName) :
    Models p (.labels start stop target catchType) (.labels start stop target catchName)
  | row (h : Handler) : Models p (.row h) (.row h)

/-- Labels are those of the assembler, if there is one. -/
structure DeclaredMethod.Models (p : Pool) (m : MethodDraft) (d : DeclaredMethod) : Prop where
  flags : m.flags = d.flags
  name : p.utf8 m.name = .ok d.name
  descriptor : p.utf8 m.descriptor = .ok d.descriptor
  typed : ∃ t, MethodDescriptor.parse d.descriptor = .ok t
  code : m.code = d.code
  assembler : m.assembler = d.assembler
  handlers : List.Forall₂ (DeclaredHandler.Models p) m.handlers d.handlers
  lines : m.lines = d.lines
  throws : List.Forall₂ (fun i name => p.className i = .ok name) m.throws d.throws
  marks : m.assembler.MarksWithin
  idle : m.code.isAssembly = false → m.assembler = {}

structure Declared.Models (p : Pool) (b : Builder) (d : Declared) : Prop where
  name : p.className b.this = .ok d.name
  superName : if d.superName = "" then b.super = 0 else p.className b.super = .ok d.superName
  version : b.version = d.version
  flags : b.flags = d.flags
  interfaces : List.Forall₂ (fun i name => p.className i = .ok name) b.interfaces d.interfaces
  fields : List.Forall₂ (DeclaredField.Models p) b.fields d.fields
  methods : List.Forall₂ (DeclaredMethod.Models p) b.methods d.methods
  sourceFile : if b.sourceFile = 0 then d.sourceFile = ""
    else p.utf8 b.sourceFile = .ok d.sourceFile

theorem Declared.Models.keeps {b b' : Builder} {d : Declared} (h : d.Models p b)
    (hkeeps : b.Keeps b') : d.Models p b' := by
  rw [hkeeps]
  exact ⟨h.name, h.superName, h.version, h.flags, h.interfaces, h.fields, h.methods, h.sourceFile⟩

/-! ## Methods -/

theorem adds_declareMethod (flags : UInt16) (name descriptor : String) :
    Adds (Builder.declareMethod flags name descriptor) fun p m =>
      DeclaredMethod.Models p m { flags, name, descriptor } := by
  have hrest : Adds (do
      return { flags, name := ← Builder.utf8 name, descriptor := ← Builder.utf8 descriptor,
               label := name ++ descriptor } : Build MethodDraft) fun p m =>
        (∃ t, MethodDescriptor.parse descriptor = .ok t) →
          DeclaredMethod.Models p m { flags, name, descriptor } :=
    (Builder.adds_utf8 name).bind fun n => (Builder.adds_utf8 descriptor).bind fun d =>
      Builder.adds_pure fun p hdescriptor hname htyped => {
        flags := rfl
        name := hname
        descriptor := hdescriptor
        typed := htyped
        code := rfl
        assembler := rfl
        handlers := .nil
        lines := rfl
        throws := .nil
        marks := Code.Assembler.marksWithin_empty
        idle := fun _ => rfl }
  rw [Builder.declareMethod]
  cases hparse : MethodDescriptor.parse descriptor with
  | error e => exact (Builder.performs_fail (.badMethod name e) fun _ _ _ _ => False).bind fun _ =>
      Builder.Performs.mono hrest fun _ _ _ _ _ _ h => h.elim
  | ok t => exact hrest.mono fun p m h => h ⟨t, hparse⟩

theorem MethodCall.adds_perform (call : MethodCall) (m : MethodDraft) :
    Adds (call.perform m) fun p m' => ∀ d, DeclaredMethod.Models p m d →
      (call.declare d).Models p m' := by
  cases call with
  | setCode maxStack maxLocals code =>
      refine Builder.adds_pure fun p d h => { h with
        code := congrArg (CodeDraft.withBytes maxStack maxLocals code) h.code
        idle := fun hidle => h.idle ?_ }
      cases hcode : m.code with
      | none => rfl
      | bytes _ _ _ => rfl
      | assembly _ _ =>
          rw [hcode] at hidle
          exact hidle
  | startAssembly maxStack maxLocals =>
      exact Builder.adds_pure fun p d h => { h with
        code := rfl
        assembler := rfl
        marks := Code.Assembler.marksWithin_empty
        idle := fun hidle => nomatch hidle }
  | emit e =>
      refine Builder.adds_pure fun p d h => ?_
      rw [MethodCall.declare, ← h.code]
      cases hassembly : m.code.isAssembly with
      | false => exact h
      | true =>
          rw [if_pos rfl, if_pos rfl]
          exact { h with
            code := rfl
            assembler := congrArg (·.perform e) h.assembler
            marks := h.marks.perform e
            idle := fun hidle => nomatch hassembly.symm.trans hidle }
  | protect start stop target catchName =>
      rw [MethodCall.perform, MethodDraft.addCatch]
      split
      · rename_i hall
        exact Builder.adds_pure fun p d h =>
          { h with handlers := forall₂_concat h.handlers (hall ▸ .all start stop target) }
      · rename_i hne
        exact (Builder.adds_classRef catchName).bind fun i => Builder.adds_pure fun p hi d h =>
          { h with handlers := forall₂_concat h.handlers (.named hne hi) }
  | addHandler h =>
      exact Builder.adds_pure fun p d hd =>
        { hd with handlers := forall₂_concat hd.handlers (.row h) }
  | addLine e =>
      exact Builder.adds_pure fun p d hd => { hd with lines := congrArg (· ++ _) hd.lines }
  | addLineAt start line =>
      exact Builder.adds_pure fun p d hd => { hd with lines := congrArg (· ++ _) hd.lines }
  | addThrows className =>
      exact (Builder.adds_classRef className).bind fun i => Builder.adds_pure fun p hi d hd =>
        { hd with throws := forall₂_concat hd.throws hi }

/-! ## Classes -/

namespace Call

open Builder (performs_modify performs_pure)

/-- The call changes the builder as it changes the declarations. -/
def Follows (call : Call) : Prop :=
  Performs call.perform fun p b _ b' => ∀ d, d.Models p b → (call.declare d).Models p b'

theorem follows_setFlags (flags : UInt16) : (setFlags flags).Follows := by
  refine (performs_modify _ fun _ => rfl).mono fun p b _ b' hb' d h => ?_
  subst hb'
  exact { h with flags := rfl }

theorem follows_setVersion (version : Version) : (setVersion version).Follows := by
  refine (performs_modify _ fun _ => rfl).mono fun p b _ b' hb' d h => ?_
  subst hb'
  exact { h with version := rfl }

theorem follows_setSourceFile (name : String) : (setSourceFile name).Follows := by
  refine Performs.bind (Builder.adds_utf8 name) fun i => (performs_modify _ fun _ => rfl).mono
    fun p b _ b' hb' b₀ ⟨hkeeps, hi⟩ d h => ?_
  subst hb'
  refine { h.keeps hkeeps with sourceFile := ?_ }
  rw [if_neg (Pool.ne_zero_of_utf8 hi)]
  exact hi

theorem follows_addInterface (name : String) : (addInterface name).Follows := by
  refine Performs.bind (Builder.adds_classRef name) fun i => (performs_modify _ fun _ => rfl).mono
    fun p b _ b' hb' b₀ ⟨hkeeps, hi⟩ d h => ?_
  subst hb'
  have hkept := h.keeps hkeeps
  exact { hkept with interfaces := forall₂_concat hkept.interfaces hi }

theorem performs_pushField (f : FieldDraft) :
    Performs (Builder.pushField f) fun p b _ b' => ∀ (d : Declared) (df : DeclaredField),
      d.Models p b → df.Models p f → { d with fields := d.fields ++ [df] }.Models p b' := by
  refine (performs_modify _ fun _ => rfl).mono fun p b _ b' hb' d df h hf => ?_
  subst hb'
  exact { h with fields := forall₂_concat h.fields hf }

theorem adds_declareField (flags : UInt16) (name descriptor : String) :
    Adds (Builder.declareField flags name descriptor) fun p f =>
      DeclaredField.Models p f ⟨flags, name, descriptor, none⟩ := by
  have hrest : Adds (do
      return ⟨flags, ← Builder.utf8 name, ← Builder.utf8 descriptor, 0⟩ : Build FieldDraft)
      fun p f => (∃ t, FieldType.parse descriptor = .ok t) →
        DeclaredField.Models p f ⟨flags, name, descriptor, none⟩ :=
    (Builder.adds_utf8 name).bind fun n => (Builder.adds_utf8 descriptor).bind fun d =>
      Builder.adds_pure fun p hdescriptor hname htyped => ⟨rfl, hname, hdescriptor, htyped, rfl⟩
  rw [Builder.declareField]
  cases hparse : FieldType.parse descriptor with
  | error e => exact (Builder.performs_fail (.badField name e) fun _ _ _ _ => False).bind fun _ =>
      Builder.Performs.mono hrest fun _ _ _ _ _ _ h => h.elim
  | ok t => exact hrest.mono fun p m h => h ⟨t, hparse⟩

theorem follows_addField (flags : UInt16) (name descriptor : String) :
    (addField flags name descriptor).Follows :=
  Performs.bind (adds_declareField flags name descriptor) fun f => (performs_pushField f).mono
    fun _ _ _ _ hpush _ ⟨hkeeps, hf⟩ d h => hpush d _ (h.keeps hkeeps) hf

theorem follows_addConstantField (flags : UInt16) (name descriptor : String) (value : Literal) :
    (addConstantField flags name descriptor value).Follows := by
  refine Performs.bind (adds_declareField flags name descriptor) fun f =>
    Performs.bind (Builder.adds_literal value) fun i? => ?_
  cases i? with
  | some i =>
      refine (performs_pushField { f with constant := i }).mono
        fun p b _ b' hpush b₁ ⟨hkeeps, hvalue⟩ b₀ ⟨hkeeps₀, hf⟩ d h => ?_
      obtain ⟨hflags, hname, hdescriptor, htyped, -⟩ := hf
      exact hpush d ⟨flags, name, descriptor, some value⟩ ((h.keeps hkeeps₀).keeps hkeeps)
        ⟨hflags, hname, hdescriptor, htyped, hvalue⟩
  | none =>
      cases value with
      | unsupported type =>
          refine (Builder.performs_fail (.unsupportedLiteral name type) fun _ _ _ _ => False).bind
            fun _ => (performs_pushField f).mono fun _ _ _ _ _ _ h => h.elim
      | int | long | float | double | string =>
          refine (performs_pushField f).mono fun p b _ b' _ b₁ h => ?_
          obtain ⟨-, type, htype⟩ := h
          nomatch htype

theorem follows_addMethod (flags : UInt16) (name descriptor : String) :
    (addMethod flags name descriptor).Follows := by
  refine Performs.bind (adds_declareMethod flags name descriptor) fun m =>
    (performs_modify _ fun _ => rfl).mono fun p b _ b' hb' b₀ ⟨hkeeps, hm⟩ d h => ?_
  subst hb'
  have hkept := h.keeps hkeeps
  exact { hkept with methods := forall₂_concat hkept.methods hm }

theorem follows_changeMethod (index : Nat) (call : MethodCall) :
    (changeMethod index call).Follows := by
  refine Builder.performs_get.bind fun b₀ => ?_
  cases hm : b₀.methods[index]? with
  | none =>
      refine performs_pure fun p b b₁ ⟨hget, hsame⟩ d h => ?_
      subst hsame hget
      have hlength : d.methods.length ≤ index :=
        h.methods.length_eq ▸ List.getElem?_eq_none_iff.mp hm
      rw [declare, List.modify_eq_self hlength]
      exact h
  | some m =>
      refine Performs.bind (call.adds_perform m) fun m' => (performs_modify _ fun _ => rfl).mono
        fun p b _ b' hb' b₁ ⟨hkeeps, hm'⟩ b₂ ⟨hget, hsame⟩ d h => ?_
      subst hb' hsame hget
      have hkept := h.keeps hkeeps
      rw [hkeeps] at hkept ⊢
      exact { hkept with methods := forall₂_set h.methods hm fun d' => hm' d' }

theorem performs_of_adds {α : Type} {m : Build α} {Q : Pool → α → Prop} (hm : Adds m Q) :
    Performs (do let _ ← m) fun p b _ b' => ∀ d : Declared, d.Models p b → d.Models p b' :=
  Performs.bind hm fun _ => performs_pure fun _ _ _ ⟨hkeeps, _⟩ _ h => h.keeps hkeeps

end Call

end ClassEngine.ClassFile
